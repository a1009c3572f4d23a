import AssemblyGraph.Proofs.Factory.Validation

/-!
The attribute type of a record.

A record is built from one type of its factory, the attribute type, and from the methods that
this type or its definition lists. If the attribute type is a definition that declares the
constructors it lists, nothing else in the graph has a part in the record but the names of
types: a type has the full name of its enclosing types in front, and may outlive them. If the
attribute type is a reference, the record also needs its definition to be alive.
-/

namespace AssemblyGraph

/-- An error without the name of the type that was asked for a definition or a constructor. -/
def Error.unnamed : Error → Error
  | constructorMismatch _ shape found => .constructorMismatch "" shape found
  | unresolvable _ => .unresolvable ""
  | cause => cause

/-! ### Results up to the errors that are reported -/

section Results

variable {α : Type} {result result' : Except Error α}

theorem error_of_unnamed_eq (h : result'.mapError Error.unnamed = result.mapError Error.unnamed)
    {cause : Error} (failed : result = .error cause) :
    ∃ cause', result' = .error cause' ∧ cause'.unnamed = cause.unnamed := by
  subst failed
  cases result' with
  | ok a => cases h
  | error cause' => exact ⟨cause', rfl, Except.error.inj h⟩

theorem ok_iff_of_unnamed_eq (h : result'.mapError Error.unnamed = result.mapError Error.unnamed)
    (a : α) : result' = .ok a ↔ result = .ok a := by
  rw [← mapError_eq_ok_iff (f := Error.unnamed), h, mapError_eq_ok_iff]

end Results

/-! ### Looking a constructor up -/

namespace Graph

variable {g g' : Graph} {t : TypeId} {d : TypeDecl}

theorem methodsOf_congr (types : g'.type? t = g.type? t) (methods : g'.methods = g.methods) :
    g'.methodsOf t = g.methodsOf t := by
  have hmethod : g'.methodWithId? = g.methodWithId? := by
    funext m
    rw [methodWithId?, methodWithId?, method?, method?, methods]
  rw [methodsOf, methodsOf, types, hmethod]

theorem constructor_unnamed (types : g'.type? t = g.type? t) (methods : g'.methods = g.methods)
    (shape : ConstructorShape) : (g'.constructor t shape).mapError Error.unnamed =
      (g.constructor t shape).mapError Error.unnamed := by
  rw [constructor, constructor, findConstructor, findConstructor, methodsOf_congr types methods]
  cases shape.find MethodEntry.method (g.methodsOf t) <;> rfl

theorem resolve_of_not_reference (hd : g.type? t = some d) (defined : d.isReference = false) :
    g.resolve t = .ok t := by
  simp only [resolve, hd, defined, Bool.false_eq_true, if_false]

/-- A reference was never linked to a definition, or the linked one is gone. -/
def LacksDefinition (g : Graph) (d : TypeDecl) : Prop :=
  d.definition? = none ∨ ∃ x, d.definition? = some x ∧ g.isAlive x = false

theorem resolve_cases (hd : g.type? t = some d) (reference : d.isReference = true) :
    (g.LacksDefinition d ∧ g.resolve t = .error (.unresolvable (g.fullName t))) ∨
      (¬ g.LacksDefinition d ∧ ∃ x, g.resolve t = .ok x) := by
  simp only [resolve, hd, reference, if_true, LacksDefinition]
  cases hx : d.definition? with
  | none => simp [follow?]
  | some x =>
      cases halive : g.isAlive x with
      | false => simp [follow?, Option.filter_some, halive]
      | true => simp [follow?, Option.filter_some, halive]

end Graph

/-- A module refers to a method that a living type declares, and imports it if that type comes
from elsewhere. -/
theorem TargetModule.refer_of_declared {m : TargetModule} {g : Graph} {entry : MethodEntry}
    {t : TypeId} {d : TypeDecl} (declared : entry.method.declaringType? = some t)
    (alive : g.type? t = some d) :
    ∃ made, m.refer g entry = .ok made ∧ made.1.isImported = decide (d.origin ≠ m.origin) := by
  have hdeclaring : g.declaringType? entry.method = some t :=
    Graph.follow?_eq_some_iff.mpr ⟨declared, Graph.isAlive_iff.mpr ⟨d, alive⟩⟩
  simp only [refer, hdeclaring, alive]
  split
  · rename_i horigin
    exact ⟨_, rfl, by simp [MethodReference.isImported, MethodReference.member?, horigin]⟩
  · rename_i horigin
    exact ⟨_, rfl, by simp [MethodReference.isImported, MethodReference.member?, horigin]⟩

namespace Factory

variable {f : Factory} {g g' : Graph} {m m' : TargetModule} {request : Request}

/-- The attribute type of a record is a definition and declares whatever it lists that could be
the constructor. -/
def SelfContained (f : Factory) (g : Graph) (request : Request) : Prop :=
  ∀ t, f.attributeType request = .ok t →
    (∀ d, g.type? t = some d → d.isReference = false) ∧
    ∀ entry ∈ g.methodsOf t, request.shape.admits entry.method = true →
      entry.method.declaringType? = some t

/-- The types of a factory, all of which are alive, and the methods are the same in both
graphs. -/
structure SameIn (f : Factory) (g g' : Graph) : Prop where
  alive : ∀ t ∈ f.ownedTypes, g.isAlive t
  types : ∀ t ∈ f.ownedTypes, g'.type? t = g.type? t
  methods : g'.methods = g.methods

/-- What is looked up for a record whose attribute type is a definition. -/
theorem SelfContained.constructorFor_eq (contained : f.SelfContained g request)
    (alive : ∀ t ∈ f.ownedTypes, g.isAlive t) : f.constructorFor g request =
      f.attributeType request >>= fun t => g.constructor t request.shape := by
  rw [Factory.constructorFor_eq]
  cases hattribute : f.attributeType request with
  | error cause => rfl
  | ok t =>
      obtain ⟨d, hd⟩ := Graph.isAlive_iff.mp (alive t (mem_ownedTypes_of_attributeType hattribute))
      have hresolve := Graph.resolve_of_not_reference hd ((contained t hattribute).1 d hd)
      show constructorOn g t request.shape = g.constructor t request.shape
      rw [constructorOn, hresolve]
      rfl

theorem SelfContained.mono (contained : f.SelfContained g request) (same : f.SameIn g g') :
    f.SelfContained g' request := by
  intro t ht
  have htypes := same.types t (mem_ownedTypes_of_attributeType ht)
  rw [htypes, Graph.methodsOf_congr htypes same.methods]
  exact contained t ht

theorem SameIn.isAlive (same : f.SameIn g g') : ∀ t ∈ f.ownedTypes, g'.isAlive t := by
  intro t ht
  rw [Graph.isAlive, same.types t ht]
  exact same.alive t ht

/-- The same constructor is found in both graphs, or as many. -/
theorem SameIn.constructorFor (same : f.SameIn g g') (contained : f.SelfContained g request) :
    (f.constructorFor g' request).mapError Error.unnamed =
      (f.constructorFor g request).mapError Error.unnamed := by
  rw [contained.constructorFor_eq same.alive, (contained.mono same).constructorFor_eq same.isAlive]
  cases hattribute : f.attributeType request with
  | error cause => rfl
  | ok t =>
      have ht := mem_ownedTypes_of_attributeType hattribute
      exact Graph.constructor_unnamed (same.types t ht) same.methods request.shape

/-- The constructor that is found is declared by the attribute type. -/
theorem SelfContained.declared (contained : f.SelfContained g request)
    (alive : ∀ t ∈ f.ownedTypes, g.isAlive t) {entry : MethodEntry}
    (found : f.constructorFor g request = .ok entry) :
    ∃ t d, t ∈ f.ownedTypes ∧ entry.method.declaringType? = some t ∧ g.type? t = some d := by
  rw [contained.constructorFor_eq alive, bind_eq_ok_iff] at found
  obtain ⟨t, ht, hconstructor⟩ := found
  obtain ⟨hmem, hadmits⟩ := Graph.mem_methodsOf_of_constructor hconstructor
  have howned := mem_ownedTypes_of_attributeType ht
  obtain ⟨d, hd⟩ := Graph.isAlive_iff.mp (alive t howned)
  exact ⟨t, d, howned, (contained t ht).2 entry hmem hadmits, hd⟩

end Factory

/-- What of a record depends neither on the rows of a module nor on the names of types. -/
def AttributeRecord.content (record : AttributeRecord) : List TypedArg × List NamedArg × Bool :=
  (record.fixedArgs, record.namedArgs, record.constructor.isImported)

namespace Factory

variable {f : Factory} {g g' : Graph} {m m' : TargetModule} {request : Request}

/-- What a record comes to, or the error without names. -/
def gist (result : Except Error (AttributeRecord × TargetModule)) :
    Except Error (List TypedArg × List NamedArg × Bool) :=
  (result.map fun made => made.1.content).mapError Error.unnamed

/-- A record comes to the same for all modules of one name and in all graphs that have the
types of the factory. -/
theorem SameIn.gist_build (same : f.SameIn g g') (contained : f.SelfContained g request)
    (h : m'.name = m.name) : gist (f.build g' m' request) = gist (f.build g m request) := by
  have hfound := same.constructorFor contained
  cases hentry : f.constructorFor g request with
  | error cause =>
      obtain ⟨cause', hentry', hcause⟩ := error_of_unnamed_eq hfound hentry
      simp only [build, hentry, hentry']
      exact congrArg Except.error hcause
  | ok entry =>
      have hentry' := (ok_iff_of_unnamed_eq hfound entry).mpr hentry
      cases hargs : f.fixedArgs request with
      | error cause =>
          simp only [build, hentry, hentry', hargs]
          rfl
      | ok args =>
          -- the attribute type declares the constructor, so both modules can refer to it
          obtain ⟨t, d, ht, hdeclared, hd⟩ := contained.declared same.alive hentry
          obtain ⟨made, hrefer, himported⟩ := m.refer_of_declared hdeclared hd
          obtain ⟨made', hrefer', himported'⟩ :=
            m'.refer_of_declared hdeclared ((same.types t ht).trans hd)
          rw [TargetModule.origin_eq_of_name h, ← himported] at himported'
          have hbuild := build_eq_ok_iff.mpr ⟨entry, args, made.1, hentry, hargs, hrefer, rfl⟩
          have hbuild' := build_eq_ok_iff.mpr ⟨entry, args, made'.1, hentry', hargs, hrefer', rfl⟩
          rw [hbuild, hbuild']
          exact congrArg (fun isImported => Except.ok (args, f.namedArgs request, isImported))
            himported'

/-! ### References -/

theorem ne_unresolvable_of_constructor {t : TypeId} {shape : ConstructorShape} {cause : Error}
    (h : g.constructor t shape = .error cause) (typeName : String) :
    cause ≠ .unresolvable typeName := by
  rw [Graph.constructor, Graph.findConstructor,
    ConstructorShape.toExcept_find_eq_error_iff] at h
  rw [h.2]
  exact Error.noConfusion

theorem ne_unresolvable_of_fixedArgs {cause : Error} (h : f.fixedArgs request = .error cause)
    (typeName : String) : cause ≠ .unresolvable typeName := by
  cases request with
  | attributeUsage =>
      rw [fixedArgs, WellKnownTable.get] at h
      cases hbound : f.table.binding? .attributeTargets with
      | some targets =>
          rw [hbound] at h
          cases h
      | none =>
          rw [hbound] at h
          cases h
          exact Error.noConfusion
  | _ => cases h

/-- A record whose attribute type is a reference fails for want of a definition exactly if none
was linked or the linked one is gone. -/
theorem build_unresolvable_iff {t : TypeId} {d : TypeDecl} (ht : f.attributeType request = .ok t)
    (hd : g.type? t = some d) (reference : d.isReference = true) (m : TargetModule)
    (typeName : String) : f.build g m request = .error (.unresolvable typeName) ↔
      typeName = g.fullName t ∧ g.LacksDefinition d := by
  have hfound : f.constructorFor g request =
      g.resolve t >>= fun x => g.constructor x request.shape := by
    rw [constructorFor_eq, ht]
    rfl
  rcases Graph.resolve_cases hd reference with ⟨hlacks, hresolve⟩ | ⟨hlinked, x, hresolve⟩
  · have hbuild : f.build g m request = .error (.unresolvable (g.fullName t)) := by
      rw [build, hfound, hresolve]
      rfl
    rw [hbuild, Except.error.injEq, Error.unresolvable.injEq]
    exact ⟨fun h => ⟨h.symm, hlacks⟩, fun h => h.1.symm⟩
  · refine iff_of_false (fun hbuild => ?_) fun h => hlinked h.2
    rw [hresolve] at hfound
    -- every step after this one fails for another reason
    rcases bind_eq_error_iff.mp hbuild with hconstructor | ⟨entry, -, hbuild⟩
    · exact ne_unresolvable_of_constructor (hfound.symm.trans hconstructor) typeName rfl
    rcases bind_eq_error_iff.mp hbuild with hargs | ⟨args, -, hbuild⟩
    · exact ne_unresolvable_of_fixedArgs hargs typeName rfl
    rcases bind_eq_error_iff.mp hbuild with hrefer | ⟨made, -, hmade⟩
    · cases (TargetModule.refer_eq_error_iff.mp hrefer).2
    · cases hmade

end Factory

end AssemblyGraph
