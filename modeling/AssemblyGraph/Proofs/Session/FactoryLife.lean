import AssemblyGraph.Proofs.Factory.Attribute
import AssemblyGraph.Proofs.Session.Calls
import AssemblyGraph.Proofs.Session.Links

/-!
What a factory keeps alive.

A factory owns its types, the types own the methods that they list, and the table has the
module. So for records whose attribute types are definitions with constructors of their own, no
other handle is needed: the factory goes on as if none of them had been dropped. A reference
does not own its definition, so for records whose attribute type is a reference the factory
depends on others to keep the definition alive.
-/

namespace AssemblyGraph

/-- A factory is called, or a handle is dropped that is not the factory of a name. -/
def Command.spares (factory : String) : Command → Prop
  | .drop .factory name => name ≠ factory
  | .drop .. => True
  | .build .. => True
  | _ => False

def Command.isCall : Command → Bool
  | .build .. => true
  | _ => false

theorem Command.spares_of_isCall {command : Command} (h : command.isCall = true)
    (factory : String) : command.spares factory := by
  cases command with
  | build => trivial
  | _ => cases h

/-- A fault without the name of the type that was asked for a definition or a constructor. -/
def Fault.unnamed : Fault → Fault
  | unbound name => .unbound name
  | failed cause => .failed cause.unnamed

/-- What a call comes to, up to the rows of modules and the names of types. -/
def FactoryCall.gist (s : Session) (c : FactoryCall) :
    Except Fault (List TypedArg × List NamedArg × Bool) :=
  ((c.outcome s).map AttributeRecord.content).mapError Fault.unnamed

namespace Session

open TargetModule

variable {s s' s'' : Session} {name : String} {f : Factory} {command : Command}

/-! ### What drops and calls leave of a factory -/

/-- A factory is bound to a name, and what its records are made of is as it was. -/
structure KeepsFactory (name : String) (f : Factory) (s s' : Session) : Prop where
  bound : s'.factories[name]? = some f
  types : ∀ t ∈ f.ownedTypes, s'.graph.type? t = s.graph.type? t
  methods : s'.graph.methods = s.graph.methods
  targets : ∀ id, (s'.target? id).map settings = (s.target? id).map settings

theorem KeepsFactory.refl (bound : s.factories[name]? = some f) : KeepsFactory name f s s :=
  ⟨bound, fun _ _ => rfl, rfl, fun _ => rfl⟩

theorem KeepsFactory.trans (h : KeepsFactory name f s s') (h' : KeepsFactory name f s' s'') :
    KeepsFactory name f s s'' where
  bound := h'.bound
  types t ht := (h'.types t ht).trans (h.types t ht)
  methods := h'.methods.trans h.methods
  targets id := (h'.targets id).trans (h.targets id)

/-- What a bound factory owns is not released. -/
theorem keepsFactory_settle (bound : s.factories[name]? = some f) :
    KeepsFactory name f s s.settle := by
  have hbound : s.settle.factories[name]? = some f := by
    rw [settle_eq]
    exact bound
  obtain ⟨hmethods, htypes⟩ := releases_settle s
  refine ⟨hbound, fun t ht => ?_, hmethods, fun id => ?_⟩
  · refine (htypes t).resolve_right fun hgone => hgone.2 ?_
    exact mem_ownedTypes_iff.mpr (.factory hbound ht)
  · rw [settle_eq]
    rfl

theorem keepsFactory_drop (bound : s.factories[name]? = some f) {kind : HandleKind}
    {other : String} (spares : (Command.drop kind other).spares name) :
    KeepsFactory name f s (s.drop kind other).1 := by
  cases kind with
  | factory =>
      have hne : other ≠ name := spares
      refine ⟨?_, fun _ _ => rfl, rfl, fun _ => rfl⟩
      show (s.factories.erase other)[name]? = some f
      rw [OrderedMap.getElem?_erase, if_neg hne]
      exact bound
  | _ => exact ⟨bound, fun _ _ => rfl, rfl, fun _ => rfl⟩

theorem keepsFactory_build (bound : s.factories[name]? = some f) (factory : String)
    (request : Request) (bindTo? : Option String) :
    KeepsFactory name f s (s.build factory request bindTo?).1 := by
  rcases s.build_cases factory request bindTo? with
    ⟨fault, hbuild⟩ | ⟨_, now, _, _, record, _, hbuilds, hbuild⟩
  · rw [hbuild]
    exact .refl bound
  · rw [hbuild]
    have htargets := settings_setTarget hbuilds.module
    cases bindTo? with
    | none => exact ⟨bound, fun _ _ => rfl, rfl, htargets⟩
    | some bindTo => exact ⟨bound, fun _ _ => rfl, rfl, htargets⟩

theorem keepsFactory_step (bound : s.factories[name]? = some f) (spares : command.spares name) :
    KeepsFactory name f s (s.step command).1 := by
  have hperform : KeepsFactory name f s (s.perform command).1 := by
    cases command with
    | drop => exact keepsFactory_drop bound spares
    | build => exact keepsFactory_build bound _ _ _
    | _ => exact spares.elim
  exact hperform.trans (keepsFactory_settle hperform.bound)

theorem keepsFactory_run (bound : s.factories[name]? = some f) {commands : List Command}
    (spares : ∀ command ∈ commands, command.spares name) :
    KeepsFactory name f s (s.run commands) := by
  induction commands generalizing s with
  | nil => exact .refl bound
  | cons command commands ih =>
      obtain ⟨hspares, hlater⟩ := List.forall_mem_cons.mp spares
      have hstep := keepsFactory_step bound hspares
      exact hstep.trans (ih hstep.bound hlater)

/-! ### What calls come to -/

theorem OwnersAlive.factory (alive : s.OwnersAlive) (bound : s.factories[name]? = some f) :
    ∀ t ∈ f.ownedTypes, s.graph.isAlive t :=
  fun t ht => alive t (mem_ownedTypes_iff.mpr (.factory bound ht))

theorem KeepsFactory.sameIn (h : KeepsFactory name f s s') (alive : s.OwnersAlive)
    (bound : s.factories[name]? = some f) : f.SameIn s.graph s'.graph :=
  ⟨alive.factory bound, h.types, h.methods⟩

/-- A call of a factory that is kept comes to what it came to before. -/
theorem KeepsFactory.gist_eq (h : KeepsFactory name f s s') (alive : s.OwnersAlive)
    (bound : s.factories[name]? = some f) {request : Request}
    (contained : f.SelfContained s.graph request) (bindTo? : Option String) :
    FactoryCall.gist s' ⟨name, request, bindTo?⟩ = FactoryCall.gist s ⟨name, request, bindTo?⟩ := by
  have hgist : ∀ result : Except Error (AttributeRecord × TargetModule),
      (((result.map (·.1)).mapError Fault.failed).map AttributeRecord.content).mapError
        Fault.unnamed = (Factory.gist result).mapError .failed := by
    intro result
    cases result <;> rfl
  simp only [FactoryCall.gist, FactoryCall.outcome, h.bound, bound]
  rcases target?_cases_of_settings (h.targets f.table.module) with
    ⟨hm, hm'⟩ | ⟨m, m', hm, hm', hname, -⟩
  · simp only [hm, hm']
  · simp only [hm, hm', hgist]
    rw [(h.sameIn alive bound).gist_build contained hname]

/-! ### Created constructors -/

/-- A command of a run has created a method on a type. -/
def CreatedOn (commands : List Command) (m : MethodId) (t : TypeId) : Prop :=
  ∃ before command after reply, commands = before ++ command :: after ∧
    m = ⟨(empty.run before).graph.methods.size⟩ ∧
    (empty.run before).Writes command (.declaringType m) t ∧
    ((empty.run before).step command).2 = .ok reply

/-- What is created on a type is declared by it for good. -/
theorem declaringType?_of_createdOn {commands : List Command} {m : MethodId} {t : TypeId}
    (created : CreatedOn commands m t) {method : Method}
    (hm : (empty.run commands).graph.method? m = some method) :
    method.declaringType? = some t := by
  obtain ⟨before, command, after, reply, rfl, rfl, hwrites, hok⟩ := created
  have hfree : (empty.run before).graph.written?
      (.declaringType ⟨(empty.run before).graph.methods.size⟩) = none := by
    simp [Graph.written?, Graph.method?]
  have hthere : (empty.run (before ++ command :: after)).graph.hasSlot
      (.declaringType ⟨(empty.run before).graph.methods.size⟩) = true := by
    rw [Graph.hasSlot, hm]
    rfl
  have hkept := written?_run (written?_of_writes rfl hwrites hfree hok) hthere
  rwa [Graph.written?, hm] at hkept

/-- The attribute type of a record is a definition, and what it lists that could be the
constructor has been created on it. -/
def CreatedFor (commands : List Command) (f : Factory) (request : Request) : Prop :=
  ∀ t, f.attributeType request = .ok t →
    (∀ d, (empty.run commands).graph.type? t = some d → d.isReference = false) ∧
    ∀ entry ∈ (empty.run commands).graph.methodsOf t,
      request.shape.admits entry.method = true → CreatedOn commands entry.id t

theorem CreatedFor.selfContained {commands : List Command} {request : Request}
    (created : CreatedFor commands f request) :
    f.SelfContained (empty.run commands).graph request := by
  intro t ht
  obtain ⟨hdefined, hconstructors⟩ := created t ht
  refine ⟨hdefined, fun entry hmem hadmits => ?_⟩
  obtain ⟨method, hmethod, hentry⟩ :=
    Option.map_eq_some_iff.mp (Graph.methodWithId?_of_mem_methodsOf hmem)
  rw [← congrArg MethodEntry.method hentry]
  exact declaringType?_of_createdOn (hconstructors entry hmem hadmits) hmethod

/-! ### What a factory needs -/

/-- A factory keeps alive what it needs. Let any handles but the factory be dropped, with calls of
factories in between. Then the factory is still bound and its types are as they were. For a
record whose attribute type is a definition, with constructors that were created on it or are
otherwise declared by it, the same constructor is selected as without the drops, and a call
succeeds as it would have, or it fails as it would have but for the names of types. If the
attribute type is a reference, the record fails for want of a definition exactly if the
reference was never linked to one or the definition is gone. -/
theorem factory_outlives_handles (commands later : List Command) {name : String} {f : Factory}
    (bound : (empty.run commands).factories[name]? = some f)
    (spares : ∀ command ∈ later, command.spares name) :
    let s := empty.run commands
    let dropped := s.run later
    let undropped := s.run (later.filter Command.isCall)
    dropped.factories[name]? = some f ∧
    (∀ t ∈ f.ownedTypes, dropped.graph.isAlive t ∧
      dropped.graph.type? t = s.graph.type? t) ∧
    (∀ request, CreatedFor commands f request → f.SelfContained s.graph request) ∧
    (∀ request, f.SelfContained s.graph request →
      (∀ entry, f.constructorFor dropped.graph request = .ok entry ↔
        f.constructorFor undropped.graph request = .ok entry) ∧
      ∀ bindTo?, FactoryCall.gist dropped ⟨name, request, bindTo?⟩ =
        FactoryCall.gist undropped ⟨name, request, bindTo?⟩) ∧
    ∀ request t d, f.attributeType request = .ok t → dropped.graph.type? t = some d →
      d.isReference = true → ∀ m typeName,
        f.build dropped.graph m request = .error (.unresolvable typeName) ↔
          typeName = dropped.graph.fullName t ∧ dropped.graph.LacksDefinition d := by
  intro s dropped undropped
  have halive : s.OwnersAlive := (sound_of_run commands).1
  have hcalls : ∀ command ∈ later.filter Command.isCall, command.spares name :=
    fun command hcommand => Command.spares_of_isCall (List.mem_filter.mp hcommand).2 name
  have hdropped : KeepsFactory name f s dropped := keepsFactory_run bound spares
  have hundropped : KeepsFactory name f s undropped := keepsFactory_run bound hcalls
  have hsame := hdropped.sameIn halive bound
  have hsame' := hundropped.sameIn halive bound
  refine ⟨hdropped.bound, fun t ht => ⟨hsame.isAlive t ht, hsame.types t ht⟩,
    fun _ created => created.selfContained, fun request contained => ⟨fun entry => ?_,
      fun bindTo? => ?_⟩, fun request t d ht hd reference m typeName => ?_⟩
  · rw [ok_iff_of_unnamed_eq (hsame.constructorFor contained),
      ok_iff_of_unnamed_eq (hsame'.constructorFor contained)]
  · rw [hdropped.gist_eq halive bound contained, hundropped.gist_eq halive bound contained]
  · exact Factory.build_unresolvable_iff ht hd reference m typeName

/-- A factory whose attribute types are a reference to the type `d` and two definitions. -/
def referringFactory : List Command :=
  attributeTypes .standard ++ [
    .createRef "r" "N" "E" (.assembly "lib") (some "e"),
    .newType ⟨⟨0x02000009⟩, "N", "D", 0, .module "lib"⟩ (some "d"), .setDefinition "e" "d",
    .newTable "m" "byte" "boolean" "t", .newFactory "e" "b" "a" "a" "t" .standard "f"]

/-- Every handle but the factory is dropped, with a call in between. -/
def handleDrops : List Command := [
  .drop .registry "r", .drop .type "byte", .drop .type "boolean", .drop .type "a",
  .build "f" (.nullableFlags [1, 2]) (some "record"), .drop .type "b", .drop .type "d",
  .drop .type "e", .drop .module "m", .drop .record "record"]

/-- The constructor that takes an array has been created on the type `b`. -/
theorem createdFor_of_referringFactory (hf : f.nullable = ⟨7⟩) (values : List UInt8) :
    CreatedFor referringFactory f (.nullableFlags values) := by
  let before := referringFactory.take 8
  let command := Command.createConstructor "r" "b" [.vector .byte []] none
  have hcreated : CreatedOn referringFactory ⟨3⟩ ⟨7⟩ := by
    have hr : (empty.run before).registries["r"]?.isSome := by decide +kernel
    have hb : (empty.run before).types["b"]? = some ⟨7⟩ := by decide +kernel
    have hnumber : (empty.run before).graph.methods.size = 3 := by decide +kernel
    have hok : ((empty.run before).step command).2.toBool = true := by decide +kernel
    obtain ⟨r, hr⟩ := Option.isSome_iff_exists.mp hr
    obtain ⟨reply, hreply⟩ := toBool_eq_true_iff.mp hok
    refine ⟨before, command, _, reply, rfl, congrArg MethodId.mk hnumber.symm, ?_, hreply⟩
    rw [← hnumber]
    exact .createConstructor hr hb
  have hdefined : ((empty.run referringFactory).graph.type? ⟨7⟩).map TypeDecl.isReference =
      some false := by
    decide +kernel
  have honly : ∀ entry ∈ (empty.run referringFactory).graph.methodsOf ⟨7⟩,
      ConstructorShape.oneArrayArg.admits entry.method = true → entry.id = ⟨3⟩ := by
    decide +kernel
  intro t ht
  obtain rfl : t = ⟨7⟩ := (Except.ok.inj ht).symm.trans hf
  refine ⟨fun d hd => ?_, fun entry hmem hadmits => ?_⟩
  · rw [hd, Option.map_some] at hdefined
    exact Option.some_inj.mp hdefined
  · rw [honly entry hmem hadmits]
    exact hcreated

/-- With the factory alone left, a record whose attribute type is a definition is still built,
and one whose attribute type is the reference is not. -/
theorem factory_of_handleDrops :
    let s := empty.run referringFactory
    let dropped := s.run handleDrops
    ∃ f, dropped.factories["f"]? = some f ∧
      f.SelfContained s.graph (.nullableFlags [1, 2]) ∧
      (f.constructorFor dropped.graph (.nullableFlags [1, 2])).toBool = true ∧
      FactoryCall.gist dropped ⟨"f", .nullableFlags [1, 2], none⟩ =
        FactoryCall.gist (s.run (handleDrops.filter Command.isCall))
          ⟨"f", .nullableFlags [1, 2], none⟩ ∧
      ∀ m, f.build dropped.graph m .embedded =
        .error (.unresolvable (dropped.graph.fullName f.embedded)) := by
  intro s dropped
  have hrun : (s.factories["f"]?.map fun f => (f.nullable, f.embedded,
      (f.constructorFor dropped.graph (.nullableFlags [1, 2])).toBool)) =
        some (⟨7⟩, ⟨8⟩, true) := by
    decide +kernel
  have hgone : ((dropped.graph.type? ⟨8⟩).map fun d => (d.isReference, d.definition?)) =
      some (true, some ⟨9⟩) := by
    decide +kernel
  have hdead : dropped.graph.isAlive ⟨9⟩ = false := by decide +kernel
  obtain ⟨f, hf, hp⟩ := Option.map_eq_some_iff.mp hrun
  obtain ⟨hnullable, hp⟩ := Prod.mk.inj hp
  obtain ⟨hembedded, hselected⟩ := Prod.mk.inj hp
  obtain ⟨d, hd, hlink⟩ := Option.map_eq_some_iff.mp hgone
  obtain ⟨hreference, hdefinition⟩ := Prod.mk.inj hlink
  obtain ⟨hbound, -, hcontained, hcalls, hreferences⟩ := factory_outlives_handles
    referringFactory handleDrops hf (by simp [handleDrops, Command.spares])
  have hcontained := hcontained _ (createdFor_of_referringFactory hnullable [1, 2])
  refine ⟨f, hbound, hcontained, hselected, (hcalls _ hcontained).2 none, fun m => ?_⟩
  refine (hreferences .embedded f.embedded d rfl ?_ hreference m _).mpr ⟨rfl, ?_⟩
  · rw [hembedded]
    exact hd
  · exact .inr ⟨⟨9⟩, hdefinition, hdead⟩

end Session

end AssemblyGraph
