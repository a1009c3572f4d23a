import AssemblyGraph.Registry
import AssemblyGraph.Proofs.Graph.Grounded

/-!
Attempts to create types and methods in a registry.

An attempt to create a type ends in one of two ways: the token that was given
out is taken, and the graph is as it was, or the new type is entered. Either
way the types that there were live on.
-/

namespace AssemblyGraph

/-- What is left to do for a nested type once it has been registered. -/
def Creation.nestedIn (c : Creation) (enclosing : TypeId) : Creation :=
  match c.result with
  | .ok t => { c with graph := c.graph.pushNested enclosing t }
  | .error _ => c

namespace Registry

/-! ### What an attempt to create a type comes to -/

/-- An attempt to register a new type either finds its token taken and changes
nothing, or enters the new type. -/
theorem register_cases (r : Registry) (g : Graph) (d : TypeDecl) :
    (r.types.contains d.token ∧ r.register g d = ⟨r, g, .error (.tokenTaken d.token)⟩) ∨
      (¬ r.types.contains d.token ∧
        r.register g d = ⟨r.enter d.token ((g.addType d).1.fullName (g.addType d).2)
          (g.addType d).2, (g.addType d).1, .ok (g.addType d).2⟩) := by
  rw [register]
  by_cases h : r.types.contains d.token = true
  · exact .inl ⟨h, if_pos h⟩
  · exact .inr ⟨h, if_neg h⟩

/-- A registry that has given out a row for a definition. -/
def skipTypeDef (r : Registry) : Registry :=
  { r with nextTypeDef := r.nextTypeDef + 1 }

/-- The declaration that a nested type is created with. -/
def nestedDecl (r : Registry) (enclosing : TypeId) (name : String) (flags : UInt32) : TypeDecl where
  token := .inTable .typeDef r.nextTypeDef
  namespaceName := ""
  name := name
  flags := flags
  origin := r.origin
  enclosing? := some enclosing

/-- A nested type is registered like any other, and is listed in its enclosing
type only once that has succeeded. -/
theorem createNested_cases (r : Registry) (g : Graph) (enclosing : TypeId) (name : String)
    (flags : UInt32) :
    let d := r.nestedDecl enclosing name flags
    let t := (g.addType d).2
    (r.types.contains d.token ∧ r.createNested g enclosing name flags =
        ⟨r.skipTypeDef, g, .error (.tokenTaken d.token)⟩) ∨
      (¬ r.types.contains d.token ∧ r.createNested g enclosing name flags =
        ⟨r.skipTypeDef.enter d.token ((g.addType d).1.fullName t) t,
          (g.addType d).1.pushNested enclosing t, .ok t⟩) := by
  intro d t
  have hcreate : r.createNested g enclosing name flags =
      (r.skipTypeDef.register g d).nestedIn enclosing := rfl
  rw [hcreate]
  rcases r.skipTypeDef.register_cases g d with ⟨htaken, h⟩ | ⟨hfree, h⟩
  · rw [h]
    exact .inl ⟨htaken, rfl⟩
  · rw [h]
    exact .inr ⟨hfree, rfl⟩

/-! ### What the operations keep of the graph -/

theorem keepsTypes_register (r : Registry) (g : Graph) (d : TypeDecl) :
    g.KeepsTypes (r.register g d).graph := by
  rcases r.register_cases g d with ⟨-, h⟩ | ⟨-, h⟩
  · rw [h]
    exact .refl g
  · rw [h]
    exact g.keepsTypes_addType d

@[simp] theorem methods_register (r : Registry) (g : Graph) (d : TypeDecl) :
    (r.register g d).graph.methods = g.methods := by
  rcases r.register_cases g d with ⟨-, h⟩ | ⟨-, h⟩
  · rw [h]
  · rw [h]
    rfl

theorem keepsTypes_createNested (r : Registry) (g : Graph) (enclosing : TypeId) (name : String)
    (flags : UInt32) : g.KeepsTypes (r.createNested g enclosing name flags).graph := by
  rcases r.createNested_cases g enclosing name flags with ⟨-, h⟩ | ⟨-, h⟩
  · rw [h]
    exact .refl g
  · rw [h]
    exact (g.keepsTypes_addType _).trans (Graph.keepsTypes_pushNested _ _ _)

@[simp] theorem methods_createNested (r : Registry) (g : Graph) (enclosing : TypeId)
    (name : String) (flags : UInt32) :
    (r.createNested g enclosing name flags).graph.methods = g.methods := by
  rcases r.createNested_cases g enclosing name flags with ⟨-, h⟩ | ⟨-, h⟩
  · rw [h]
  · rw [h]
    rfl

theorem keepsTypes_createMethod (r : Registry) (g : Graph) (owner : TypeId) (name : String)
    (attributes : UInt32) (signature : MethodSignature) :
    g.KeepsTypes (r.createMethod g owner name attributes signature).2.1 := by
  refine Graph.KeepsTypes.trans (fun t d hd => ⟨d, hd, .refl d⟩)
    (Graph.keepsTypes_pushMethod _ owner _)

theorem keepsMethods_createMethod (r : Registry) (g : Graph) (owner : TypeId) (name : String)
    (attributes : UInt32) (signature : MethodSignature) :
    g.KeepsMethods (r.createMethod g owner name attributes signature).2.1 :=
  (g.keepsMethods_addMethod _).trans (.of_eq rfl)

/-! ### New registries -/

/-- What holds of an empty registry and is kept by registering primitive types holds of a new
registry. -/
theorem create_induction {P : Registry → Graph → Prop} (g : Graph) (origin : Origin)
    (start : P (empty origin) g) (next : ∀ (r : Registry) (g' : Graph) (kind : Primitive), P r g' →
      P (r.register g' (primitiveDecl kind)).registry (r.register g' (primitiveDecl kind)).graph) :
    P (create g origin).1 (create g origin).2 := by
  suffices ∀ (kinds : List Primitive) (r : Registry) (g' : Graph), P r g' →
      let made := kinds.foldl (fun (p : Registry × Graph) kind =>
        ((p.1.register p.2 (primitiveDecl kind)).registry,
          (p.1.register p.2 (primitiveDecl kind)).graph)) (r, g')
      P made.1 made.2 from
    this Primitive.all (empty origin) g start
  intro kinds
  induction kinds with
  | nil => exact fun r g' h => h
  | cons kind kinds ih => exact fun r g' h => ih _ _ (next r g' kind h)

end Registry

/-! ### What the operations do to a graph -/

/-- A type as the registries make it: it has no definition and no records, and only a type
without a namespace is made inside another one. -/
structure TypeDecl.Fresh (d : TypeDecl) : Prop where
  unlinked : d.definition? = none
  bare : d.attributes = []
  outermost : d.enclosing? = none ∨ d.namespaceName = ""

/-- A type that has no definition and no records, and that lists no nested types. -/
structure TypeDecl.Blank (d : TypeDecl) : Prop where
  unlinked : d.definition? = none
  bare : d.attributes = []
  flat : d.nested = []

/-- A relation that everything that commands do to a graph is in, but for nesting a type, linking
it to a definition, giving it a generic parameter and attaching a record to it, which have a
command each, and for chains of types that are in no registry. -/
structure Graph.Frame (R : Graph → Graph → Prop) : Prop where
  of_types : ∀ {g g' : Graph}, g'.types = g.types → R g g'
  trans : ∀ {g g' g'' : Graph}, R g g' → R g' g'' → R g g''
  addType : ∀ (g : Graph) {d : TypeDecl}, d.Fresh → R g (g.addType d).1
  pushMethod : ∀ (g : Graph) (t : TypeId) (m : MethodId), R g (g.pushMethod t m)
  pushNested : ∀ (g : Graph) (enclosing t : TypeId), R g (g.pushNested enclosing t)
  retain : ∀ (g : Graph) (owned : List TypeId), R g (g.retain owned)

/-- A relation that all this is in, but for creating a type in another one: what is added is
nested in nothing, and nothing is nested in it. -/
structure Graph.FlatFrame (R : Graph → Graph → Prop) : Prop where
  of_types : ∀ {g g' : Graph}, g'.types = g.types → R g g'
  trans : ∀ {g g' g'' : Graph}, R g g' → R g' g'' → R g g''
  addType : ∀ (g : Graph) {d : TypeDecl}, d.Blank → d.enclosing? = none → R g (g.addType d).1
  pushMethod : ∀ (g : Graph) (t : TypeId) (m : MethodId), R g (g.pushMethod t m)
  retain : ∀ (g : Graph) (owned : List TypeId), R g (g.retain owned)

theorem Graph.Frame.flat {R : Graph → Graph → Prop} (frame : Frame R) : FlatFrame R where
  of_types := frame.of_types
  trans := frame.trans
  addType g _ blank top := frame.addType g ⟨blank.unlinked, blank.bare, .inl top⟩
  pushMethod := frame.pushMethod
  retain := frame.retain

theorem Graph.keepsFacets_frame : Frame KeepsFacets where
  of_types := .of_eq
  trans := .trans
  addType g d _ := g.keepsFacets_addType d
  pushMethod := keepsFacets_pushMethod
  pushNested := keepsFacets_pushNested
  retain := keepsFacets_retain

namespace Graph.FlatFrame

variable {R : Graph → Graph → Prop}

theorem register (frame : FlatFrame R) (r : Registry) (g : Graph) {d : TypeDecl} (blank : d.Blank)
    (top : d.enclosing? = none) : R g (r.register g d).graph := by
  rcases r.register_cases g d with ⟨-, h⟩ | ⟨-, h⟩
  · rw [h]
    exact frame.of_types rfl
  · rw [h]
    exact frame.addType g blank top

theorem createMethod (frame : FlatFrame R) (r : Registry) (g : Graph) (owner : TypeId)
    (name : String) (attributes : UInt32) (signature : MethodSignature) :
    R g (r.createMethod g owner name attributes signature).2.1 := by
  let entry := (r.createMethod g owner name attributes signature).2.2
  have hadd : R g (g.addMethod entry.method).1 := frame.of_types rfl
  exact frame.trans hadd (frame.pushMethod _ owner entry.id)

theorem create (frame : FlatFrame R) (g : Graph) (origin : Origin) :
    R g (Registry.create g origin).2 :=
  Registry.create_induction g origin (P := fun _ g' => R g g') (frame.of_types rfl)
    fun r g' kind h =>
      frame.trans h (frame.register r g' (d := Registry.primitiveDecl kind) ⟨rfl, rfl, rfl⟩ rfl)

end Graph.FlatFrame

theorem Graph.Frame.createNested {R : Graph → Graph → Prop} (frame : Frame R) (r : Registry)
    (g : Graph) (enclosing : TypeId) (name : String) (flags : UInt32) :
    R g (r.createNested g enclosing name flags).graph := by
  rcases r.createNested_cases g enclosing name flags with ⟨-, h⟩ | ⟨-, h⟩
  · rw [h]
    exact frame.of_types rfl
  · rw [h]
    exact frame.trans (frame.addType g ⟨rfl, rfl, .inr rfl⟩) (frame.pushNested _ _ _)

namespace Registry

theorem buildsOn_register (r : Registry) (g : Graph) {d : TypeDecl} (bare : d.attributes = [])
    (link : ∀ e, d.enclosing? = some e → e.index < g.types.size) :
    g.BuildsOn (r.register g d).graph := by
  rcases r.register_cases g d with ⟨-, h⟩ | ⟨-, h⟩
  · rw [h]
    exact .refl g
  · rw [h]
    exact g.buildsOn_addType bare link

theorem buildsOn_createNested (r : Registry) (g : Graph) {enclosing : TypeId}
    (known : enclosing.index < g.types.size) (name : String) (flags : UInt32) :
    g.BuildsOn (r.createNested g enclosing name flags).graph := by
  rcases r.createNested_cases g enclosing name flags with ⟨-, h⟩ | ⟨-, h⟩
  · rw [h]
    exact .refl g
  · rw [h]
    refine (g.buildsOn_addType rfl ?_).trans (Graph.buildsOn_pushNested _ _ _)
    rintro e ⟨⟩
    exact known

theorem buildsOn_createMethod (r : Registry) (g : Graph) (owner : TypeId) (name : String)
    (attributes : UInt32) (signature : MethodSignature) :
    g.BuildsOn (r.createMethod g owner name attributes signature).2.1 := by
  refine Graph.BuildsOn.trans (.of_eq ?_) (Graph.buildsOn_pushMethod _ owner _)
  rfl

theorem buildsOn_create (g : Graph) (origin : Origin) : g.BuildsOn (create g origin).2 :=
  create_induction g origin (P := fun _ g' => g.BuildsOn g') (.refl g)
    fun r g' kind h => h.trans (r.buildsOn_register g' (d := primitiveDecl kind) rfl nofun)

/-! ### What is created is alive -/

theorem isAlive_of_register {r : Registry} {g : Graph} {d : TypeDecl} {t : TypeId}
    (h : (r.register g d).result = .ok t) : (r.register g d).graph.isAlive t := by
  rcases r.register_cases g d with ⟨-, hreg⟩ | ⟨-, hreg⟩
  · rw [hreg] at h
    cases h
  · rw [hreg] at h ⊢
    cases h
    exact Graph.isAlive_iff.mpr ⟨d, g.type?_addType_self d⟩

theorem isAlive_of_createNested {r : Registry} {g : Graph} {enclosing t : TypeId} {name : String}
    {flags : UInt32} (h : (r.createNested g enclosing name flags).result = .ok t) :
    (r.createNested g enclosing name flags).graph.isAlive t := by
  rcases r.createNested_cases g enclosing name flags with ⟨-, hnew⟩ | ⟨-, hnew⟩
  · rw [hnew] at h
    cases h
  · rw [hnew] at h ⊢
    cases h
    obtain ⟨d, hd, -⟩ := Graph.keepsTypes_pushNested _ enclosing _ _ _ (g.type?_addType_self _)
    exact Graph.isAlive_iff.mpr ⟨d, hd⟩

end Registry

end AssemblyGraph
