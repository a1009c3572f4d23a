import AssemblyGraph.Proofs.Registry.Creation

/-!
What every registry keeps.

A registry comes to be what it is by taking in types, one at a time, and it owns them. So a
property of its two indices and of the types that it holds is true of every registry if it is
true of one without types, if it does not depend on anything that happens to other types, and
if it stays true when one more type is taken in under a free token.
-/

namespace AssemblyGraph.Registry

/-- The types of a registry live on from one graph to another. -/
def Shelters (r : Registry) (g g' : Graph) : Prop :=
  ∀ (token : Token) (t : TypeId) (d : TypeDecl), r.types[token]? = some t → g.type? t = some d →
    ∃ d', g'.type? t = some d' ∧ d.Grows d'

theorem shelters_of_keepsTypes {g g' : Graph} (r : Registry) (h : g.KeepsTypes g') :
    r.Shelters g g' :=
  fun _ t d _ hd => h t d hd

/-- A property of a registry in a graph that taking in types makes and keeps true. -/
structure Invariant (I : Registry → Graph → Prop) : Prop where
  empty : ∀ origin g, I (Registry.empty origin) g
  mono : ∀ {r : Registry} {g g' : Graph}, I r g → r.Shelters g g' → I r g'
  congr : ∀ {r r' : Registry} {g : Graph}, I r g → r'.types = r.types →
    r'.byFullName = r.byFullName → I r' g
  enter : ∀ {r : Registry} {g : Graph} {t : TypeId} {d : TypeDecl}, I r g →
    g.type? t = some d → ¬ r.types.contains d.token → I (r.enter d.token (g.fullName t) t) g

namespace Invariant

variable {I : Registry → Graph → Prop} {r r' : Registry} {g g' : Graph}

theorem grow (inv : Invariant I) (h : I r g) (hg : g.KeepsTypes g') : I r g' :=
  inv.mono h (r.shelters_of_keepsTypes hg)

theorem register (inv : Invariant I) (h : I r g) (d : TypeDecl) :
    I (r.register g d).registry (r.register g d).graph := by
  rcases r.register_cases g d with ⟨-, hreg⟩ | ⟨hfree, hreg⟩
  · rw [hreg]
    exact h
  · rw [hreg]
    exact inv.enter (inv.grow h (g.keepsTypes_addType d)) (g.type?_addType_self d) hfree

theorem createType (inv : Invariant I) (h : I r g) (namespaceName name : String)
    (flags : UInt32) : I (r.createType g namespaceName name flags).registry
      (r.createType g namespaceName name flags).graph :=
  have hskip : I r.skipTypeDef g := inv.congr h rfl rfl
  inv.register hskip _

theorem createRef (inv : Invariant I) (h : I r g) (namespaceName name : String)
    (origin : Origin) : I (r.createRef g namespaceName name origin).registry
      (r.createRef g namespaceName name origin).graph :=
  have hskip : I { r with nextTypeRef := r.nextTypeRef + 1 } g := inv.congr h rfl rfl
  inv.register hskip _

theorem createNested (inv : Invariant I) (h : I r g) (enclosing : TypeId) (name : String)
    (flags : UInt32) : I (r.createNested g enclosing name flags).registry
      (r.createNested g enclosing name flags).graph := by
  have hskip : I r.skipTypeDef g := inv.congr h rfl rfl
  rcases r.createNested_cases g enclosing name flags with ⟨-, hnew⟩ | ⟨hfree, hnew⟩
  · rw [hnew]
    exact hskip
  · rw [hnew]
    exact inv.grow (inv.enter (inv.grow hskip (g.keepsTypes_addType _)) (g.type?_addType_self _)
      hfree) (Graph.keepsTypes_pushNested _ _ _)

theorem insert (inv : Invariant I) {t : TypeId} (h : I r g) (hinsert : r.insert g t = .ok r') :
    I r' g := by
  rw [Registry.insert] at hinsert
  cases ht : g.type? t with
  | none =>
      rw [ht] at hinsert
      cases hinsert
      exact h
  | some d =>
      simp only [ht] at hinsert
      split at hinsert
      · cases hinsert
      · rename_i hfree
        cases hinsert
        exact inv.enter h ht hfree

theorem addGenericParam (inv : Invariant I) (h : I r g) (t : TypeId) (name : String) :
    I (r.addGenericParam g t name).1 (r.addGenericParam g t name).2.1 :=
  have hskip : I { r with nextGenericParam := r.nextGenericParam + 1 } g := inv.congr h rfl rfl
  inv.grow hskip (g.keepsTypes_pushGenericParam t _)

theorem createMethod (inv : Invariant I) (h : I r g) (t : TypeId) (name : String)
    (attributes : UInt32) (signature : MethodSignature) :
    I (r.createMethod g t name attributes signature).1
      (r.createMethod g t name attributes signature).2.1 :=
  have hskip : I { r with nextMethodDef := r.nextMethodDef + 1 } g := inv.congr h rfl rfl
  inv.grow hskip (r.keepsTypes_createMethod g t name attributes signature)

theorem create (inv : Invariant I) (g : Graph) (origin : Origin) :
    I (Registry.create g origin).1 (Registry.create g origin).2 :=
  create_induction g origin (inv.empty origin g) fun _ _ kind h =>
    inv.register h (primitiveDecl kind)

end Invariant

end AssemblyGraph.Registry
