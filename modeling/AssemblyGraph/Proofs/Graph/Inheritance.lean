import AssemblyGraph.Proofs.Registry.Creation

/-!
What a type has from earlier on.

Most of what is done to a graph gives no type a mark that it did not have before: neither a
link outwards, nor one to a definition, nor a record. So what marks a type, if it is not true of
a type that has just been made, has come to it by one of the few commands that do.
-/

namespace AssemblyGraph

/-- Two declarations agree in their links, their namespaces and their records. -/
structure TypeDecl.SameMarks (d d' : TypeDecl) : Prop where
  enclosing? : d'.enclosing? = d.enclosing?
  definition? : d'.definition? = d.definition?
  namespaceName : d'.namespaceName = d.namespaceName
  attributes : d'.attributes = d.attributes

namespace Graph

/-- What marks a type in the later graph marked it in the earlier one. -/
def Inherits (P : TypeDecl → Prop) (g g' : Graph) : Prop :=
  ∀ t d', g'.type? t = some d' → P d' → ∃ d, g.type? t = some d ∧ P d

variable {P : TypeDecl → Prop} {g g' g'' : Graph}

theorem Inherits.refl (g : Graph) : Inherits P g g :=
  fun _ d hd hP => ⟨d, hd, hP⟩

theorem Inherits.trans (h : Inherits P g g') (h' : Inherits P g' g'') : Inherits P g g'' := by
  intro t d'' hd'' hP''
  obtain ⟨d', hd', hP'⟩ := h' t d'' hd'' hP''
  exact h t d' hd' hP'

theorem inherits_addType (g : Graph) {d : TypeDecl} (unmarked : ¬ P d) :
    Inherits P g (g.addType d).1 := by
  intro t d' hd' hP
  by_cases ht : t = (g.addType d).2
  · rw [ht, type?_addType_self] at hd'
    obtain rfl := Option.some_inj.mp hd'
    exact absurd hP unmarked
  · rw [g.type?_addType_of_ne d ht] at hd'
    exact ⟨d', hd', hP⟩

theorem inherits_modifyType (g : Graph) (u : TypeId) {f : TypeDecl → TypeDecl}
    (keeps : ∀ d, P (f d) → P d) : Inherits P g (g.modifyType u f) := by
  intro t d' hd' hP
  rw [type?_modifyType] at hd'
  split at hd'
  · obtain ⟨d, hd, rfl⟩ := Option.map_eq_some_iff.mp hd'
    exact ⟨d, hd, keeps d hP⟩
  · exact ⟨d', hd', hP⟩

/-- A mark that no type is made with, and that is told from links, namespaces and records, comes
from none of the common ways to change a graph. -/
theorem inherits_frame (fresh : ∀ d : TypeDecl, d.Fresh → ¬ P d)
    (marks : ∀ {d d' : TypeDecl}, d.SameMarks d' → P d' → P d) : Frame (Inherits P) where
  of_types h t d hd hP := by
    rw [type?, h] at hd
    exact ⟨d, hd, hP⟩
  trans := .trans
  addType g d hd := g.inherits_addType (fresh d hd)
  pushMethod g t _ := g.inherits_modifyType t fun _ => marks ⟨rfl, rfl, rfl, rfl⟩
  pushNested g enclosing _ := g.inherits_modifyType enclosing fun _ => marks ⟨rfl, rfl, rfl, rfl⟩
  retain g owned t d hd hP := by
    rw [type?_retain] at hd
    split at hd
    · exact ⟨d, hd, hP⟩
    · cases hd

end Graph

end AssemblyGraph
