import AssemblyGraph.Identity
import AssemblyGraph.Proofs.Graph.Growth

/-!
What takes part in the identity of a type.

A facet of a type is its own shape and its link to the enclosing type. Methods, nested
types, definitions and attached records have no part in it. So apart from nesting a type
and giving it a generic parameter, whatever is done to a graph keeps the facets of the
types that live on; and a type that is gone stays gone.
-/

namespace AssemblyGraph

/-- What takes part in the identity of a type: its own shape and its enclosing type. -/
def Graph.facet? (g : Graph) (t : TypeId) : Option (IdentityShape × Option TypeId) :=
  (g.type? t).map fun d => (d.identityShape, d.enclosing?)

namespace Graph

section

variable (g : Graph)

theorem facet?_addType (d : TypeDecl) (u : TypeId) :
    (g.addType d).1.facet? u =
      if u = (g.addType d).2 then some (d.identityShape, d.enclosing?) else g.facet? u := by
  by_cases h : u = (g.addType d).2
  · rw [if_pos h, h, facet?, type?_addType_self, Option.map_some]
  · rw [if_neg h, facet?, g.type?_addType_of_ne d h, facet?]

/-- A change of other things than the facet. -/
theorem facet?_modifyType (t : TypeId) {f : TypeDecl → TypeDecl}
    (shape : ∀ d : TypeDecl, (f d).identityShape = d.identityShape)
    (enclosing? : ∀ d : TypeDecl, (f d).enclosing? = d.enclosing?) (u : TypeId) :
    (g.modifyType t f).facet? u = g.facet? u := by
  rw [facet?, type?_modifyType]
  split
  · rw [Option.map_map, facet?]
    exact congrFun (congrArg Option.map (funext fun d => Prod.ext (shape d) (enclosing? d))) _
  · rfl

/-- That a type lists a nested one has no part in its identity. -/
theorem facet?_pushNested (enclosing t u : TypeId) :
    (g.pushNested enclosing t).facet? u = g.facet? u :=
  g.facet?_modifyType enclosing (fun _ => by rfl) (fun _ => by rfl) u

end

variable {g g' g'' : Graph} {t : TypeId}

theorem facet?_eq_none_iff : g.facet? t = none ↔ g.type? t = none :=
  Option.map_eq_none_iff

theorem index_lt_of_alive (h : g.isAlive t) : t.index < g.types.size := by
  obtain ⟨d, hd⟩ := isAlive_iff.mp h
  exact (Array.getElem?_eq_some_iff.mp (Option.join_eq_some_iff.mp hd)).1

/-- A type that was there is gone, or it has kept its facet. -/
structure KeepsFacets (g g' : Graph) : Prop where
  size : g.types.size ≤ g'.types.size
  facet : ∀ t, t.index < g.types.size → g'.type? t = none ∨ g'.facet? t = g.facet? t

theorem KeepsFacets.of_eq (h : g'.types = g.types) : g.KeepsFacets g' where
  size := Nat.le_of_eq (congrArg Array.size h.symm)
  facet t _ := .inr (by rw [facet?, facet?, type?, type?, h])

theorem KeepsFacets.refl (g : Graph) : g.KeepsFacets g :=
  .of_eq rfl

theorem KeepsFacets.trans (h : g.KeepsFacets g') (h' : g'.KeepsFacets g'') :
    g.KeepsFacets g'' where
  size := Nat.le_trans h.size h'.size
  facet t ht := by
    rcases h'.facet t (Nat.lt_of_lt_of_le ht h.size) with hdead | hsame'
    · exact .inl hdead
    · rcases h.facet t ht with hdead | hsame
      · rw [facet?_eq_none_iff.mpr hdead, facet?_eq_none_iff] at hsame'
        exact .inl hsame'
      · exact .inr (hsame'.trans hsame)

/-! ### The operations on a graph -/

section

variable (g : Graph)

@[simp] theorem size_modifyType (t : TypeId) (f : TypeDecl → TypeDecl) :
    (g.modifyType t f).types.size = g.types.size :=
  Array.size_modify

@[simp] theorem size_retain (owned : List TypeId) :
    (g.retain owned).types.size = g.types.size := by
  simp [retain]

theorem keepsFacets_addType (d : TypeDecl) : g.KeepsFacets (g.addType d).1 where
  size := by
    rw [show (g.addType d).1.types.size = g.types.size + 1 from Array.size_push _]
    exact Nat.le_succ _
  facet t ht := by
    have hne : t ≠ (g.addType d).2 := by
      rintro rfl
      exact Nat.lt_irrefl _ ht
    exact .inr ((g.facet?_addType d t).trans (if_neg hne))

theorem keepsFacets_modifyType (t : TypeId) {f : TypeDecl → TypeDecl}
    (shape : ∀ d : TypeDecl, (f d).identityShape = d.identityShape)
    (enclosing? : ∀ d : TypeDecl, (f d).enclosing? = d.enclosing?) :
    g.KeepsFacets (g.modifyType t f) where
  size := Nat.le_of_eq (g.size_modifyType t f).symm
  facet u _ := .inr (g.facet?_modifyType t shape enclosing? u)

theorem keepsFacets_pushNested (enclosing t : TypeId) :
    g.KeepsFacets (g.pushNested enclosing t) :=
  g.keepsFacets_modifyType enclosing (fun _ => by rfl) fun _ => by rfl

theorem keepsFacets_pushMethod (t : TypeId) (m : MethodId) : g.KeepsFacets (g.pushMethod t m) :=
  g.keepsFacets_modifyType t (fun _ => by rfl) fun _ => by rfl

theorem keepsFacets_attach (t : TypeId) (record : AttributeRecord) :
    g.KeepsFacets (g.attach t record) :=
  g.keepsFacets_modifyType t (fun _ => by rfl) fun _ => by rfl

theorem keepsFacets_setDefinition {t definition : TypeId} {linked : Graph}
    (h : g.setDefinition t definition = .ok linked) : g.KeepsFacets linked := by
  rcases g.setDefinition_cases h with ⟨-, rfl⟩ | ⟨d, -, -, -, rfl⟩
  · exact .refl linked
  · exact g.keepsFacets_modifyType t (fun _ => by rfl) fun _ => by rfl

theorem keepsFacets_retain (owned : List TypeId) : g.KeepsFacets (g.retain owned) where
  size := Nat.le_of_eq (g.size_retain owned).symm
  facet t _ := by
    rw [facet?, facet?, type?_retain]
    split
    · exact .inr rfl
    · exact .inl rfl

end

end Graph

end AssemblyGraph
