import AssemblyGraph.Proofs.Registry.Keyed
import AssemblyGraph.Proofs.WellKnown

/-!
What registries and tables hand out is among the types that they own.
-/

namespace AssemblyGraph

namespace Registry

variable {r : Registry} {t : TypeId}

theorem mem_all_of_get? {token : Token} (h : r.get? token = some t) : t ∈ r.all :=
  mem_all_iff.mpr ⟨token, h⟩

theorem mem_all_of_named? {fullName : String} (h : r.named? fullName = some t) : t ∈ r.all := by
  obtain ⟨token, -, htoken⟩ := List.exists_of_findSome?_eq_some h
  exact mem_all_of_get? htoken

theorem mem_all_of_primitive {p : Primitive} (h : r.primitive p = .ok t) : t ∈ r.all := by
  rw [primitive] at h
  cases hget : r.get? p.token with
  | none =>
      simp only [hget] at h
      cases h
  | some u =>
      simp only [hget] at h
      cases h
      exact mem_all_of_get? hget

end Registry

namespace WellKnownTable

theorem mem_ownedTypes_of_get {table : WellKnownTable} {kind : WellKnown} {t : TypeId}
    (h : table.get kind = .ok t) : t ∈ table.ownedTypes := by
  rw [get] at h
  cases hbound : table.binding? kind with
  | none =>
      simp only [hbound] at h
      cases h
  | some u =>
      simp only [hbound] at h
      cases h
      exact List.mem_cons_of_mem _ (List.mem_cons_of_mem _
        (List.mem_filterMap.mpr ⟨kind, kind.mem_all, hbound⟩))

theorem mem_ownedTypes_bind {table : WellKnownTable} {kind : WellKnown} {t u : TypeId}
    (h : u ∈ (table.bind kind t).ownedTypes) : u = t ∨ u ∈ table.ownedTypes := by
  simp only [ownedTypes, bind, List.mem_cons, List.mem_filterMap] at h ⊢
  rcases h with hbyte | hboolean | ⟨k, hk, hbound⟩
  · exact .inr (.inl hbyte)
  · exact .inr (.inr (.inl hboolean))
  · split at hbound
    · exact .inl (Option.some_inj.mp hbound).symm
    · exact .inr (.inr (.inr ⟨k, hk, hbound⟩))

/-- A table that is made from a registry owns types of that registry. -/
theorem mem_all_of_resolve {module : ModuleId} {r : Registry} {table : WellKnownTable}
    (h : resolve module r = .ok table) {t : TypeId} (ht : t ∈ table.ownedTypes) : t ∈ r.all := by
  refine resolve_induction (P := fun _ table => ∀ u ∈ table.ownedTypes, u ∈ r.all) ?_ ?_ h t ht
  · intro byte boolean hbyte hboolean u hu
    simp only [ownedTypes, create, WellKnown.all, List.filterMap_cons, List.filterMap_nil,
      List.mem_cons, List.not_mem_nil, or_false] at hu
    rcases hu with rfl | rfl
    · exact Registry.mem_all_of_primitive hbyte
    · exact Registry.mem_all_of_primitive hboolean
  · intro _ table kind u htable hnamed v hv
    rcases mem_ownedTypes_bind hv with rfl | hv
    · exact Registry.mem_all_of_named? hnamed
    · exact htable v hv

end WellKnownTable

end AssemblyGraph
