import Std.Data.TreeMap

/-!
What an ordered map lists: its entries in ascending order of their keys.
-/

namespace AssemblyGraph.OrderedMap

open Std

variable {α β : Type} [Ord α]

theorem values_eq_map_toList (m : TreeMap α β) : m.values = m.toList.map (·.2) := by
  have hvalues : m.values = m.foldr (fun _ b bs => b :: bs) [] := rfl
  rw [hvalues, TreeMap.foldr_eq_foldr_toList]
  induction m.toList with
  | nil => rfl
  | cons entry entries ih => rw [List.foldr_cons, ih, List.map_cons]

variable [TransOrd α] [LawfulEqOrd α]

theorem mem_values_iff {m : TreeMap α β} {b : β} : b ∈ m.values ↔ ∃ a : α, m[a]? = some b := by
  rw [values_eq_map_toList, List.mem_map]
  constructor
  · rintro ⟨⟨a, b'⟩, hmem, rfl⟩
    exact ⟨a, TreeMap.mem_toList_iff_getElem?_eq_some.mp hmem⟩
  · rintro ⟨a, ha⟩
    exact ⟨(a, b), TreeMap.mem_toList_iff_getElem?_eq_some.mpr ha, rfl⟩

theorem getElem?_insert (m : TreeMap α β) (a : α) (b : β) (c : α) [DecidableEq α] :
    (m.insert a b)[c]? = if a = c then some b else m[c]? := by
  simp only [TreeMap.getElem?_insert, Std.compare_eq_iff_eq]

theorem getElem?_insert_of_ne (m : TreeMap α β) {a c : α} (b : β) (h : a ≠ c) :
    (m.insert a b)[c]? = m[c]? := by
  classical
  rw [getElem?_insert, if_neg h]

theorem getElem?_erase (m : TreeMap α β) (a c : α) [DecidableEq α] :
    (m.erase a)[c]? = if a = c then none else m[c]? := by
  simp only [TreeMap.getElem?_erase, Std.compare_eq_iff_eq]

/-- What is found after an insertion is what was inserted, or it was there before. -/
theorem eq_or_getElem?_of_insert {m : TreeMap α β} {a c : α} {b x : β}
    (h : (m.insert a b)[c]? = some x) : x = b ∨ m[c]? = some x := by
  classical
  rw [getElem?_insert] at h
  split at h
  · exact .inl (Option.some_inj.mp h).symm
  · exact .inr h

theorem getElem?_of_erase {m : TreeMap α β} {a c : α} {x : β}
    (h : (m.erase a)[c]? = some x) : m[c]? = some x := by
  classical
  rw [getElem?_erase] at h
  split at h
  · cases h
  · exact h

/-- The entry of a key that is greater than all others is listed last. -/
theorem toList_insert_of_last {m : TreeMap α β} {a : α}
    (h : ∀ entry ∈ m.toList, compare entry.1 a = .lt) (b : β) :
    (m.insert a b).toList = m.toList ++ [(a, b)] := by
  classical
  have hother : m.toList.filter (fun entry => ¬ a == entry.1) = m.toList := by
    refine List.filter_eq_self.mpr fun entry hentry => ?_
    have hne : a ≠ entry.1 := by
      rintro rfl
      have hlt := h entry hentry
      rw [compare_self] at hlt
      cases hlt
    simp [hne]
  have hperm : (m.insert a b).toList.Perm (m.toList ++ [(a, b)]) := by
    have hinsert := TreeMap.toList_insert_perm (t := m) (k := a) (v := b)
    rw [hother] at hinsert
    exact hinsert.trans (List.perm_append_singleton (a, b) m.toList).symm
  have hordered : (m.toList ++ [(a, b)]).Pairwise fun x y => compare x.1 y.1 = .lt := by
    refine List.pairwise_append.mpr ⟨TreeMap.ordered_keys_toList, List.pairwise_singleton .., ?_⟩
    intro x hx y hy
    obtain rfl := List.mem_singleton.mp hy
    exact h x hx
  refine hperm.eq_of_pairwise (fun x y _ _ hxy hyx => ?_) TreeMap.ordered_keys_toList hordered
  have hgt := OrientedCmp.gt_iff_lt.mpr hxy
  rw [hyx] at hgt
  cases hgt

end AssemblyGraph.OrderedMap
