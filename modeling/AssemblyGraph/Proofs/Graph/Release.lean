import AssemblyGraph.Graph.Ownership
import Mathlib.Data.List.Basic

/-!
What a sweep releases.

A sweep empties the places of living types that are not owned, and of no
others. So either it changes nothing, because every living type is owned, or
there are fewer living types after it.
-/

namespace AssemblyGraph

namespace Graph

/-- Emptying places leaves them all as they were, or fewer of them filled. -/
theorem zipWith_keep_cases {α : Type} (places : List (Option α)) (kept : List Bool)
    (h : places.length = kept.length) :
    List.zipWith (fun place isKept => if isKept then place else none) places kept = places ∨
      (List.zipWith (fun place isKept => if isKept then place else none) places kept).countP
        Option.isSome < places.countP Option.isSome := by
  induction places generalizing kept with
  | nil => exact .inl (by simp)
  | cons place places ih =>
      cases kept with
      | nil => cases h
      | cons isKept kept =>
          have hrest := ih kept (Nat.succ.inj h)
          rw [List.zipWith_cons_cons, List.countP_cons, List.countP_cons]
          by_cases hkept : isKept ∨ place = none
          · -- the first place stays as it is
            have hplace : (if isKept then place else none) = place := by
              rcases hkept with rfl | rfl <;> simp
            rw [hplace]
            rcases hrest with heq | hlt
            · exact .inl (by rw [heq])
            · exact .inr (by omega)
          · -- the first place is emptied
            obtain ⟨hnot, hsome⟩ := not_or.mp hkept
            have hle : (List.zipWith (fun place isKept => if isKept then place else none)
                places kept).countP Option.isSome ≤ places.countP Option.isSome := by
              rcases hrest with heq | hlt
              · exact Nat.le_of_eq (by rw [heq])
              · exact Nat.le_of_lt hlt
            have hfilled : place.isSome = true := Option.isSome_iff_ne_none.mpr hsome
            refine .inr ?_
            rw [if_neg hnot, if_pos hfilled]
            simpa using Nat.lt_succ_of_le hle

variable {g : Graph} {owned : List TypeId} {t : TypeId}

/-- A sweep changes nothing, or a living type is released by it. -/
theorem retain_cases (g : Graph) (owned : List TypeId) :
    g.retain owned = g ∨ (g.retain owned).aliveCount < g.aliveCount := by
  have hlength : g.types.toList.length = (marks g.types.size owned).toList.length := by simp
  rcases zipWith_keep_cases _ _ hlength with heq | hlt
  · left
    have htypes : (g.retain owned).types = g.types := by
      rw [← Array.toList_inj, retain, Array.toList_zipWith, heq]
    exact congrArg (Graph.mk · g.methods) htypes
  · right
    rw [aliveCount, aliveCount, ← Array.countP_toList, ← Array.countP_toList, retain,
      Array.toList_zipWith]
    exact hlt

/-- A sweep changes nothing if and only if all living types are owned. -/
theorem retain_eq_self_iff : g.retain owned = g ↔ ∀ t, g.isAlive t → t ∈ owned := by
  constructor
  · intro h t halive
    obtain ⟨d, hd⟩ := isAlive_iff.mp halive
    have hkept := type?_retain g owned t
    rw [h, hd] at hkept
    by_contra hnot
    rw [if_neg hnot] at hkept
    cases hkept
  · intro h
    have htypes : (g.retain owned).types = g.types := by
      refine Array.ext_getElem? fun i => ?_
      rw [retain, Array.getElem?_zipWith]
      by_cases hi : i < g.types.size
      · have hmarks : i < (marks g.types.size owned).size := by simpa using hi
        rw [Array.getElem?_eq_getElem hi, Array.getElem?_eq_getElem hmarks, getElem_marks]
        cases hplace : g.types[i] with
        | none => simp
        | some d =>
            have halive : g.isAlive ⟨i⟩ := by
              simp [isAlive, type?, Array.getElem?_eq_getElem hi, hplace]
            simp [h ⟨i⟩ halive]
      · simp [Array.getElem?_eq_none (Nat.le_of_not_lt hi)]
    exact congrArg (Graph.mk · g.methods) htypes

theorem mem_attachedTypes_iff :
    t ∈ g.attachedTypes ↔
      ∃ u d record, g.type? u = some d ∧ record ∈ d.attributes ∧ t ∈ record.ownedTypes := by
  have hplaces : ∀ place, place ∈ g.types.toList ↔ ∃ i : Nat, g.types[i]? = some place := by
    intro place
    rw [List.mem_iff_getElem?]
    simp
  rw [attachedTypes, List.mem_flatMap]
  constructor
  · rintro ⟨place, hplace, ht⟩
    obtain ⟨i, hi⟩ := (hplaces place).mp hplace
    cases place with
    | none => cases ht
    | some d =>
        obtain ⟨record, hrecord, ht⟩ := List.mem_flatMap.mp ht
        exact ⟨⟨i⟩, d, record, by simp [type?, hi], hrecord, ht⟩
  · rintro ⟨u, d, record, hd, hrecord, ht⟩
    exact ⟨some d, (hplaces _).mpr ⟨u.index, Option.join_eq_some_iff.mp hd⟩,
      List.mem_flatMap.mpr ⟨record, hrecord, ht⟩⟩

/-- The records that are attached after a sweep were attached before it. -/
theorem mem_attachedTypes_of_retain (h : t ∈ (g.retain owned).attachedTypes) :
    t ∈ g.attachedTypes := by
  obtain ⟨u, d, record, hd, hrecord, ht⟩ := mem_attachedTypes_iff.mp h
  rw [type?_retain] at hd
  split at hd
  · exact mem_attachedTypes_iff.mpr ⟨u, d, record, hd, hrecord, ht⟩
  · cases hd

end Graph

end AssemblyGraph
