import AssemblyGraph.Matching
import AssemblyGraph.Proofs.Identity.Map
import Mathlib.Data.List.Basic

/-!
Matching by rank.

The members of a class of identity that stand in a list are counted in the
order of the list. A matching pairs by rank when the member of each rank on
the left has the member of that rank on the right as its counterpart, so the
longer side of each class keeps its last members. This is what a matching
comes to in which every type takes the first counterpart that is still free:
of each class as many members are gone on one side as on the other, and they
are the first ones.
-/

namespace AssemblyGraph

/-! ### Taking the first element with a property -/

theorem filter_eraseP_self {α : Type} (p : α → Bool) (l : List α) :
    (l.eraseP p).filter p = (l.filter p).tail := by
  induction l with
  | nil => rfl
  | cons a l ih =>
      by_cases h : p a = true
      · simp [h]
      · simp [h, ih]

theorem filter_eraseP_of_disjoint {α : Type} {p q : α → Bool} (h : ∀ a, p a = true → q a = false)
    (l : List α) : (l.eraseP p).filter q = l.filter q := by
  induction l with
  | nil => rfl
  | cons a l ih =>
      by_cases hp : p a = true
      · simp [hp, h a hp]
      · rw [List.eraseP_cons_of_neg hp, List.filter_cons, List.filter_cons, ih]

theorem perm_cons_eraseP_of_find? {α : Type} {p : α → Bool} {l : List α} {a : α}
    (h : l.find? p = some a) : (a :: l.eraseP p).Perm l := by
  obtain ⟨ha, before, after, rfl, hbefore⟩ := List.find?_eq_some_iff_append.mp h
  have herase : (before ++ a :: after).eraseP p = before ++ after := by
    rw [List.eraseP_append_right _ fun b hb => by simpa using hbefore b hb,
      List.eraseP_cons_of_pos ha]
  rw [herase]
  exact List.perm_middle.symm

namespace Graph

/-! ### Classes and ranks -/

/-- The members of a list that are the same as a type, in their order. -/
def classIn (g : Graph) (t : TypeId) (ts : List TypeId) : List TypeId :=
  ts.filter (g.isSameAs t)

/-- A type is the member of rank `k` of its class in a list, counted from zero. -/
def HasRank (g : Graph) (ts : List TypeId) (t : TypeId) (k : Nat) : Prop :=
  (g.classIn t ts)[k]? = some t

theorem classIn_congr {g : Graph} {s t : TypeId} (h : g.isSameAs s t = true)
    (ts : List TypeId) : g.classIn s ts = g.classIn t ts := by
  rw [classIn, classIn, isSameAs_congr h]

theorem classIn_cons_of_same {g : Graph} {s t : TypeId} (h : g.isSameAs s t = true)
    (ts : List TypeId) : g.classIn s (t :: ts) = t :: g.classIn s ts :=
  List.filter_cons_of_pos h

theorem classIn_cons_of_not_same {g : Graph} {s t : TypeId} (h : ¬ g.isSameAs s t = true)
    (ts : List TypeId) : g.classIn s (t :: ts) = g.classIn s ts :=
  List.filter_cons_of_neg h

theorem mem_iff_exists_hasRank {g : Graph} {ts : List TypeId} {t : TypeId} :
    t ∈ ts ↔ ∃ k, g.HasRank ts t k := by
  have hclass : t ∈ g.classIn t ts ↔ t ∈ ts := by
    rw [classIn, List.mem_filter]
    exact and_iff_left (g.isSameAs_self t)
  rw [← hclass]
  exact List.mem_iff_getElem?

theorem HasRank.lt_length {g : Graph} {ts : List TypeId} {t : TypeId} {k : Nat}
    (h : g.HasRank ts t k) : k < (g.classIn t ts).length :=
  (List.getElem?_eq_some_iff.mp h).1

/-- What is said of a rank is said of the first member of a class or of the
others, which have the ranks of the rest. -/
theorem exists_hasRank_of_cons {g : Graph} {ts rest : List TypeId} {t s : TypeId}
    (h : g.classIn s ts = t :: g.classIn s rest) (P : Nat → Prop) :
    (∃ k, g.HasRank ts s k ∧ P k) ↔ t = s ∧ P 0 ∨ ∃ k, g.HasRank rest s k ∧ P (k + 1) := by
  rw [← Nat.or_exists_add_one]
  simp only [HasRank, h, List.getElem?_cons_zero, List.getElem?_cons_succ, Option.some.injEq]

theorem exists_hasRank_of_eq {g : Graph} {ts rest : List TypeId} {s : TypeId}
    (h : g.classIn s ts = g.classIn s rest) (P : Nat → Prop) :
    (∃ k, g.HasRank ts s k ∧ P k) ↔ ∃ k, g.HasRank rest s k ∧ P k := by
  simp only [HasRank, h]

/-- A matching of two lists of types by rank. The first three fields settle
whether a type is matched, and with which one; the others say that no type is
lost, and in which order the types are listed. -/
structure MatchesByRank (g : Graph) (left right : List TypeId) (found : Matching) : Prop where
  pairs : ∀ t u, (t, u) ∈ found.pairs ↔
    ∃ k, g.HasRank left t k ∧ (g.classIn t right)[k]? = some u
  unmatchedLeft : ∀ t, t ∈ found.unmatchedLeft ↔
    ∃ k, g.HasRank left t k ∧ (g.classIn t right).length ≤ k
  unmatchedRight : ∀ u, u ∈ found.unmatchedRight ↔
    ∃ k, g.HasRank right u k ∧ (g.classIn u left).length ≤ k
  left_perm : (found.pairs.map (·.1) ++ found.unmatchedLeft).Perm left
  right_perm : (found.pairs.map (·.2) ++ found.unmatchedRight).Perm right
  pairs_sublist : (found.pairs.map (·.1)).Sublist left
  unmatchedLeft_sublist : found.unmatchedLeft.Sublist left
  unmatchedRight_sublist : found.unmatchedRight.Sublist right

/-- Of one class, not both sides have members left over: the one with fewer
members is used up. -/
theorem MatchesByRank.not_same_of_unmatched {g : Graph} {left right : List TypeId}
    {found : Matching} (h : g.MatchesByRank left right found) {t u : TypeId}
    (ht : t ∈ found.unmatchedLeft) (hu : u ∈ found.unmatchedRight) :
    g.sameIdentity (some t) (some u) = false := by
  obtain ⟨j, hj, hright⟩ := (h.unmatchedLeft t).mp ht
  obtain ⟨k, hk, hleft⟩ := (h.unmatchedRight u).mp hu
  rw [← Bool.not_eq_true]
  intro hsame
  have hclass := classIn_congr (g := g) (s := u) (t := t) hsame
  have hj := hj.lt_length
  have hk := hk.lt_length
  rw [hclass] at hk hleft
  omega

/-! ### Taking the first free counterpart -/

/-- The matching in which every type on the left takes its first counterpart
that is free. -/
def pairUp (g : Graph) : List TypeId → List TypeId → Matching
  | [], free => ⟨[], [], free⟩
  | t :: left, free =>
      match free.find? (g.isSameAs t) with
      | some u =>
          let rest := pairUp g left (free.eraseP (g.isSameAs t))
          { rest with pairs := (t, u) :: rest.pairs }
      | none =>
          let rest := pairUp g left free
          { rest with unmatchedLeft := t :: rest.unmatchedLeft }

section Free

variable {g : Graph} {s t u : TypeId} {free : List TypeId}

theorem classIn_eq_nil_of_find? (hs : g.isSameAs s t = true)
    (h : free.find? (g.isSameAs t) = none) : g.classIn s free = [] := by
  rw [classIn_congr hs]
  exact List.filter_eq_nil_iff.mpr (List.find?_eq_none.mp h)

/-- The counterpart that is taken was the first member of its class. -/
theorem classIn_eq_cons_of_find? (hs : g.isSameAs s t = true)
    (h : free.find? (g.isSameAs t) = some u) :
    g.classIn s free = u :: g.classIn s (free.eraseP (g.isSameAs t)) := by
  rw [classIn_congr hs, classIn_congr hs, classIn, classIn, filter_eraseP_self]
  rw [← List.head?_filter] at h
  exact List.eq_cons_of_mem_head? (Option.mem_def.mpr h)

/-- Other classes keep all their members. -/
theorem classIn_eraseP_of_not_same (hs : ¬ g.isSameAs s t = true) :
    g.classIn s (free.eraseP (g.isSameAs t)) = g.classIn s free := by
  refine filter_eraseP_of_disjoint (fun v hv => ?_) free
  rw [← Bool.not_eq_true]
  exact fun hsv => hs (sameIdentity_trans (sameIdentity_symm hv) hsv)

end Free

/-! ### The ranks of what is matched

Each of the next three is by induction on the left side. The type in front
changes only its own class: it is the first member there, and so is the
counterpart that it takes, so the ranks of the others go down by one on both
sides. -/

theorem mem_pairs_pairUp (g : Graph) (left free : List TypeId) (s v : TypeId) :
    (s, v) ∈ (g.pairUp left free).pairs ↔
      ∃ k, g.HasRank left s k ∧ (g.classIn s free)[k]? = some v := by
  induction left generalizing free with
  | nil => simp [pairUp, HasRank, classIn]
  | cons t left ih =>
      rw [pairUp]
      cases h : free.find? (g.isSameAs t) with
      | none =>
          by_cases hs : g.isSameAs s t = true
          · simp [ih, classIn_eq_nil_of_find? hs h]
          · rw [exists_hasRank_of_eq (classIn_cons_of_not_same hs left)]
            exact ih free
      | some u =>
          simp only [List.mem_cons, Prod.mk.injEq, ih]
          by_cases hs : g.isSameAs s t = true
          · rw [exists_hasRank_of_cons (classIn_cons_of_same hs left),
              classIn_eq_cons_of_find? hs h]
            simp [eq_comm]
          · have hne : s ≠ t := fun he => hs (he ▸ g.isSameAs_self s)
            rw [exists_hasRank_of_eq (classIn_cons_of_not_same hs left),
              classIn_eraseP_of_not_same hs]
            simp [hne]

theorem mem_unmatchedLeft_pairUp (g : Graph) (left free : List TypeId) (s : TypeId) :
    s ∈ (g.pairUp left free).unmatchedLeft ↔
      ∃ k, g.HasRank left s k ∧ (g.classIn s free).length ≤ k := by
  induction left generalizing free with
  | nil => simp [pairUp, HasRank, classIn]
  | cons t left ih =>
      rw [pairUp]
      cases h : free.find? (g.isSameAs t) with
      | none =>
          simp only [List.mem_cons, ih]
          by_cases hs : g.isSameAs s t = true
          · rw [exists_hasRank_of_cons (classIn_cons_of_same hs left),
              classIn_eq_nil_of_find? hs h]
            simp [eq_comm]
          · have hne : s ≠ t := fun he => hs (he ▸ g.isSameAs_self s)
            rw [exists_hasRank_of_eq (classIn_cons_of_not_same hs left)]
            simp [hne]
      | some u =>
          simp only [ih]
          by_cases hs : g.isSameAs s t = true
          · rw [exists_hasRank_of_cons (classIn_cons_of_same hs left),
              classIn_eq_cons_of_find? hs h]
            simp
          · rw [exists_hasRank_of_eq (classIn_cons_of_not_same hs left),
              classIn_eraseP_of_not_same hs]

theorem mem_unmatchedRight_pairUp (g : Graph) (left free : List TypeId) (v : TypeId) :
    v ∈ (g.pairUp left free).unmatchedRight ↔
      ∃ k, g.HasRank free v k ∧ (g.classIn v left).length ≤ k := by
  induction left generalizing free with
  | nil =>
      rw [pairUp, mem_iff_exists_hasRank (g := g)]
      simp [classIn]
  | cons t left ih =>
      rw [pairUp]
      cases h : free.find? (g.isSameAs t) with
      | none =>
          by_cases hs : g.isSameAs v t = true
          · simp [ih, HasRank, classIn_eq_nil_of_find? hs h]
          · rw [classIn_cons_of_not_same hs]
            exact ih free
      | some u =>
          simp only [ih]
          by_cases hs : g.isSameAs v t = true
          · rw [exists_hasRank_of_cons (classIn_eq_cons_of_find? hs h),
              classIn_cons_of_same hs]
            simp
          · rw [exists_hasRank_of_eq (classIn_eraseP_of_not_same hs),
              classIn_cons_of_not_same hs]

/-! ### Nothing is lost -/

theorem left_perm_pairUp (g : Graph) (left free : List TypeId) :
    ((g.pairUp left free).pairs.map (·.1) ++ (g.pairUp left free).unmatchedLeft).Perm left := by
  induction left generalizing free with
  | nil => rfl
  | cons t left ih =>
      rw [pairUp]
      cases free.find? (g.isSameAs t) with
      | none => exact List.perm_middle.trans ((ih free).cons t)
      | some u => exact (ih _).cons t

theorem right_perm_pairUp (g : Graph) (left free : List TypeId) :
    ((g.pairUp left free).pairs.map (·.2) ++ (g.pairUp left free).unmatchedRight).Perm free := by
  induction left generalizing free with
  | nil => rfl
  | cons t left ih =>
      rw [pairUp]
      cases h : free.find? (g.isSameAs t) with
      | none => exact ih free
      | some u => exact ((ih _).cons u).trans (perm_cons_eraseP_of_find? h)

theorem pairs_sublist_pairUp (g : Graph) (left free : List TypeId) :
    ((g.pairUp left free).pairs.map (·.1)).Sublist left := by
  induction left generalizing free with
  | nil => rfl
  | cons t left ih =>
      rw [pairUp]
      cases free.find? (g.isSameAs t) with
      | none => exact (ih free).cons t
      | some u => exact (ih _).cons_cons t

theorem unmatchedLeft_sublist_pairUp (g : Graph) (left free : List TypeId) :
    (g.pairUp left free).unmatchedLeft.Sublist left := by
  induction left generalizing free with
  | nil => rfl
  | cons t left ih =>
      rw [pairUp]
      cases free.find? (g.isSameAs t) with
      | none => exact (ih free).cons_cons t
      | some u => exact (ih _).cons t

theorem unmatchedRight_sublist_pairUp (g : Graph) (left free : List TypeId) :
    (g.pairUp left free).unmatchedRight.Sublist free := by
  induction left generalizing free with
  | nil => rfl
  | cons t left ih =>
      rw [pairUp]
      cases free.find? (g.isSameAs t) with
      | none => exact ih free
      | some u => exact (ih _).trans List.eraseP_sublist

theorem pairUp_byRank (g : Graph) (left free : List TypeId) :
    g.MatchesByRank left free (g.pairUp left free) where
  pairs := g.mem_pairs_pairUp left free
  unmatchedLeft := g.mem_unmatchedLeft_pairUp left free
  unmatchedRight := g.mem_unmatchedRight_pairUp left free
  left_perm := g.left_perm_pairUp left free
  right_perm := g.right_perm_pairUp left free
  pairs_sublist := g.pairs_sublist_pairUp left free
  unmatchedLeft_sublist := g.unmatchedLeft_sublist_pairUp left free
  unmatchedRight_sublist := g.unmatchedRight_sublist_pairUp left free

end Graph

end AssemblyGraph
