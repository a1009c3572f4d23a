import AssemblyGraph.Proofs.Matching.Rank
import Mathlib.Data.List.FinRange

/-!
The scan of the left side.

The index gives each type the positions of its class on the right, in
ascending order. When a position is used, the types at the other unused
positions are those that were there before, without the first one of the
class. So to take the first candidate that is not used is to take the first
free counterpart, and the marks never disagree with the list of free types.
-/

namespace AssemblyGraph

/-- What is found among the elements with a property is erased from them by
excluding it. -/
theorem eraseP_filter_of_find? {α : Type} [DecidableEq α] {p q : α → Bool} {l : List α} {a : α}
    (nodup : l.Nodup) (h : (l.filter p).find? q = some a) :
    (l.filter q).eraseP p = l.filter fun b => q b && b ≠ a := by
  induction l with
  | nil => rfl
  | cons b l ih =>
      obtain ⟨hb, hnodup⟩ := List.nodup_cons.mp nodup
      by_cases hq : q b = true
      · by_cases hp : p b = true
        · have ha : b = a := by simpa [hp, hq] using h
          subst ha
          have hrest : l.filter q = l.filter fun c => q c && c ≠ b := by
            refine List.filter_congr fun c hc => ?_
            have hne : c ≠ b := fun he => hb (he ▸ hc)
            simp [hne]
          simp [hq, hp, hrest]
        · have hfound : (l.filter p).find? q = some a := by simpa [hp] using h
          have hmem : a ∈ l := (List.mem_filter.mp (List.mem_of_find?_eq_some hfound)).1
          have hne : b ≠ a := fun he => hb (he ▸ hmem)
          simp [hq, hp, hne, ih hnodup hfound]
      · have hfound : (l.filter p).find? q = some a := by
          by_cases hp : p b = true
          · simpa [hp, hq] using h
          · simpa [hp] using h
        simp [hq, ih hnodup hfound]

namespace Graph

variable {n : Nat} {g : Graph} {hashOf : TypeId → UInt64}

/-- The positions of the types that are the same as a type. -/
def positionsOf (g : Graph) (ts : Vector TypeId n) (t : TypeId) : List (Fin n) :=
  (List.finRange n).filter fun p => g.isSameAs t (ts.get p)

/-- The index lists the positions of each class in ascending order. By induction on
the positions that are entered. -/
theorem candidates_positionIndex (hash : g.HashesAlike hashOf) (ts : Vector TypeId n)
    (t : TypeId) :
    g.candidates hashOf (g.positionIndex hashOf ts) t = g.positionsOf ts t := by
  suffices ∀ (ps : List (Fin n)) (index : IdentityMap (List (Fin n))),
      g.candidates hashOf (ps.foldl (fun index p =>
          index.alter g hashOf (ts.get p) fun earlier? => earlier?.getD [] ++ [p]) index) t =
        g.candidates hashOf index t ++ ps.filter fun p => g.isSameAs t (ts.get p) from
    this (List.finRange n) .empty
  intro ps
  induction ps with
  | nil => simp
  | cons p ps ih =>
      intro index
      rw [List.foldl_cons, ih, candidates, IdentityMap.value?_alter hash,
        g.isSameAs_comm (ts.get p) t, List.filter_cons]
      by_cases h : g.isSameAs t (ts.get p) = true
      · have hentry : index.value? g hashOf (ts.get p) = index.value? g hashOf t := by
          simp only [IdentityMap.value?, IdentityMap.find?, IdentityMap.isEntryOf_congr hash h]
        rw [if_pos h, if_pos h, hentry, Option.getD_some, List.append_assoc]
        rfl
      · rw [if_neg h, if_neg h]
        rfl

section Unused

variable {right : Vector TypeId n} {used : Vector Bool n} {t : TypeId}

/-- The types at the positions that are not used. -/
def unused (right : Vector TypeId n) (used : Vector Bool n) : List TypeId :=
  ((List.finRange n).filter (!used.get ·)).map right.get

theorem unused_replicate (right : Vector TypeId n) :
    unused right (.replicate n false) = right.toList := by
  have hall : (List.finRange n).filter (fun p => !(Vector.replicate n false).get p) =
      List.finRange n := by
    simp [Vector.get]
  rw [unused, hall]
  apply List.ext_getElem
  · simp
  · simp [Vector.get]

theorem find?_unused (right : Vector TypeId n) (used : Vector Bool n) (t : TypeId) :
    (unused right used).find? (g.isSameAs t) =
      ((g.positionsOf right t).find? (!used.get ·)).map right.get := by
  rw [unused, positionsOf, List.find?_map, List.find?_filter, List.find?_filter]
  congr 2
  funext p
  simp [and_comm]

/-- To mark the first candidate that is not used is to take the first free counterpart. -/
theorem unused_of_marked {p : Fin n} (h : (g.positionsOf right t).find? (!used.get ·) = some p)
    {used' : Vector Bool n} (marked : ∀ q, used'.get q = (used.get q || q == p)) :
    unused right used' = (unused right used).eraseP (g.isSameAs t) := by
  have hfree : (List.finRange n).filter (!used'.get ·) =
      (List.finRange n).filter fun q => !used.get q && q ≠ p := by
    refine List.filter_congr fun q _ => ?_
    rw [marked q, Bool.not_or, decide_not]
    rfl
  rw [unused, unused, hfree, List.eraseP_map,
    ← eraseP_filter_of_find? (List.nodup_finRange _) h]
  rfl

theorem get_set_used (used : Vector Bool n) (p q : Fin n) :
    (used.set p true p.isLt).get q = (used.get q || q == p) := by
  show (used.set p true p.isLt)[q.val] = (used[q.val] || q == p)
  rw [Vector.getElem_set]
  by_cases h : q = p
  · simp [h]
  · have hindex : p.val ≠ q.val := fun he => h (Fin.ext he.symm)
    simp [h, hindex]

theorem matchAmong_eq_pairUp (right : Vector TypeId n) {candidatesOf : TypeId → List (Fin n)}
    (hcandidates : ∀ t, candidatesOf t = g.positionsOf right t) (left : List TypeId)
    (used : Vector Bool n) :
    matchAmong right (left.map fun t => (t, candidatesOf t)) used =
      g.pairUp left (unused right used) := by
  induction left generalizing used with
  | nil => rfl
  | cons t left ih =>
      rw [List.map_cons, matchAmong, pairUp, find?_unused, hcandidates]
      cases h : (g.positionsOf right t).find? (!used.get ·) with
      | none => simp [ih]
      | some p => simp [ih, unused_of_marked h (get_set_used used p)]

end Unused

/-- The hashes of simple names have no part in a matching of registries. -/
theorem matchTypes_eq_pairUp (g : Graph) (hashName : String → UInt64) (left right : Registry) :
    g.matchTypes hashName left right = g.pairUp (left.declared g) (right.declared g) := by
  have hash := g.identityHash_hashesAlike hashName
  rw [matchTypes, matchAmong_eq_pairUp _ (fun t => candidates_positionIndex hash _ t),
    unused_replicate]
  rfl

end Graph

end AssemblyGraph
