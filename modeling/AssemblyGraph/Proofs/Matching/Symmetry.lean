import AssemblyGraph.Proofs.Matching.Registries
import Mathlib.Data.List.Sort

/-!
Matching in the two directions.

The two sides of a matching are treated differently: the right one is indexed and
marked, the left one is scanned. But the members of a class are paired by rank, and a
rank is counted on each side alone. So the matching in the other direction pairs the
same types, and a registry that is matched with itself pairs each type with itself,
however many types of one identity there are.
-/

namespace AssemblyGraph

namespace Graph

variable {g : Graph} {left right : List TypeId} {found back : Matching} {t u : TypeId}

instance : Std.Irrefl g.TokenLT where
  irrefl _ h := h.ne rfl

instance : Std.Antisymm g.TokenLT where
  antisymm t u := by
    rintro ⟨d, e, hd, he, hlt⟩ ⟨e', d', he', hd', hlt'⟩
    obtain rfl := Option.some_inj.mp (hd.symm.trans hd')
    obtain rfl := Option.some_inj.mp (he.symm.trans he')
    exact absurd hlt' (UInt32.lt_asymm hlt)

/-! ### The other direction -/

/-- The counterpart of a type has its rank, in the class that the two have in common. -/
theorem MatchesByRank.swap_mem_pairs (h : g.MatchesByRank left right found)
    (h' : g.MatchesByRank right left back) (hpair : (t, u) ∈ found.pairs) :
    (u, t) ∈ back.pairs := by
  obtain ⟨k, ht, hu⟩ := (h.pairs t u).mp hpair
  have hsame : g.isSameAs t u = true := (List.mem_filter.mp (List.mem_of_getElem? hu)).2
  refine (h'.pairs u t).mpr ⟨k, ?_, ?_⟩
  · rw [HasRank, ← classIn_congr hsame]
    exact hu
  · rw [← classIn_congr hsame]
    exact ht

theorem MatchesByRank.nodup_pairs (h : g.MatchesByRank left right found) (nodup : left.Nodup) :
    found.pairs.Nodup :=
  .of_map Prod.fst (nodup.sublist h.pairs_sublist)

/-- The same types are paired in the two directions. -/
theorem MatchesByRank.pairs_perm_swap (h : g.MatchesByRank left right found)
    (h' : g.MatchesByRank right left back) (nodup : left.Nodup) (nodup' : right.Nodup) :
    back.pairs.Perm (found.pairs.map Prod.swap) := by
  have hswapped : (found.pairs.map Prod.swap).Nodup :=
    (h.nodup_pairs nodup).map Prod.swap_injective
  refine (List.perm_ext_iff_of_nodup (h'.nodup_pairs nodup') hswapped).mpr fun ⟨u, t⟩ => ?_
  rw [List.mem_map]
  constructor
  · intro hpair
    exact ⟨(t, u), h'.swap_mem_pairs h hpair, rfl⟩
  · rintro ⟨⟨t', u'⟩, hpair, heq⟩
    cases heq
    exact h.swap_mem_pairs h' hpair

/-- What is left over on one side is left over there in the other direction, in the same
order. -/
theorem MatchesByRank.unmatchedLeft_eq (h : g.MatchesByRank left right found)
    (h' : g.MatchesByRank right left back) (ascending : right.Pairwise g.TokenLT) :
    back.unmatchedLeft = found.unmatchedRight := by
  refine List.Pairwise.eq_of_mem_iff (ascending.sublist h'.unmatchedLeft_sublist)
    (ascending.sublist h.unmatchedRight_sublist) fun u => ?_
  rw [h'.unmatchedLeft u, h.unmatchedRight u]

/-! ### A list matched with itself -/

theorem MatchesByRank.eq_of_self_pair (h : g.MatchesByRank left left found)
    (hpair : (t, u) ∈ found.pairs) : t = u := by
  obtain ⟨k, ht, hu⟩ := (h.pairs t u).mp hpair
  exact Option.some_inj.mp (ht.symm.trans hu)

/-- The rank of a type is always taken, by the type itself. -/
theorem MatchesByRank.eq_of_self (h : g.MatchesByRank left left found) :
    found = ⟨left.map fun t => (t, t), [], []⟩ := by
  have hleft : found.unmatchedLeft = [] := by
    refine List.eq_nil_iff_forall_not_mem.mpr fun t ht => ?_
    obtain ⟨k, hk, hlength⟩ := (h.unmatchedLeft t).mp ht
    exact absurd hk.lt_length (Nat.not_lt.mpr hlength)
  have hright : found.unmatchedRight = [] := by
    refine List.eq_nil_iff_forall_not_mem.mpr fun t ht => ?_
    obtain ⟨k, hk, hlength⟩ := (h.unmatchedRight t).mp ht
    exact absurd hk.lt_length (Nat.not_lt.mpr hlength)
  have hfirst : found.pairs.map Prod.fst = left := by
    have hlength := h.left_perm.length_eq
    rw [hleft, List.append_nil] at hlength
    exact h.pairs_sublist.eq_of_length hlength
  have hpairs : found.pairs = left.map fun t => (t, t) := by
    calc
      found.pairs = found.pairs.map fun p => (p.1, p.1) := by
        refine (List.map_id _).symm.trans (List.map_congr_left fun p hp => ?_)
        exact Prod.ext rfl (h.eq_of_self_pair hp).symm
      _ = (found.pairs.map Prod.fst).map fun t => (t, t) := by rw [List.map_map]; rfl
      _ = left.map fun t => (t, t) := by rw [hfirst]
  calc
    found = ⟨found.pairs, found.unmatchedLeft, found.unmatchedRight⟩ := rfl
    _ = ⟨left.map fun t => (t, t), [], []⟩ := by rw [hpairs, hleft, hright]

end Graph

namespace Session

/-- In every reachable state two registries are matched alike in the two directions,
whatever the hashes: the same types are paired, and those of each registry that are left
over are the same, in the same order. A registry that is matched with itself pairs every
declared type with itself. -/
theorem matchTypes_symmetric {s : Session} (reachable : s.Reachable) {left right : String}
    {l r : Registry} (hl : s.registries[left]? = some l) (hr : s.registries[right]? = some r)
    (hashName hashName' : String → UInt64) :
    let g := s.graph
    let found := g.matchTypes hashName l r
    let back := g.matchTypes hashName' r l
    back.pairs.Perm (found.pairs.map Prod.swap) ∧
      back.unmatchedLeft = found.unmatchedRight ∧ back.unmatchedRight = found.unmatchedLeft ∧
      g.matchTypes hashName l l = ⟨(l.declared g).map fun t => (t, t), [], []⟩ := by
  intro g found back
  have hrank : ∀ (l r : Registry) (hashName : String → UInt64),
      g.MatchesByRank (l.declared g) (r.declared g) (g.matchTypes hashName l r) := by
    intro l r hashName
    rw [Graph.matchTypes_eq_pairUp]
    exact g.pairUp_byRank _ _
  have hleft : (l.declared g).Pairwise g.TokenLT :=
    (keyed_of_reachable reachable left l hl).declared_ascending
  have hright : (r.declared g).Pairwise g.TokenLT :=
    (keyed_of_reachable reachable right r hr).declared_ascending
  have hfound := hrank l r hashName
  have hback := hrank r l hashName'
  refine ⟨?_, ?_, ?_, ?_⟩
  · exact hfound.pairs_perm_swap hback (hleft.imp Graph.TokenLT.ne) (hright.imp Graph.TokenLT.ne)
  · exact hfound.unmatchedLeft_eq hback hright
  · exact (hback.unmatchedLeft_eq hfound hleft).symm
  · exact (hrank l l hashName).eq_of_self

/-- Three types of one name on the left and two on the right: in the other direction the
same one is left over, under every hash of names, and the left registry is matched with
itself in full. -/
theorem matchTypes_surplus_back :
    ∃ l r, surplus.registries["left"]? = some l ∧ surplus.registries["right"]? = some r ∧
      ∀ hashName,
        let back := surplus.graph.matchTypes hashName r l
        back.pairs.Perm [(⟨16⟩, ⟨12⟩), (⟨17⟩, ⟨13⟩), (⟨18⟩, ⟨14⟩)] ∧
          back.unmatchedLeft = [] ∧ back.unmatchedRight = [⟨15⟩] ∧
          (surplus.graph.matchTypes hashName l l).pairs =
            [(⟨12⟩, ⟨12⟩), (⟨13⟩, ⟨13⟩), (⟨14⟩, ⟨14⟩), (⟨15⟩, ⟨15⟩)] := by
  have hleft : surplus.registries["left"]?.isSome := by decide +kernel
  have hright : surplus.registries["right"]?.isSome := by decide +kernel
  have hanswer : ∀ (hl : surplus.registries["left"]?.isSome)
      (hr : surplus.registries["right"]?.isSome),
      surplus.graph.matchTypes (fun _ => 0) (surplus.registries["left"]?.get hl)
        (surplus.registries["right"]?.get hr) =
          ⟨[(⟨12⟩, ⟨16⟩), (⟨13⟩, ⟨17⟩), (⟨14⟩, ⟨18⟩)], [⟨15⟩], []⟩ ∧
        (surplus.registries["left"]?.get hl).declared surplus.graph =
          [⟨12⟩, ⟨13⟩, ⟨14⟩, ⟨15⟩] := by
    decide +kernel
  obtain ⟨hfound, hdeclared⟩ := hanswer hleft hright
  have hl := (Option.some_get hleft).symm
  have hr := (Option.some_get hright).symm
  refine ⟨_, _, hl, hr, fun hashName => ?_⟩
  obtain ⟨hpairs, hunmatchedLeft, hunmatchedRight, -⟩ :=
    matchTypes_symmetric (s := surplus) ⟨_, rfl⟩ hl hr (fun _ => 0) hashName
  obtain ⟨-, -, -, hself⟩ := matchTypes_symmetric (s := surplus) ⟨_, rfl⟩ hl hr hashName hashName
  rw [hfound] at hpairs hunmatchedLeft hunmatchedRight
  rw [hdeclared] at hself
  exact ⟨hpairs, hunmatchedLeft, hunmatchedRight, congrArg Matching.pairs hself⟩

end Session

end AssemblyGraph
