import AssemblyGraph.Proofs.Matching.Scan
import AssemblyGraph.Proofs.Session.Keyed

/-!
Matching the registries of a session.

In a reachable state the declared types of a registry are listed in ascending
order of their tokens, so ranks are counted in that order, and what is
a sublist of the declared types is listed in it too.
-/

namespace AssemblyGraph.Session

/-- In every reachable state two registries are matched by rank, with ranks in
the order of tokens. No type is lost or used twice, each list is in the order
of tokens, what is left over on one side has no equal left over on the other,
and the hashes have no part in the answer. -/
theorem matchTypes_byRank {s : Session} (reachable : s.Reachable) {left right : String}
    {l r : Registry} (hl : s.registries[left]? = some l) (hr : s.registries[right]? = some r)
    (hashName : String → UInt64) :
    let g := s.graph
    let found := g.matchTypes hashName l r
    (l.declared g).Pairwise g.TokenLT ∧ (r.declared g).Pairwise g.TokenLT ∧
      g.MatchesByRank (l.declared g) (r.declared g) found ∧
      (found.pairs.map (·.1) ++ found.unmatchedLeft).Nodup ∧
      (found.pairs.map (·.2) ++ found.unmatchedRight).Nodup ∧
      (found.pairs.map (·.1)).Pairwise g.TokenLT ∧
      found.unmatchedLeft.Pairwise g.TokenLT ∧ found.unmatchedRight.Pairwise g.TokenLT ∧
      (∀ t ∈ found.unmatchedLeft, ∀ u ∈ found.unmatchedRight,
        g.sameIdentity (some t) (some u) = false) ∧
      ∀ hashName' : String → UInt64, g.matchTypes hashName' l r = found := by
  intro g found
  have hpairUp : found = g.pairUp (l.declared g) (r.declared g) :=
    g.matchTypes_eq_pairUp hashName l r
  have hrank : g.MatchesByRank (l.declared g) (r.declared g) found :=
    hpairUp ▸ g.pairUp_byRank _ _
  have hleft : (l.declared g).Pairwise g.TokenLT :=
    (keyed_of_reachable reachable left l hl).declared_ascending
  have hright : (r.declared g).Pairwise g.TokenLT :=
    (keyed_of_reachable reachable right r hr).declared_ascending
  have hnodup : ∀ {ts : List TypeId}, ts.Pairwise g.TokenLT → ts.Nodup :=
    fun h => h.imp Graph.TokenLT.ne
  refine ⟨hleft, hright, hrank, ?_, ?_, ?_, ?_, ?_, ?_, ?_⟩
  · exact hrank.left_perm.nodup_iff.mpr (hnodup hleft)
  · exact hrank.right_perm.nodup_iff.mpr (hnodup hright)
  · exact hleft.sublist hrank.pairs_sublist
  · exact hleft.sublist hrank.unmatchedLeft_sublist
  · exact hright.sublist hrank.unmatchedRight_sublist
  · intro t ht u hu
    exact hrank.not_same_of_unmatched ht hu
  · intro hashName'
    rw [hpairUp, Graph.matchTypes_eq_pairUp]

/-- Two registries with three and two top-level types of one name, and a nested
type in each of them. -/
def surplus : Session :=
  empty.run [
    .newRegistry (.module "left") "left", .newRegistry (.module "right") "right",
    .createType "left" "N" "T" 0 (some "t"), .createType "left" "N" "T" 0 none,
    .createNested "left" "t" "U" 0 none, .createType "left" "N" "T" 0 none,
    .createType "right" "N" "T" 0 none, .createType "right" "N" "T" 0 (some "t"),
    .createNested "right" "t" "U" 0 none]

/-- The last of the three types is left over, under every hash of names. -/
theorem matchTypes_surplus :
    ∃ l r, surplus.registries["left"]? = some l ∧ surplus.registries["right"]? = some r ∧
      ∀ hashName, surplus.graph.matchTypes hashName l r =
        ⟨[(⟨12⟩, ⟨16⟩), (⟨13⟩, ⟨17⟩), (⟨14⟩, ⟨18⟩)], [⟨15⟩], []⟩ := by
  have hleft : surplus.registries["left"]?.isSome := by decide +kernel
  have hright : surplus.registries["right"]?.isSome := by decide +kernel
  -- a hash that tells nothing apart is enough to see the answer
  have hanswer : ∀ (hl : surplus.registries["left"]?.isSome)
      (hr : surplus.registries["right"]?.isSome),
      surplus.graph.matchTypes (fun _ => 0) (surplus.registries["left"]?.get hl)
        (surplus.registries["right"]?.get hr) =
        ⟨[(⟨12⟩, ⟨16⟩), (⟨13⟩, ⟨17⟩), (⟨14⟩, ⟨18⟩)], [⟨15⟩], []⟩ := by
    decide +kernel
  have hl := (Option.some_get hleft).symm
  have hr := (Option.some_get hright).symm
  refine ⟨_, _, hl, hr, fun hashName => ?_⟩
  obtain ⟨-, -, -, -, -, -, -, -, -, hhash⟩ :=
    matchTypes_byRank (s := surplus) ⟨_, rfl⟩ hl hr (fun _ => 0)
  rw [hhash hashName]
  exact hanswer hleft hright

end AssemblyGraph.Session
