import AssemblyGraph.Proofs.Matching.Carries
import AssemblyGraph.Proofs.Matching.Scan
import Mathlib.Data.List.Forall2

/-!
Matching registries that were built by one script.

Whatever turns two registries are built in, each of them carries the surface of
its script. If the scripts are equal, the types at one place are the same. So no
class of the left side is larger than on the right side, and if nothing else was
created there, the two sides list their types in one order.
-/

namespace AssemblyGraph

namespace Graph

variable {g : Graph}

/-! ### Sides that agree type by type -/

/-- Two lists whose types are the same one by one. -/
def SameInOrder (g : Graph) : List TypeId → List TypeId → Prop :=
  List.Forall₂ fun t u => g.isSameAs t u = true

theorem Shows.sameInOrder {made made' : List TypeId} {types : List SurfaceType}
    (h : g.Shows made types) (h' : g.Shows made' types) : g.SameInOrder made made' := by
  refine List.forall₂_iff_get.mpr ⟨h.length.trans h'.length.symm, fun i hi hi' => ?_⟩
  rw [isSameAs_comm]
  exact h.same h' (List.getElem?_eq_getElem hi) (List.getElem?_eq_getElem hi')

theorem SameInOrder.length_classIn {ts us : List TypeId} (h : g.SameInOrder ts us) (v : TypeId) :
    (g.classIn v ts).length = (g.classIn v us).length := by
  induction h with
  | nil => rfl
  | @cons t u ts us hsame _ ih =>
      have hclass : g.isSameAs v t = g.isSameAs v u := by
        rw [g.isSameAs_comm v t, g.isSameAs_comm v u, isSameAs_congr hsame]
      rw [classIn, classIn, List.filter_cons, List.filter_cons, hclass]
      split
      · exact congrArg (· + 1) ih
      · exact ih

/-- Every type takes the one in front of the other side. -/
theorem SameInOrder.pairUp_eq {left right : List TypeId} (h : g.SameInOrder left right) :
    g.pairUp left right = ⟨left.zip right, [], []⟩ := by
  induction h with
  | nil => rfl
  | cons hsame _ ih =>
      simp only [pairUp, List.find?_cons_of_pos hsame, List.eraseP_cons_of_pos hsame, ih,
        List.zip_cons_cons]

/-- If the right side has at least as many members of each class, nothing is left over on the
left side, and on the right side what it has more. -/
theorem MatchesByRank.of_length_le {left right : List TypeId} {found : Matching}
    (h : g.MatchesByRank left right found)
    (hle : ∀ t, (g.classIn t left).length ≤ (g.classIn t right).length) :
    found.unmatchedLeft = [] ∧ left.length + found.unmatchedRight.length = right.length := by
  have hleft : found.unmatchedLeft = [] := by
    refine List.eq_nil_iff_forall_not_mem.mpr fun t ht => ?_
    obtain ⟨k, hk, hright⟩ := (h.unmatchedLeft t).mp ht
    have hlt := hk.lt_length
    have hclass := hle t
    omega
  have hpairs := h.left_perm.length_eq
  have hpairs' := h.right_perm.length_eq
  rw [hleft] at hpairs
  simp only [List.length_append, List.length_map, List.length_nil] at hpairs hpairs'
  exact ⟨hleft, by omega⟩

/-- Two sides that agree up to their orders, and in the tokens too, agree in the orders of
their tokens. -/
theorem SameInOrder.sorted {ts us left right : List TypeId} (h : g.SameInOrder ts us)
    (tokens : ts.map g.token? = us.map g.token?) (hleft : left.Perm ts) (hright : right.Perm us)
    (ascendingLeft : left.Pairwise g.TokenLT) (ascendingRight : right.Pairwise g.TokenLT) :
    g.SameInOrder left right := by
  let Before (a b : Option Token) : Prop := ∃ x y, a = some x ∧ b = some y ∧ x < y
  have hbefore : ∀ {ts : List TypeId}, ts.Pairwise g.TokenLT →
      (ts.map g.token?).Pairwise Before := by
    intro ts hts
    refine List.pairwise_map.mpr (hts.imp ?_)
    rintro t u ⟨d, e, hd, he, hlt⟩
    exact ⟨d.token, e.token, by rw [token?, hd, Option.map_some],
      by rw [token?, he, Option.map_some], hlt⟩
  have hne : ∀ a b, Before a b → a ≠ b := by
    rintro _ _ ⟨x, y, rfl, rfl, hlt⟩ heq
    obtain rfl := Option.some_inj.mp heq
    exact UInt32.lt_irrefl _ hlt
  have hlists : left.map g.token? = right.map g.token? := by
    have hperm : (left.map g.token?).Perm (right.map g.token?) :=
      (hleft.map _).trans (tokens ▸ (hright.map _).symm)
    refine hperm.eq_of_pairwise (fun a b _ _ hab hba => ?_) (hbefore ascendingLeft)
      (hbefore ascendingRight)
    obtain ⟨x, y, rfl, rfl, hlt⟩ := hab
    obtain ⟨y', x', hy, hx, hlt'⟩ := hba
    cases hy
    cases hx
    exact absurd hlt' (UInt32.lt_asymm hlt)
  have hnodup : (right.map g.token?).Nodup := (hbefore ascendingRight).imp (hne _ _)
  obtain ⟨hlength, hsame⟩ := List.forall₂_iff_get.mp h
  refine List.forall₂_iff_get.mpr ⟨by simpa using congrArg List.length hlists, fun i hi hi' => ?_⟩
  -- the type on the right with the token of a type on the left is the one at its place
  obtain ⟨k, hk, hts⟩ := List.getElem_of_mem (hleft.mem_iff.mp (List.getElem_mem hi))
  have hk' : k < us.length := hlength ▸ hk
  have htoken : g.token? us[k] = g.token? right[i] := by
    have hplace := congrArg (·[k]?) tokens
    have hindex := congrArg (·[i]?) hlists
    simp only [List.getElem?_map, List.getElem?_eq_getElem hk, List.getElem?_eq_getElem hk',
      List.getElem?_eq_getElem hi, List.getElem?_eq_getElem hi', Option.map_some,
      Option.some_inj] at hplace hindex
    rw [← hplace, ← hindex, hts]
  have hmem : us[k] ∈ right := hright.mem_iff.mpr (List.getElem_mem hk')
  have hright' : us[k] = right[i] :=
    List.inj_on_of_nodup_map hnodup hmem (List.getElem_mem hi') htoken
  have hpair := hsame k hk hk'
  simp only [List.get_eq_getElem] at hpair ⊢
  rwa [hts, hright'] at hpair

end Graph

/-! ### Turns -/

namespace Bench

/-- Both registries carry the surfaces of their scripts, and no type was created twice. -/
structure Keeps (w : Bench) (left right : Surface) : Prop where
  distinct : (w.leftMade ++ (w.rightMade ++ w.extras)).Nodup
  carriesLeft : w.left.Carries w.graph w.leftMade [] left
  carriesRight : w.right.Carries w.graph w.rightMade w.extras right

variable {w w' : Bench} {left right : Surface}

theorem keeps_start (g : Graph) (leftModule rightModule : String) :
    (start g leftModule rightModule).Keeps .empty .empty := by
  have hleft := Registry.carries_create g leftModule
  have hright := Registry.carries_create (Registry.create g (.module leftModule)).2 rightModule
  have hkeeps := (Registry.keyed_create (Registry.create g (.module leftModule)).2
    (.module rightModule)).2.1
  rw [start]
  generalize Registry.create g (.module leftModule) = l at *
  generalize Registry.create l.2 (.module rightModule) = r at *
  exact ⟨List.nodup_nil, ⟨Graph.shows_nil r.2, hleft.stocks.frame hkeeps, hleft.numbered⟩, hright⟩

/-- New types are none of those that there are. -/
theorem Keeps.distinct_append (h : w.Keeps left right) {g : Graph} {own new : List TypeId}
    (ha : w.graph.Alters g own new) :
    ((w.leftMade ++ (w.rightMade ++ w.extras)) ++ new).Nodup := by
  refine List.nodup_append.mpr ⟨h.distinct, ha.nodup, fun t ht u hu => ?_⟩
  rintro rfl
  refine absurd (ha.dead t hu) ?_
  rcases List.mem_append.mp ht with ht | ht
  · exact h.carriesLeft.stocks.ne_none (List.mem_append_left _ ht)
  · exact h.carriesRight.stocks.ne_none ht

theorem Keeps.turn_left (h : w.Keeps left right) {call : BuildCall Nat Nat}
    (turn : w.turn? (.left call) = some w') : w'.Keeps (left.add call) right := by
  obtain ⟨b, hrun, rfl⟩ := Option.map_eq_some_iff.mp turn
  obtain ⟨hnodup, -, hdisjoint⟩ := List.nodup_append.mp h.distinct
  obtain ⟨ha, hcarries⟩ := BuildCall.carries_of_run h.carriesLeft hnodup hrun
  refine ⟨?_, hcarries, h.carriesRight.frame ha fun t ht hown => ?_⟩
  · refine List.Perm.nodup_iff ?_ |>.mp (h.distinct_append ha)
    show List.Perm _ ((w.leftMade ++ b.made) ++ (w.rightMade ++ w.extras))
    rw [List.append_assoc w.leftMade, List.append_assoc w.leftMade]
    exact List.perm_append_comm.append_left _
  · exact hdisjoint t hown t (List.mem_append_left _ ht) rfl

theorem Keeps.turn_right (h : w.Keeps left right) {call : BuildCall Nat Nat}
    (turn : w.turn? (.right call) = some w') : w'.Keeps left (right.add call) := by
  obtain ⟨b, hrun, rfl⟩ := Option.map_eq_some_iff.mp turn
  obtain ⟨-, hnodup, hdisjoint⟩ := List.nodup_append.mp h.distinct
  obtain ⟨ha, hcarries⟩ :=
    BuildCall.carries_of_run h.carriesRight (List.nodup_append.mp hnodup).1 hrun
  refine ⟨?_, h.carriesLeft.frame ha fun t ht hown => ?_, hcarries⟩
  · refine List.Perm.nodup_iff ?_ |>.mp (h.distinct_append ha)
    show List.Perm _ (w.leftMade ++ ((w.rightMade ++ b.made) ++ w.extras))
    rw [List.append_assoc, List.append_assoc, List.append_assoc]
    exact (List.perm_append_comm.append_left _).append_left _
  · exact hdisjoint t ht t (List.mem_append_left _ hown) rfl

theorem Keeps.turn_extra (h : w.Keeps left right) {call : BuildCall (Nat ⊕ Nat) Nat}
    (turn : w.turn? (.extra call) = some w') : w'.Keeps left right := by
  obtain ⟨b, hrun, rfl⟩ := Option.map_eq_some_iff.mp turn
  obtain ⟨-, hnodup, hdisjoint⟩ := List.nodup_append.mp h.distinct
  have hextras : ∀ t ∈ w.rightMade, t ∉ w.extras := fun t ht hextra =>
    (List.nodup_append.mp hnodup).2.2 t ht t hextra rfl
  obtain ⟨ha, hcarries⟩ := BuildCall.carries_of_extra h.carriesRight hextras hrun
  refine ⟨?_, h.carriesLeft.frame ha fun t ht hown => ?_, hcarries⟩
  · have hdistinct := h.distinct_append ha
    rwa [List.append_assoc, List.append_assoc] at hdistinct
  · exact hdisjoint t ht t (List.mem_append_right _ hown) rfl

/-- By induction on the turns. -/
theorem Keeps.run (h : w.Keeps left right) {turns : List Turn} (run : w.run? turns = some w') :
    w'.Keeps (left.addAll (turns.filterMap Turn.left?))
      (right.addAll (turns.filterMap Turn.right?)) := by
  induction turns generalizing w left right with
  | nil =>
      obtain rfl := Option.some_inj.mp run
      exact h
  | cons turn turns ih =>
      obtain ⟨w₁, hturn, hrun⟩ := Option.bind_eq_some_iff.mp run
      cases turn with
      | left call => exact ih (h.turn_left hturn) hrun
      | right call => exact ih (h.turn_right hturn) hrun
      | extra call => exact ih (h.turn_extra hturn) hrun

/-- Two registries that were built by one script, in whatever turns. Nothing is left over on
the left side, and on the right side as many types as were created besides the script, which
may be nested in types of the script. If there were none, the types of the two sides are
paired in the order in which they are declared, and nothing is left over. -/
theorem matchTypes_of_script (g : Graph) (leftModule rightModule : String) {turns : List Turn}
    {w : Bench} (run : (start g leftModule rightModule).run? turns = some w)
    (script : turns.filterMap Turn.left? = turns.filterMap Turn.right?)
    (hashName : String → UInt64) :
    let left := w.left.declared w.graph
    let right := w.right.declared w.graph
    let found := w.graph.matchTypes hashName w.left w.right
    left.Perm w.leftMade ∧ right.Perm (w.rightMade ++ w.extras) ∧
      found.unmatchedLeft = [] ∧ found.unmatchedRight.length = w.extras.length ∧
      (w.extras = [] → left.length = right.length ∧ found = ⟨left.zip right, [], []⟩) := by
  intro left right found
  have hkeeps := (keeps_start g leftModule rightModule).run run
  rw [script] at hkeeps
  have hcarries := hkeeps.carriesLeft
  have hcarries' := hkeeps.carriesRight
  have hleft : left.Perm w.leftMade := by
    simpa using hcarries.stocks.declared
  have hright : right.Perm (w.rightMade ++ w.extras) := hcarries'.stocks.declared
  have hsame : w.graph.SameInOrder w.leftMade w.rightMade :=
    hcarries.shows.sameInOrder hcarries'.shows
  have hfound : found = w.graph.pairUp left right := w.graph.matchTypes_eq_pairUp hashName _ _
  have hle : ∀ t, (w.graph.classIn t left).length ≤ (w.graph.classIn t right).length := by
    intro t
    calc (w.graph.classIn t left).length
        = (w.graph.classIn t w.leftMade).length := (hleft.filter _).length_eq
      _ = (w.graph.classIn t w.rightMade).length := hsame.length_classIn t
      _ ≤ (w.graph.classIn t (w.rightMade ++ w.extras)).length :=
          ((List.sublist_append_left _ _).filter _).length_le
      _ = (w.graph.classIn t right).length := ((hright.filter _).length_eq).symm
  have hrank : w.graph.MatchesByRank left right found := hfound ▸ w.graph.pairUp_byRank _ _
  obtain ⟨hunmatched, hcount⟩ := hrank.of_length_le hle
  have hlength := hsame.length_eq
  have hleftLength := hleft.length_eq
  have hrightLength := hright.length_eq
  rw [List.length_append] at hrightLength
  refine ⟨hleft, hright, hunmatched, by omega, fun hnone => ?_⟩
  obtain ⟨htokens, -⟩ := hcarries.numbered rfl
  obtain ⟨htokens', -⟩ := hcarries'.numbered hnone
  rw [hnone, List.append_nil] at hright
  have hsorted : w.graph.SameInOrder left right :=
    hsame.sorted (htokens.trans htokens'.symm) hleft hright
      hcarries.stocks.keyed.declared_ascending hcarries'.stocks.keyed.declared_ascending
  exact ⟨hsorted.length_eq, hfound.trans hsorted.pairUp_eq⟩

/-- A generic list with its enumerator, and a class with types nested in it two deep. -/
def libraryScript : List (BuildCall Nat Nat) := [
  .createType "Lib.Collections" "List`1" 0, .addGenericParam 0 "T",
  .createNested 0 "Enumerator" 0, .createType "Lib" "Util" 0, .createNested 2 "Helper" 0,
  .createNested 3 "Cache" 0]

/-- The library is built on the left side and then on the right side, with extra calls before
and after that. -/
def libraryTurns (before after : List (BuildCall (Nat ⊕ Nat) Nat)) : List Turn :=
  libraryScript.map .left ++ before.map .extra ++ libraryScript.map .right ++ after.map .extra

/-- The first extra type looks like one of the script, and the other one is nested in one. -/
theorem matchTypes_of_libraryScript :
    (∃ w, (start .empty "Lib.Ref.dll" "Lib.dll").run? (libraryTurns [] []) = some w ∧
      (w.graph.matchTypes nameHash w.left w.right).pairs =
        (w.left.declared w.graph).zip (w.right.declared w.graph)) ∧
    ∃ w, (start .empty "Lib.Ref.dll" "Lib.dll").run?
        (libraryTurns [.createType "Lib" "Util" 0]
          [.createNested (.inl 0) "Node" 0, .addGenericParam 1 "K"]) = some w ∧
      (w.graph.matchTypes nameHash w.left w.right).unmatchedLeft = [] ∧
      (w.graph.matchTypes nameHash w.left w.right).unmatchedRight.length = 2 := by
  have hplain : ((start .empty "Lib.Ref.dll" "Lib.dll").run? (libraryTurns [] [])).map
      (·.extras) = some [] := by decide +kernel
  have hextra : ((start .empty "Lib.Ref.dll" "Lib.dll").run?
      (libraryTurns [.createType "Lib" "Util" 0]
        [.createNested (.inl 0) "Node" 0, .addGenericParam 1 "K"])).map
      (·.extras.length) = some 2 := by decide +kernel
  obtain ⟨w, hrun, hextras⟩ := Option.map_eq_some_iff.mp hplain
  obtain ⟨w', hrun', hlength⟩ := Option.map_eq_some_iff.mp hextra
  obtain ⟨-, -, -, -, hpairs⟩ := matchTypes_of_script .empty _ _ hrun rfl nameHash
  obtain ⟨-, -, hleft, hright, -⟩ := matchTypes_of_script .empty _ _ hrun' rfl nameHash
  refine ⟨⟨w, hrun, ?_⟩, w', hrun', hleft, hright.trans hlength⟩
  rw [(hpairs hextras).2]

end Bench

end AssemblyGraph
