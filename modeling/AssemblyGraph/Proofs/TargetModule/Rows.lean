import AssemblyGraph.Proofs.OrderedMap
import AssemblyGraph.Proofs.TargetModule.Cache
import AssemblyGraph.Proofs.Token
import Mathlib.Data.List.Nodup

/-!
The rows that a module makes, however many they are.

The counter of a module goes on beyond the rows that a table can number, and
from there on rows are given tokens that earlier rows have. The table keeps the
last row of each token. What is known of a module with fewer rows than that is a
case of this.
-/

namespace AssemblyGraph

namespace Referral

/-- The row that the request has made: the one that it is answered with, if the counter of the
module has moved on. -/
def made? (r : Referral) : Option MemberRef :=
  if r.after.nextMemberRef = r.module.nextMemberRef then none else r.row?

/-- A request makes the row that it is answered with, or changes nothing. In the second case
it is not answered with a row unless that is remembered. -/
theorem made?_cases (r : Referral) :
    (r.made? = none ∧ r.after = r.module ∧
      ∀ row, r.row? = some row → ∃ key : ImportKey, r.module.importCache[key]? = some row) ∨
    ∃ t d key, r.Imports t d ∧ r.made? = some (r.newRow t d) ∧ r.row? = some (r.newRow t d) ∧
      r.after = r.withRow key (r.newRow t d) := by
  rcases r.refer_cases with
    ⟨-, hrow, hafter⟩ | ⟨key, row, -, hrow, -, hcache, hafter⟩ |
      ⟨t, d, key, himports, -, hrow, -, hafter⟩
  · refine .inl ⟨by rw [made?, hafter, if_pos rfl], hafter, fun row hrow' => ?_⟩
    rw [hrow] at hrow'
    cases hrow'
  · refine .inl ⟨by rw [made?, hafter, if_pos rfl], hafter, fun row' hrow' => ?_⟩
    obtain rfl := Option.some_inj.mp (hrow.symm.trans hrow')
    exact ⟨key, hcache⟩
  · refine .inr ⟨t, d, key, himports, ?_, hrow, hafter⟩
    rw [made?, hafter, nextMemberRef_withRow, if_neg (by simp), hrow]

end Referral

namespace TargetModule

/-- Every row that requests have made, also those that were overwritten. -/
def everyRow (requests : List Referral) : List MemberRef :=
  requests.filterMap Referral.made?

theorem everyRow_append (requests requests' : List Referral) :
    everyRow (requests ++ requests') = everyRow requests ++ everyRow requests' :=
  List.filterMap_append

theorem everyRow_concat (requests : List Referral) (r : Referral) :
    everyRow (requests ++ [r]) = everyRow requests ++ r.made?.toList := by
  rw [everyRow_append]
  cases hmade : r.made? <;> simp [everyRow, hmade]

/-- The rows of a module are numbered as they were made, and its table and its cache hold no
others. -/
structure Numbered (requests : List Referral) (m : TargetModule) : Prop where
  next : m.nextMemberRef = .ofNat ((everyRow requests).length + 1)
  tokens : (everyRow requests).map (·.token) =
    (List.range (everyRow requests).length).map fun i => .ofRow .memberRef (i + 1)
  last : ∀ token, m.memberRef? token = (everyRow requests).reverse.find? (·.token = token)
  cached : ∀ (key : ImportKey) (row : MemberRef), m.importCache[key]? = some row →
    row ∈ everyRow requests
  answered : ∀ r ∈ requests, ∀ row, r.row? = some row → row ∈ everyRow requests

theorem numbered_create (name : String) (config : Config) :
    Numbered [] (create name config) where
  next := rfl
  tokens := rfl
  last := by simp [everyRow, create, memberRef?]
  cached := by simp [create]
  answered := by simp

namespace Numbered

variable {requests : List Referral} {r : Referral} {m : TargetModule}

/-- The row that a request makes has the next token, and hides an earlier row with that
token. -/
theorem request_of_made (h : Numbered requests r.module) {key : ImportKey} {row : MemberRef}
    (hmade : r.made? = some row) (hrow : r.row? = some row)
    (htoken : row.token = .inTable .memberRef r.module.nextMemberRef)
    (hafter : r.after = r.withRow key row) : Numbered (requests ++ [r]) r.after := by
  have hrows : everyRow (requests ++ [r]) = everyRow requests ++ [row] := by
    rw [everyRow_concat, hmade]
    rfl
  refine ⟨?_, ?_, fun token => ?_, fun key' row' hcached => ?_, fun r' hr' row' hrow' => ?_⟩
  · rw [hafter, Referral.nextMemberRef_withRow, h.next, hrows, List.length_append,
      List.length_singleton, UInt32.ofNat_add (_ + 1) 1]
    rfl
  · rw [hrows, List.map_append, h.tokens, List.length_append, List.length_singleton,
      List.range_succ, List.map_append, List.map_singleton, List.map_singleton, htoken, h.next]
    rfl
  · rw [hafter, memberRef?, Referral.memberRefs_withRow, OrderedMap.getElem?_insert, hrows,
      List.reverse_append, List.reverse_singleton, List.singleton_append, List.find?_cons,
      ← memberRef?, h.last]
    by_cases htoken' : row.token = token <;> simp [htoken']
  · rw [hafter, Referral.getElem?_importCache_withRow] at hcached
    rw [hrows]
    split at hcached
    · obtain rfl := Option.some_inj.mp hcached
      exact List.mem_append_right _ (List.mem_singleton_self row)
    · exact List.mem_append_left _ (h.cached key' row' hcached)
  · rw [hrows]
    rcases List.mem_append.mp hr' with hr' | hr'
    · exact List.mem_append_left _ (h.answered r' hr' row' hrow')
    · obtain rfl := List.mem_singleton.mp hr'
      obtain rfl := Option.some_inj.mp (hrow.symm.trans hrow')
      exact List.mem_append_right _ (List.mem_singleton_self row)

theorem request (h : Numbered requests r.module) : Numbered (requests ++ [r]) r.after := by
  rcases r.made?_cases with ⟨hmade, hafter, hanswer⟩ | ⟨t, d, key, -, hmade, hrow, hafter⟩
  · have hrows : everyRow (requests ++ [r]) = everyRow requests := by
      rw [everyRow_concat, hmade]
      exact List.append_nil _
    rw [hafter]
    refine ⟨hrows ▸ h.next, hrows ▸ h.tokens, hrows ▸ h.last, hrows ▸ h.cached, ?_⟩
    intro r' hr' row hrow
    rw [hrows]
    rcases List.mem_append.mp hr' with hr' | hr'
    · exact h.answered r' hr' row hrow
    · obtain rfl := List.mem_singleton.mp hr'
      obtain ⟨key, hcached⟩ := hanswer row hrow
      exact h.cached key row hcached
  · exact h.request_of_made hmade hrow rfl hafter

theorem token_of_getElem? (h : Numbered requests m) {i : Nat} {row : MemberRef}
    (hrow : (everyRow requests)[i]? = some row) : row.token = .ofRow .memberRef (i + 1) := by
  have hlt := (List.getElem?_eq_some_iff.mp hrow).1
  have htokens := congrArg (·[i]?) h.tokens
  simp only [List.getElem?_map, hrow, List.getElem?_range hlt, Option.map_some,
    Option.some_inj] at htokens
  exact htokens

/-- The tokens of the rows differ exactly as long as there are no more rows than the 24 bits
of a row can tell apart. -/
theorem nodup_tokens_iff (h : Numbered requests m) :
    ((everyRow requests).map (·.token)).Nodup ↔ (everyRow requests).length ≤ 2 ^ 24 := by
  rw [h.tokens, List.nodup_map_iff_inj_on List.nodup_range]
  simp only [List.mem_range, Token.ofRow_eq_iff]
  constructor
  · intro hinj
    by_contra hmany
    have hsame := hinj 0 (by omega) (2 ^ 24) (by omega) (by decide)
    omega
  · intro hfew i hi j hj hmod
    omega

/-- A row of the table has the number zero exactly if there are more rows than a table can
number. -/
theorem row_ne_zero_iff (h : Numbered requests m) :
    (∀ row ∈ everyRow requests, row.token.row ≠ 0) ↔ (everyRow requests).length < 2 ^ 24 := by
  have hzero : ∀ (i : Nat) (row : MemberRef), (everyRow requests)[i]? = some row →
      (row.token.row = 0 ↔ (i + 1) % 2 ^ 24 = 0) := by
    intro i row hrow
    rw [h.token_of_getElem? hrow, ← UInt32.toNat_inj, Token.toNat_row_ofRow]
    rfl
  constructor
  · intro hall
    by_contra hmany
    have hlt : 2 ^ 24 - 1 < (everyRow requests).length := by omega
    have hrow := List.getElem?_eq_getElem hlt
    exact hall _ (List.mem_of_getElem? hrow) ((hzero _ _ hrow).mpr (by decide))
  · intro hfew row hmem hnull
    obtain ⟨i, hrow⟩ := List.mem_iff_getElem?.mp hmem
    have hlt := (List.getElem?_eq_some_iff.mp hrow).1
    have hmod := (hzero i row hrow).mp hnull
    omega

/-- As long as the tokens differ, every row that a request was answered with is found. -/
theorem memberRef?_of_row? (h : Numbered requests m)
    (few : (everyRow requests).length ≤ 2 ^ 24) (hr : r ∈ requests) {row : MemberRef}
    (hrow : r.row? = some row) : m.memberRef? row.token = some row := by
  have hnodup := h.nodup_tokens_iff.mpr few
  have hmem : row ∈ everyRow requests := h.answered r hr row hrow
  rw [h.last]
  cases hfind : (everyRow requests).reverse.find? (·.token = row.token) with
  | none => simpa using List.find?_eq_none.mp hfind row (List.mem_reverse.mpr hmem)
  | some row' =>
      have hmem' := List.mem_reverse.mp (List.mem_of_find?_eq_some hfind)
      have htoken : row'.token = row.token := by simpa using List.find?_some hfind
      rw [List.inj_on_of_nodup_map hnodup hmem' hmem htoken]

end Numbered

theorem Serves.numbered {name : String} {config : Config} {requests : List Referral}
    {m : TargetModule} (h : (create name config).Serves requests m) : Numbered requests m := by
  induction h with
  | start => exact numbered_create name config
  | next _ ih => exact ih.request

end TargetModule

end AssemblyGraph
