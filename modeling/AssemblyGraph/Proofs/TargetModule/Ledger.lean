import AssemblyGraph.Proofs.OrderedMap
import AssemblyGraph.Proofs.TargetModule.Cache
import AssemblyGraph.Proofs.Token
import Mathlib.Data.Finset.Card

/-!
What the member table of a module holds.

As long as a module has made fewer rows than a table can number, its counter
and its member table only restate the requests that it has had: the table lists
the rows in the order in which they were made, and the counter numbers the next
one.
-/

namespace AssemblyGraph

namespace TargetModule

/-- The rows that requests have made. -/
def rowsMade (requests : List Referral) : List MemberRef :=
  requests.filterMap Referral.created?

theorem rowsMade_concat (requests : List Referral) (r : Referral) :
    rowsMade (requests ++ [r]) = rowsMade requests ++ r.created?.toList := by
  rw [rowsMade, rowsMade, List.filterMap_append]
  cases hcreated : r.created? <;> simp [hcreated]

/-- The books of a module agree with the requests that it has had. -/
structure Ledger (requests : List Referral) (m : TargetModule) : Prop where
  cache : Remembers requests m
  next : m.nextMemberRef = .ofNat ((rowsMade requests).length + 1)
  table : m.memberRefs.toList = (rowsMade requests).map fun row => (row.token, row)
  tokens : ∀ (i : Nat) (row : MemberRef), (rowsMade requests)[i]? = some row →
    row.token = .ofRow .memberRef (i + 1)
  held : ∀ (key : ImportKey) (row : MemberRef), m.importCache[key]? = some row →
    row ∈ rowsMade requests

theorem ledger_create (name : String) (config : Config) : Ledger [] (create name config) where
  cache := remembers_create name config
  next := rfl
  table := rfl
  tokens := by simp [rowsMade]
  held := by simp [create]

namespace Ledger

variable {requests : List Referral} {m : TargetModule}

theorem memberRefCount (h : Ledger requests m) :
    m.memberRefCount = (rowsMade requests).length := by
  rw [TargetModule.memberRefCount, ← Std.TreeMap.length_toList, h.table, List.length_map]

theorem memberRef?_eq_some_iff (h : Ledger requests m) {token : Token} {row : MemberRef} :
    m.memberRef? token = some row ↔ row ∈ rowsMade requests ∧ row.token = token := by
  rw [memberRef?, ← Std.TreeMap.mem_toList_iff_getElem?_eq_some, h.table, List.mem_map]
  constructor
  · rintro ⟨row', hmem, heq⟩
    cases heq
    exact ⟨hmem, rfl⟩
  · rintro ⟨hmem, rfl⟩
    exact ⟨row, hmem, rfl⟩

/-- The token that the counter gives out next is not that of a row. -/
theorem next_ne (h : Ledger requests m) (few : (rowsMade requests).length < 2 ^ 24)
    {row : MemberRef} (hrow : row ∈ rowsMade requests) :
    row.token ≠ .inTable .memberRef m.nextMemberRef := by
  obtain ⟨i, hi⟩ := List.mem_iff_getElem?.mp hrow
  have hlt : i < (rowsMade requests).length := (List.getElem?_eq_some_iff.mp hi).1
  rw [h.tokens i row hi, h.next]
  exact (Token.ofRow_succ_ne .memberRef hlt few).symm

/-- A row with the next token is one more. -/
theorem memberRefCount_withRow {r : Referral} (h : Ledger requests r.module)
    (few : (rowsMade requests).length < 2 ^ 24) (key : ImportKey) {row : MemberRef}
    (htoken : row.token = .inTable .memberRef r.module.nextMemberRef) :
    r.module.memberRef? row.token = none ∧
      (r.withRow key row).memberRefCount = r.module.memberRefCount + 1 := by
  have hfree : r.module.memberRef? row.token = none := by
    cases hheld : r.module.memberRef? row.token with
    | none => rfl
    | some row' =>
        obtain ⟨hmem, htoken'⟩ := h.memberRef?_eq_some_iff.mp hheld
        exact absurd (htoken'.trans htoken) (h.next_ne few hmem)
  refine ⟨hfree, ?_⟩
  have hnot : r.module.memberRefs.contains row.token = false := by
    rw [Std.TreeMap.contains_eq_isSome_getElem?, ← memberRef?, hfree]
    rfl
  rw [TargetModule.memberRefCount, Referral.memberRefs_withRow, Std.TreeMap.size_insert, hnot]
  rfl

/-- A row that is remembered is answered again and changes nothing. -/
theorem created?_of_remembered (h : Ledger requests m) {r : Referral} (now : r.module = m)
    {key : ImportKey} {row : MemberRef} (hrow : r.row? = some row)
    (remembered : m.importCache[key]? = some row) : r.created? = none := by
  have hheld : r.module.memberRef? row.token = some row := by
    rw [now]
    exact h.memberRef?_eq_some_iff.mpr ⟨h.held key row remembered, rfl⟩
  simp [Referral.created?, hrow, hheld]

/-- A row with the next token is new. -/
theorem created?_of_new (h : Ledger requests m) (few : (rowsMade requests).length < 2 ^ 24)
    {r : Referral} (now : r.module = m) {row : MemberRef} (hrow : r.row? = some row)
    (htoken : row.token = .inTable .memberRef m.nextMemberRef) : r.created? = some row := by
  have hfree : r.module.memberRef? row.token ≠ some row := by
    rw [now]
    intro hmem
    exact h.next_ne few (h.memberRef?_eq_some_iff.mp hmem).1 htoken
  simp [Referral.created?, hrow, hfree]

/-- A request that makes no row keeps the books as they are. -/
theorem request_of_unchanged {r : Referral} (h : Ledger requests r.module)
    (hcreated : r.created? = none) (hafter : r.after = r.module) :
    Ledger (requests ++ [r]) r.after := by
  have hrows : rowsMade (requests ++ [r]) = rowsMade requests := by
    rw [rowsMade_concat, hcreated]
    exact List.append_nil _
  have hcache := h.cache.request
  rw [hafter] at hcache ⊢
  exact ⟨hcache, hrows ▸ h.next, hrows ▸ h.table, hrows ▸ h.tokens, hrows ▸ h.held⟩

/-- A request that makes a row enters it at the end of the table. -/
theorem request_of_new {r : Referral} (h : Ledger requests r.module)
    (few : (rowsMade requests).length + 1 < 2 ^ 24) {key : ImportKey} {row : MemberRef}
    (hcreated : r.created? = some row)
    (htoken : row.token = .inTable .memberRef r.module.nextMemberRef)
    (hafter : r.after = r.withRow key row) : Ledger (requests ++ [r]) r.after := by
  have hrows : rowsMade (requests ++ [r]) = rowsMade requests ++ [row] := by
    rw [rowsMade_concat, hcreated]
    rfl
  have hnext : row.token = .ofRow .memberRef ((rowsMade requests).length + 1) := by
    rw [htoken, h.next]
    rfl
  have hcache := h.cache.request
  rw [hafter] at hcache ⊢
  refine ⟨hcache, ?_, ?_, ?_, ?_⟩
  · rw [hrows, Referral.nextMemberRef_withRow, h.next, List.length_append,
      List.length_singleton, UInt32.ofNat_add (_ + 1) 1]
    rfl
  · -- the next token is greater than all that were given out, so its row comes last
    have hlast : ∀ entry ∈ r.module.memberRefs.toList, compare entry.1 row.token = .lt := by
      intro entry hentry
      rw [h.table] at hentry
      obtain ⟨row', hmem, rfl⟩ := List.mem_map.mp hentry
      obtain ⟨i, hi⟩ := List.mem_iff_getElem?.mp hmem
      have hlt := (List.getElem?_eq_some_iff.mp hi).1
      rw [h.tokens i row' hi, hnext]
      exact Token.compare_ofRow .memberRef (by omega) few
    rw [hrows, Referral.memberRefs_withRow, OrderedMap.toList_insert_of_last hlast, h.table,
      List.map_append]
    rfl
  · intro i row' hi
    rw [hrows] at hi
    rcases Nat.lt_trichotomy i (rowsMade requests).length with hlt | rfl | hgt
    · rw [List.getElem?_append_left hlt] at hi
      exact h.tokens i row' hi
    · rw [List.getElem?_concat_length] at hi
      obtain rfl := Option.some_inj.mp hi
      exact hnext
    · have hend : (rowsMade requests ++ [row]).length ≤ i := by
        rw [List.length_append, List.length_singleton]
        omega
      rw [List.getElem?_eq_none hend] at hi
      cases hi
  · intro key' row' hrow'
    rw [Referral.getElem?_importCache_withRow] at hrow'
    rw [hrows]
    split at hrow'
    · obtain rfl := Option.some_inj.mp hrow'
      exact List.mem_append_right _ (List.mem_singleton_self row)
    · exact List.mem_append_left _ (h.held key' row' hrow')

/-- One request keeps the books in order. -/
theorem request {r : Referral} (h : Ledger requests r.module)
    (few : (rowsMade (requests ++ [r])).length < 2 ^ 24) :
    Ledger (requests ++ [r]) r.after := by
  rw [rowsMade_concat, List.length_append] at few
  rcases r.refer_cases with
    ⟨-, hrow, hafter⟩ | ⟨key, row, -, hrow, -, hcache, hafter⟩ | ⟨t, d, key, -, -, hrow, -, hafter⟩
  · have hcreated : r.created? = none := by simp [Referral.created?, hrow]
    exact h.request_of_unchanged hcreated hafter
  · exact h.request_of_unchanged (h.created?_of_remembered rfl hrow hcache) hafter
  · have hcreated : r.created? = some (r.newRow t d) :=
      h.created?_of_new (Nat.lt_of_le_of_lt (Nat.le_add_right _ _) few) rfl hrow rfl
    rw [hcreated] at few
    exact h.request_of_new few hcreated rfl hafter

/-- A row that a request is answered with can be looked up afterwards. -/
theorem memberRef?_of_row? {r : Referral} (h : Ledger requests r.module)
    (few : (rowsMade (requests ++ [r])).length < 2 ^ 24) {row : MemberRef}
    (hrow : r.row? = some row) : r.after.memberRef? row.token = some row := by
  have hfew := few
  rw [rowsMade_concat, List.length_append] at hfew
  refine (h.request few).memberRef?_eq_some_iff.mpr ⟨?_, rfl⟩
  rw [rowsMade_concat, List.mem_append]
  rcases r.refer_cases with
    ⟨-, hnone, -⟩ | ⟨key, row', -, hrow', -, hcache, -⟩ | ⟨t, d, key, -, -, hrow', -, -⟩
  · rw [hrow] at hnone
    cases hnone
  · obtain rfl := Option.some_inj.mp (hrow.symm.trans hrow')
    exact .inl (h.held key row hcache)
  · obtain rfl := Option.some_inj.mp (hrow.symm.trans hrow')
    have hcreated := h.created?_of_new (by omega) rfl hrow rfl
    exact .inr (by simp [hcreated])

/-- The words of the tokens that were given out follow each other. -/
theorem tokens_eq (h : Ledger requests m) (few : (rowsMade requests).length < 2 ^ 24) :
    (rowsMade requests).map (·.token.value.toNat) =
      (List.range (rowsMade requests).length).map (0x0A000001 + ·) := by
  refine List.ext_getElem (by simp) fun i hi _ => ?_
  have hlt : i < (rowsMade requests).length := by simpa using hi
  have htoken := h.tokens i _ (List.getElem?_eq_getElem hlt)
  have hvalue := Token.toNat_ofRow .memberRef (n := i + 1) (by omega)
  rw [List.getElem_map, List.getElem_map, List.getElem_range, htoken, hvalue]
  show 0x0A * 2 ^ 24 + (i + 1) = 0x0A000001 + i
  omega

/-! ### Which imports make a row -/

theorem created?_of_known {r : Referral} (h : Ledger requests r.module)
    (caches : r.module.cachesImports = true) {key : ImportKey} (hkey : r.importedKey? = some key)
    (known : key ∈ keysImported requests) : r.created? = none := by
  obtain ⟨r', hr', hkey'⟩ := List.mem_filterMap.mp known
  obtain ⟨-, hcache, -⟩ := h.cache.answer_of_known caches hkey hr' hkey'
  obtain ⟨row, hrow⟩ := Option.isSome_iff_exists.mp (Referral.isSome_row?_of_importedKey? hkey)
  rw [hrow] at hcache
  exact h.created?_of_remembered rfl hrow hcache

theorem created?_of_first {r : Referral} (h : Ledger requests r.module)
    (few : (rowsMade requests).length < 2 ^ 24) {key : ImportKey}
    (hkey : r.importedKey? = some key)
    (first : r.module.cachesImports = true → key ∉ keysImported requests) :
    r.created? = r.row? := by
  obtain ⟨t, d, -, hrow⟩ := h.cache.answer_of_first hkey first
  rw [hrow]
  exact h.created?_of_new few rfl hrow rfl

theorem created?_of_no_key {r : Referral} (h : r.importedKey? = none) : r.created? = none := by
  have hrow : r.row? = none := by
    rcases r.refer_cases with ⟨-, hrow, -⟩ | ⟨key, row, hkey, -⟩ | ⟨t, d, key, -, hkey, -⟩
    · exact hrow
    · rw [h] at hkey
      cases hkey
    · rw [h] at hkey
      cases hkey
  simp [Referral.created?, hrow]

end Ledger

/-! ### Whole histories -/

section Serves

variable {name : String} {config : Config} {requests : List Referral} {m : TargetModule}

theorem length_rowsMade_le (before after : List Referral) :
    (rowsMade before).length ≤ (rowsMade (before ++ after)).length := by
  rw [rowsMade, rowsMade, List.filterMap_append, List.length_append]
  exact Nat.le_add_right _ _

theorem Serves.ledger (h : (create name config).Serves requests m)
    (few : (rowsMade requests).length < 2 ^ 24) : Ledger requests m := by
  induction h with
  | start => exact ledger_create name config
  | next _ ih =>
      have hfew := Nat.lt_of_le_of_lt (length_rowsMade_le _ _) few
      exact (ih hfew).request few

/-- Without a cache every import makes a row. -/
theorem Serves.length_rowsMade (h : (create name config).Serves requests m)
    (few : (rowsMade requests).length < 2 ^ 24) (caches : m.cachesImports = false) :
    (rowsMade requests).length = (keysImported requests).length := by
  induction h with
  | start => rfl
  | @next requests r hserves ih =>
      have hfew := Nat.lt_of_le_of_lt (length_rowsMade_le _ _) few
      rw [r.settings_after.2] at caches
      rw [rowsMade_concat, keysImported_concat, List.length_append, List.length_append,
        ih hfew caches]
      cases hkey : r.importedKey? with
      | none => rw [Ledger.created?_of_no_key hkey, Option.toList_none, Option.toList_none]; rfl
      | some key =>
          obtain ⟨row, hrow⟩ :=
            Option.isSome_iff_exists.mp (Referral.isSome_row?_of_importedKey? hkey)
          have hcreated := (hserves.ledger hfew).created?_of_first hfew hkey
            (fun hcaches => by rw [caches] at hcaches; cases hcaches)
          rw [hcreated, hrow]
          rfl

/-- A request of a module with a cache makes a row exactly for a key that is new. -/
theorem Ledger.length_rowsMade_concat {requests : List Referral} {r : Referral}
    (h : Ledger requests r.module) (few : (rowsMade requests).length < 2 ^ 24)
    (caches : r.module.cachesImports = true)
    (before : (rowsMade requests).length = (keysImported requests).toFinset.card) :
    (rowsMade (requests ++ [r])).length = (keysImported (requests ++ [r])).toFinset.card := by
  rw [rowsMade_concat, keysImported_concat, List.length_append, before]
  cases hkey : r.importedKey? with
  | none =>
      rw [Ledger.created?_of_no_key hkey, Option.toList_none, Option.toList_none,
        List.append_nil]
      rfl
  | some key =>
      have hkeys : (keysImported requests ++ (some key).toList).toFinset =
          insert key (keysImported requests).toFinset := by
        simp
      rw [hkeys]
      by_cases hknown : key ∈ keysImported requests
      · rw [h.created?_of_known caches hkey hknown,
          Finset.insert_eq_of_mem (List.mem_toFinset.mpr hknown)]
        rfl
      · obtain ⟨row, hrow⟩ :=
          Option.isSome_iff_exists.mp (Referral.isSome_row?_of_importedKey? hkey)
        rw [h.created?_of_first few hkey fun _ => hknown, hrow,
          Finset.card_insert_of_notMem (by rwa [List.mem_toFinset])]
        rfl

/-- With a cache there is one row for each key. -/
theorem Serves.card_keysImported (h : (create name config).Serves requests m)
    (few : (rowsMade requests).length < 2 ^ 24) (caches : m.cachesImports = true) :
    (rowsMade requests).length = (keysImported requests).toFinset.card := by
  induction h with
  | start => rfl
  | @next requests r hserves ih =>
      have hfew := Nat.lt_of_le_of_lt (length_rowsMade_le _ _) few
      rw [r.settings_after.2] at caches
      exact (hserves.ledger hfew).length_rowsMade_concat hfew caches (ih hfew caches)

/-- So few keys make few rows. -/
theorem Serves.length_rowsMade_of_card (h : (create name config).Serves requests m)
    (few : (keysImported requests).toFinset.card < 2 ^ 24) (caches : m.cachesImports = true) :
    (rowsMade requests).length = (keysImported requests).toFinset.card := by
  induction h with
  | start => rfl
  | @next requests r hserves ih =>
      rw [r.settings_after.2] at caches
      have hsubset :
          (keysImported requests).toFinset ⊆ (keysImported (requests ++ [r])).toFinset := by
        rw [keysImported_concat, List.toFinset_append]
        exact Finset.subset_union_left
      have hcard := Nat.lt_of_le_of_lt (Finset.card_le_card hsubset) few
      have hrows := ih hcard caches
      have hfew : (rowsMade requests).length < 2 ^ 24 := hrows ▸ hcard
      exact (hserves.ledger hfew).length_rowsMade_concat hfew caches hrows

/-- A row says under which key it was imported. -/
theorem Serves.key_of_row {r : Referral} (h : (create name config).Serves requests r.module)
    (caches : r.module.cachesImports = true) {key : ImportKey} (hkey : r.importedKey? = some key)
    {row : MemberRef} (hrow : r.row? = some row) :
    key = ⟨row.declaringOrigin, row.foreignToken⟩ := by
  have hfirst : (firstFor requests key r).importedKey? = some key := by
    rcases firstFor_cases requests key r with hnow | ⟨-, hfirst⟩
    · rw [hnow, hkey]
    · exact hfirst
  obtain ⟨t, d, himports, hkey₁⟩ := Referral.importedKey?_eq_some_iff.mp hfirst
  rw [h.row?_eq_first caches hkey, Referral.row?_uncached_of_imports himports] at hrow
  rw [← Option.some_inj.mp hrow]
  exact hkey₁

/-- Two imports of a module with a cache are answered with the same token if and only if they
are imports of the same key. -/
theorem Serves.token_eq_iff (h : (create name config).Serves requests m)
    (few : (rowsMade requests).length < 2 ^ 24) (caches : m.cachesImports = true)
    {r r' : Referral} (hr : r ∈ requests) (hr' : r' ∈ requests) {key key' : ImportKey}
    (hkey : r.importedKey? = some key) (hkey' : r'.importedKey? = some key')
    {row row' : MemberRef} (hrow : r.row? = some row) (hrow' : r'.row? = some row') :
    row.token = row'.token ↔ key = key' := by
  have hledger := h.ledger few
  have hheld := hledger.cache.known caches r hr key hkey
  have hheld' := hledger.cache.known caches r' hr' key' hkey'
  rw [hrow] at hheld
  rw [hrow'] at hheld'
  have hkeyOf : ∀ r ∈ requests, ∀ key row, r.importedKey? = some key → r.row? = some row →
      key = ⟨row.declaringOrigin, row.foreignToken⟩ := by
    intro r hr key row hkey hrow
    have hcaches := (h.settings_of_mem hr).2.trans caches
    obtain ⟨before, after, rfl⟩ := List.append_of_mem hr
    exact h.split.key_of_row hcaches hkey hrow
  constructor
  · intro htoken
    -- the table has one row for each token
    have hfound := hledger.memberRef?_eq_some_iff.mpr ⟨hledger.held key row hheld, rfl⟩
    have hfound' := hledger.memberRef?_eq_some_iff.mpr ⟨hledger.held key' row' hheld', rfl⟩
    rw [htoken, hfound'] at hfound
    obtain rfl := Option.some_inj.mp hfound
    rw [hkeyOf r hr key _ hkey hrow, hkeyOf r' hr' key' _ hkey' hrow']
  · rintro rfl
    rw [hheld] at hheld'
    obtain rfl := Option.some_inj.mp hheld'
    rfl

end Serves

end TargetModule

end AssemblyGraph
