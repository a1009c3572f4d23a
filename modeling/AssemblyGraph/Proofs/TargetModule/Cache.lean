import AssemblyGraph.Proofs.TargetModule.Referral
import Mathlib.Data.List.Basic

/-!
What the cache of a module remembers.

A key is unknown to the cache until it is imported, and from then on the cache
answers it with what its first request was answered with. This needs no bound
on the number of rows, because the cache holds the rows themselves and not
their tokens.
-/

namespace AssemblyGraph

namespace TargetModule

/-- A module that has had requests, each of them made of what the ones before it
have left. -/
inductive Serves (m : TargetModule) : List Referral → TargetModule → Prop
  | start : Serves m [] m
  | next {requests : List Referral} {r : Referral} :
      Serves m requests r.module → Serves m (requests ++ [r]) r.after

theorem Serves.split {m m' : TargetModule} {before after : List Referral} {r : Referral}
    (h : m.Serves (before ++ r :: after) m') : m.Serves before r.module := by
  generalize hrequests : before ++ r :: after = requests at h
  induction h generalizing after with
  | start => simp at hrequests
  | next hserves ih =>
      rcases List.eq_nil_or_concat after with rfl | ⟨rest, last, rfl⟩
      · obtain ⟨rfl, hr⟩ := List.append_inj' hrequests rfl
        cases hr
        exact hserves
      · rw [List.concat_eq_append, ← List.cons_append, ← List.append_assoc] at hrequests
        exact ih (List.append_inj' hrequests rfl).1

theorem Serves.settings {m m' : TargetModule} {requests : List Referral}
    (h : m.Serves requests m') : m'.name = m.name ∧ m'.cachesImports = m.cachesImports := by
  induction h with
  | start => exact ⟨rfl, rfl⟩
  | @next requests r _ ih => exact ⟨r.settings_after.1.trans ih.1, r.settings_after.2.trans ih.2⟩

theorem Serves.settings_of_mem {m m' : TargetModule} {requests : List Referral}
    (h : m.Serves requests m') {r : Referral} (hr : r ∈ requests) :
    r.module.name = m'.name ∧ r.module.cachesImports = m'.cachesImports := by
  obtain ⟨before, after, rfl⟩ := List.append_of_mem hr
  have hbefore := h.split.settings
  have hall := h.settings
  exact ⟨hbefore.1.trans hall.1.symm, hbefore.2.trans hall.2.symm⟩

/-- The keys that requests have imported, once for each request. -/
def keysImported (requests : List Referral) : List ImportKey :=
  requests.filterMap Referral.importedKey?

theorem keysImported_concat (requests : List Referral) (r : Referral) :
    keysImported (requests ++ [r]) = keysImported requests ++ r.importedKey?.toList := by
  rw [keysImported, keysImported, List.filterMap_append]
  cases hkey : r.importedKey? <;> simp [hkey]

/-- The cache of a module agrees with the requests that the module has had. -/
structure Remembers (requests : List Referral) (m : TargetModule) : Prop where
  known : m.cachesImports = true → ∀ r ∈ requests, ∀ key, r.importedKey? = some key →
    m.importCache[key]? = r.row?
  unknown : ∀ key, key ∉ keysImported requests → m.importCache[key]? = none

theorem remembers_create (name : String) (config : Config) :
    Remembers [] (create name config) where
  known := by simp
  unknown := by simp [create]

namespace Remembers

variable {requests : List Referral} {r : Referral}

/-- One request keeps the cache in order. What is new in it is the key of the request,
which no earlier one has imported. -/
theorem request (h : Remembers requests r.module) : Remembers (requests ++ [r]) r.after := by
  rcases r.refer_cases with
    ⟨hkey, -, hafter⟩ | ⟨key, row, hkey, hrow, -, hcache, hafter⟩ |
    ⟨t, d, key, -, hkey, hrow, hmiss, hafter⟩
  · rw [hafter]
    refine ⟨fun hcaches r' hr' key' hkey' => ?_, fun key' hkey' => ?_⟩
    · rcases List.mem_append.mp hr' with hr' | hr'
      · exact h.known hcaches r' hr' key' hkey'
      · obtain rfl := List.mem_singleton.mp hr'
        rw [hkey] at hkey'
        cases hkey'
    · rw [keysImported_concat, List.mem_append, not_or] at hkey'
      exact h.unknown key' hkey'.1
  · rw [hafter]
    refine ⟨fun hcaches r' hr' key' hkey' => ?_, fun key' hkey' => ?_⟩
    · rcases List.mem_append.mp hr' with hr' | hr'
      · exact h.known hcaches r' hr' key' hkey'
      · obtain rfl := List.mem_singleton.mp hr'
        obtain rfl : key = key' := Option.some_inj.mp (hkey.symm.trans hkey')
        rw [hcache, hrow]
    · rw [keysImported_concat, List.mem_append, not_or] at hkey'
      exact h.unknown key' hkey'.1
  · rw [hafter]
    refine ⟨fun hcaches r' hr' key' hkey' => ?_, fun key' hkey' => ?_⟩
    · rw [Referral.cachesImports_withRow] at hcaches
      rw [Referral.getElem?_importCache_withRow]
      rcases List.mem_append.mp hr' with hr' | hr'
      · have hold := h.known hcaches r' hr' key' hkey'
        have hne : key ≠ key' := by
          rintro rfl
          have hsome := Referral.isSome_row?_of_importedKey? hkey'
          rw [← hold, hmiss hcaches] at hsome
          cases hsome
        simpa [hne] using hold
      · obtain rfl := List.mem_singleton.mp hr'
        obtain rfl : key = key' := Option.some_inj.mp (hkey.symm.trans hkey')
        simp [hcaches, hrow]
    · rw [keysImported_concat, List.mem_append, not_or, hkey] at hkey'
      rw [Referral.getElem?_importCache_withRow, if_neg fun hk => hkey'.2 (by simp [hk.2])]
      exact h.unknown key' hkey'.1

/-- An import of a key that was imported before is answered like that one, and
leaves the module as it was. -/
theorem answer_of_known (h : Remembers requests r.module) (caches : r.module.cachesImports = true)
    {key : ImportKey} (hkey : r.importedKey? = some key) {r' : Referral} (hr' : r' ∈ requests)
    (hkey' : r'.importedKey? = some key) :
    r.row? = r'.row? ∧ r.module.importCache[key]? = r.row? ∧ r.after = r.module := by
  have hcache := h.known caches r' hr' key hkey'
  obtain ⟨row, hrow⟩ := Option.isSome_iff_exists.mp (Referral.isSome_row?_of_importedKey? hkey')
  rw [hrow] at hcache
  rcases r.refer_cases with
    ⟨hnone, -, -⟩ | ⟨key₀, row₀, hkey₀, hrow₀, -, hcache₀, hafter⟩ |
    ⟨t, d, key₀, -, hkey₀, -, hmiss, -⟩
  · rw [hkey] at hnone
    cases hnone
  · obtain rfl : key = key₀ := Option.some_inj.mp (hkey.symm.trans hkey₀)
    obtain rfl : row = row₀ := Option.some_inj.mp (hcache.symm.trans hcache₀)
    exact ⟨hrow₀.trans hrow.symm, hcache.trans hrow₀.symm, hafter⟩
  · obtain rfl : key = key₀ := Option.some_inj.mp (hkey.symm.trans hkey₀)
    rw [hmiss caches] at hcache
    cases hcache

/-- An import of a key that is not remembered makes the row that it is answered with. -/
theorem answer_of_first (h : Remembers requests r.module) {key : ImportKey}
    (hkey : r.importedKey? = some key)
    (first : r.module.cachesImports = true → key ∉ keysImported requests) :
    ∃ t d, r.Imports t d ∧ r.row? = some (r.newRow t d) := by
  rcases r.refer_cases with
    ⟨hnone, -, -⟩ | ⟨key₀, row₀, hkey₀, -, hcaches, hcache, -⟩ |
    ⟨t, d, key₀, himports, -, hrow, -, -⟩
  · rw [hkey] at hnone
    cases hnone
  · obtain rfl : key = key₀ := Option.some_inj.mp (hkey.symm.trans hkey₀)
    rw [h.unknown key (first hcaches)] at hcache
    cases hcache
  · exact ⟨t, d, himports, hrow⟩

end Remembers

theorem Serves.remembers {name : String} {config : Config} {requests : List Referral}
    {m : TargetModule} (h : (create name config).Serves requests m) : Remembers requests m := by
  induction h with
  | start => exact remembers_create name config
  | next _ ih => exact ih.request

/-- The first request for a key, if there was one, and otherwise the present one. -/
def firstFor (requests : List Referral) (key : ImportKey) (now : Referral) : Referral :=
  (requests.find? fun r => r.importedKey? = some key).getD now

theorem firstFor_cases (requests : List Referral) (key : ImportKey) (now : Referral) :
    firstFor requests key now = now ∨
      firstFor requests key now ∈ requests ∧
        (firstFor requests key now).importedKey? = some key := by
  rw [firstFor]
  cases hfirst : requests.find? fun r => r.importedKey? = some key with
  | none => exact .inl rfl
  | some r =>
      have hkey := List.find?_some hfirst
      exact .inr ⟨List.mem_of_find?_eq_some hfirst, by simpa using hkey⟩

/-- The first request for a key can be found without looking into a cache. -/
theorem eq_of_firstFor {α : Type} {requests : List Referral} {key : ImportKey} {f : Referral → α}
    {a : α} (h : (requests.find? fun r => r.uncached.importedKey? = some key).map f = some a)
    (now : Referral) : f (firstFor requests key now) = a := by
  simp only [Referral.importedKey?_uncached] at h
  obtain ⟨r, hr, rfl⟩ := Option.map_eq_some_iff.mp h
  rw [firstFor, hr, Option.getD_some]

/-- A module that caches its imports answers as one that does not would have answered
the first request for the key. -/
theorem Serves.row?_eq_first {name : String} {config : Config} {requests : List Referral}
    {r : Referral} (h : (create name config).Serves requests r.module)
    (caches : r.module.cachesImports = true) {key : ImportKey} (hkey : r.importedKey? = some key) :
    r.row? = (firstFor requests key r).uncached.row? := by
  rw [firstFor]
  cases hfirst : requests.find? fun r => r.importedKey? = some key with
  | none =>
      have hunknown : key ∉ keysImported requests := by
        intro hmem
        obtain ⟨r', hr', hkey'⟩ := List.mem_filterMap.mp hmem
        have hnone := List.find?_eq_none.mp hfirst r' hr'
        simp [hkey'] at hnone
      obtain ⟨t, d, himports, hrow⟩ := h.remembers.answer_of_first hkey fun _ => hunknown
      rw [hrow, Option.getD_none, Referral.row?_uncached_of_imports himports]
  | some r₁ =>
      obtain ⟨hkey₁, before, after, rfl, hbefore⟩ := List.find?_eq_some_iff_append.mp hfirst
      have hkey₁ : r₁.importedKey? = some key := of_decide_eq_true hkey₁
      have hunknown : key ∉ keysImported before := by
        intro hmem
        obtain ⟨r', hr', hkey'⟩ := List.mem_filterMap.mp hmem
        have hnot := hbefore r' hr'
        simp [hkey'] at hnot
      obtain ⟨t, d, himports, hrow₁⟩ :=
        h.split.remembers.answer_of_first hkey₁ fun _ => hunknown
      obtain ⟨hrow, -, -⟩ := h.remembers.answer_of_known caches hkey (by simp) hkey₁
      rw [hrow, hrow₁, Option.getD_some, Referral.row?_uncached_of_imports himports]

end TargetModule

end AssemblyGraph
