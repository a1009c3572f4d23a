import AssemblyGraph.Proofs.Session.Perform
import AssemblyGraph.Proofs.TargetModule.Ledger

/-!
The member tables of the modules in a session.

A module is made once and then changes by the requests that it serves, so its
state at the end of a run is what its own requests have made of it, whatever
else has happened between them.
-/

namespace AssemblyGraph.Session

open TargetModule

/-- The requests are of modules that there are, and each module has served its own. -/
structure Served (s : Session) (requests : List Referral) : Prop where
  known : ∀ r ∈ requests, r.target.index < s.targets.size
  serves : ∀ (id : ModuleId) (m : TargetModule), s.target? id = some m →
    ∃ name config, (create name config).Serves (requests.filter (·.target = id)) m

theorem served_empty : empty.Served [] where
  known := by simp
  serves := by simp [empty, target?]

/-- A move changes the modules in one of three ways. -/
theorem Move.targets_cases {s s' : Session} {rs : List Referral} (h : Move s rs s') :
    (rs = [] ∧ s'.targets = s.targets) ∨
    (rs = [] ∧ ∃ name config, s'.targets = s.targets.push (create name config)) ∨
    ∃ r, rs = [r] ∧ s.target? r.target = some r.module ∧ s' = s.setTarget r.target r.after := by
  cases h with
  | newModule name bindTo config => exact .inr (.inl ⟨rfl, name, config, rfl⟩)
  | refer now known found => exact .inr (.inr ⟨_, rfl, known, rfl⟩)
  | unbind kind => exact .inl ⟨rfl, by cases kind <;> rfl⟩
  | _ => exact .inl ⟨rfl, rfl⟩

theorem target?_setTarget {s : Session} {id : ModuleId} {m : TargetModule}
    (h : s.target? id = some m) (m' : TargetModule) (id' : ModuleId) :
    (s.setTarget id m').target? id' = if id = id' then some m' else s.target? id' := by
  have hlt : id.index < s.targets.size := (Array.getElem?_eq_some_iff.mp h).1
  rw [target?, setTarget, Array.getElem?_setIfInBounds]
  by_cases hid : id = id'
  · subst hid
    simp [hlt]
  · have hindex : id.index ≠ id'.index := by
      intro hindex
      cases id
      cases id'
      exact hid (congrArg ModuleId.mk hindex)
    rw [if_neg hindex, if_neg hid, target?]

theorem Served.push {s s' : Session} {requests : List Referral} (h : s.Served requests)
    (name : String) (config : Config)
    (htargets : s'.targets = s.targets.push (create name config)) : s'.Served requests where
  known r hr := by
    rw [htargets, Array.size_push]
    exact Nat.lt_succ_of_lt (h.known r hr)
  serves id m hm := by
    rw [target?, htargets, Array.getElem?_push] at hm
    split at hm
    · rename_i hid
      obtain rfl := Option.some_inj.mp hm
      -- an identity that has not been given out has had no requests
      have hnone : requests.filter (·.target = id) = [] := by
        refine List.filter_eq_nil_iff.mpr fun r hr htarget => ?_
        have hlt := h.known r hr
        rw [of_decide_eq_true htarget, hid] at hlt
        exact Nat.lt_irrefl _ hlt
      rw [hnone]
      exact ⟨name, config, .start⟩
    · exact h.serves id m hm

theorem Served.refer {s : Session} {requests : List Referral} (h : s.Served requests)
    {r : Referral} (hr : s.target? r.target = some r.module) :
    (s.setTarget r.target r.after).Served (requests ++ [r]) where
  known r' hr' := by
    rw [setTarget, Array.size_setIfInBounds]
    rcases List.mem_append.mp hr' with hr' | hr'
    · exact h.known r' hr'
    · obtain rfl := List.mem_singleton.mp hr'
      exact (Array.getElem?_eq_some_iff.mp hr).1
  serves id m hm := by
    rw [target?_setTarget hr] at hm
    rw [List.filter_append]
    split at hm
    · rename_i htarget
      subst htarget
      obtain rfl := Option.some_inj.mp hm
      obtain ⟨name, config, hserves⟩ := h.serves r.target r.module hr
      refine ⟨name, config, ?_⟩
      simpa using hserves.next
    · rename_i htarget
      simpa [htarget] using h.serves id m hm

theorem Move.served {s s' : Session} {rs requests : List Referral} (h : Move s rs s')
    (hs : s.Served requests) : s'.Served (requests ++ rs) := by
  rcases h.targets_cases with ⟨rfl, htargets⟩ | ⟨rfl, name, config, htargets⟩ | ⟨r, rfl, hr, rfl⟩
  · rw [List.append_nil]
    refine ⟨fun r hr => ?_, fun id m hm => ?_⟩
    · rw [htargets]
      exact hs.known r hr
    · rw [target?, htargets] at hm
      exact hs.serves id m hm
  · rw [List.append_nil]
    exact hs.push name config htargets
  · exact hs.refer hr

theorem Moves.served {s s' : Session} {rs requests : List Referral} (h : Moves s rs s')
    (hs : s.Served requests) : s'.Served (requests ++ rs) := by
  induction h with
  | refl => rwa [List.append_nil]
  | tail _ hmove ih =>
      rw [← List.append_assoc]
      exact hmove.served ih

/-- A module is what its requests have made of it. -/
theorem serves_of_run (commands : List Command) {id : ModuleId} {m : TargetModule}
    (h : (empty.run commands).target? id = some m) :
    ∃ name config, (create name config).Serves (empty.historyOf commands id) m := by
  have hserved := (run_moves empty commands).served served_empty
  exact hserved.serves id m h

/-- The member table of a module, at the end of a run in which it has made fewer rows
than a table can number. The table lists the rows as they were made, with tokens that
follow each other. Requests that fail or are for the module's own methods change
nothing. Without a cache there is a row for every import of another module's method,
with one there is a row for every pair of an origin and a token among them, and every
later import of a pair is answered with the row that the first one has made. -/
theorem memberTable_of_run (commands : List Command) {id : ModuleId} {m : TargetModule}
    (hm : (empty.run commands).target? id = some m)
    (few : (rowsMade (empty.historyOf commands id)).length < 2 ^ 24) :
    let requests := empty.historyOf commands id
    let rows := rowsMade requests
    (∃ name config, (create name config).Serves requests m) ∧
      m.memberRefs.toList = rows.map (fun row => (row.token, row)) ∧
      rows.map (·.token.value.toNat) = (List.range m.memberRefCount).map (0x0A000001 + ·) ∧
      (∀ r ∈ requests, (∃ d, r.declaring? = some d ∧ d.origin = r.module.origin) ∨
        (∃ cause, r.outcome = .error cause) → r.created? = none ∧ r.after = r.module) ∧
      (m.cachesImports = false → m.memberRefCount = (keysImported requests).length) ∧
      (m.cachesImports = true → m.memberRefCount = (keysImported requests).toFinset.card ∧
        ∀ before r after key, requests = before ++ r :: after → r.importedKey? = some key →
          (key ∉ keysImported before → r.created? = r.row?) ∧
          ∀ r' ∈ before, r'.importedKey? = some key →
            r.row? = r'.row? ∧ r.created? = none) := by
  intro requests rows
  obtain ⟨name, config, hserves⟩ := serves_of_run commands hm
  have hledger : Ledger requests m := hserves.ledger few
  have hcount : m.memberRefCount = rows.length := hledger.memberRefCount
  refine ⟨⟨name, config, hserves⟩, hledger.table, ?_, ?_, ?_, ?_⟩
  · rw [hcount]
    exact hledger.tokens_eq few
  · intro r _ hno
    have hnot : ∀ t d, ¬ r.Imports t d := by
      rcases hno with ⟨d, hd, hown⟩ | ⟨cause, hcause⟩
      · exact Referral.not_imports_of_own hd hown
      · exact Referral.not_imports_of_error hcause
    obtain ⟨hrow, hafter⟩ := Referral.of_not_imports hnot
    exact ⟨by simp [Referral.created?, hrow], hafter⟩
  · intro hcaches
    rw [hcount]
    exact hserves.length_rowsMade few hcaches
  · intro hcaches
    refine ⟨hcount.trans (hserves.card_keysImported few hcaches), ?_⟩
    intro before r after key hsplit hkey
    have hbefore : (create name config).Serves before r.module := by
      have hall := hserves
      rw [show empty.historyOf commands id = before ++ r :: after from hsplit] at hall
      exact hall.split
    have hfew : (rowsMade before).length < 2 ^ 24 := by
      refine Nat.lt_of_le_of_lt (length_rowsMade_le before (r :: after)) ?_
      rw [← hsplit]
      exact few
    have hmem : r ∈ empty.historyOf commands id := by
      rw [show empty.historyOf commands id = before ++ r :: after from hsplit]
      simp
    have hcaches' : r.module.cachesImports = true := by
      rw [(hserves.settings_of_mem hmem).2, hcaches]
    have hledger' := hbefore.ledger hfew
    refine ⟨fun hfirst => hledger'.created?_of_first hfew hkey fun _ => hfirst, ?_⟩
    intro r' hr' hkey'
    have hknown : key ∈ keysImported before := List.mem_filterMap.mpr ⟨r', hr', hkey'⟩
    obtain ⟨hrow, -, -⟩ := hledger'.cache.answer_of_known hcaches' hkey hr' hkey'
    exact ⟨hrow, hledger'.created?_of_known hcaches' hkey hknown⟩

/-- A module that does not cache its imports is asked for a method of another module,
for one of its own, for one without a declaring type, and for the first one again. -/
def repeatedImports : List Command := [
  .newRegistry (.module "lib") "lib", .newRegistry (.module "app") "app",
  .createType "lib" "N" "T" 0 (some "t"), .createType "app" "N" "U" 0 (some "u"),
  .createConstructor "lib" "t" [] (some "f"), .createConstructor "app" "u" [] (some "g"),
  .newMethod ⟨⟨0⟩, "h", 0, 0, .instanceMethod [], none⟩ (some "h"),
  .newModule "app" "m" .uncached,
  .importMethod "m" "f" none, .importMethod "m" "g" none, .importMethod "m" "h" none,
  .importMethod "m" "f" none]

theorem memberTable_of_repeatedImports :
    ∃ m, (empty.run repeatedImports).target? ⟨0⟩ = some m ∧ m.memberRefCount = 2 ∧
      m.memberRefs.toList.map (·.2.token.value.toNat) = [0x0A000001, 0x0A000002] := by
  have hsome : ((empty.run repeatedImports).target? ⟨0⟩).isSome := by decide +kernel
  have hm := (Option.some_get hsome).symm
  have hrows : (rowsMade (empty.historyOf repeatedImports ⟨0⟩)).length = 2 := by decide +kernel
  obtain ⟨-, htable, htokens, -, -, -⟩ :=
    memberTable_of_run repeatedImports hm (by rw [hrows]; decide)
  have hcount : ((empty.run repeatedImports).target? ⟨0⟩ |>.get hsome).memberRefCount = 2 := by
    have hlength := congrArg List.length htokens
    rw [List.length_map, List.length_map, List.length_range, hrows] at hlength
    exact hlength.symm
  refine ⟨_, hm, hcount, ?_⟩
  rw [htable, List.map_map]
  rw [hcount] at htokens
  exact htokens

end AssemblyGraph.Session
