import AssemblyGraph.Proofs.Session.Calls

/-!
Calls of factories, in any order.

The factories of a module share its cache and its counter, so the tokens that their
records are given depend on the order in which the factories are called. Nothing else
does. What a call imports is a key that is known before any call is made. With a cache,
keys and tokens are one to one, and the number of rows is that of all keys, in whatever
order they come.
-/

namespace AssemblyGraph

/-- Two calls have made records with imported constructors, and been given one token for both. -/
def FactoryCall.SameToken (o o' : Except Fault AttributeRecord) : Prop :=
  ∃ row row', importedRow? o = some row ∧ importedRow? o' = some row' ∧ row.token = row'.token

namespace Session

open TargetModule

variable {s : Session} {c : FactoryCall} {calls : List FactoryCall}

/-- The calls that are made one after the other, each with its outcome. -/
def journal (s : Session) : List FactoryCall → List (FactoryCall × Except Fault AttributeRecord)
  | [] => []
  | c :: calls => (c, c.outcome s) :: (s.step c.command).1.journal calls

theorem mem_journal_iff {o : Except Fault AttributeRecord} :
    (c, o) ∈ s.journal calls ↔ ∃ before after, calls = before ++ c :: after ∧
      o = c.outcome (s.run (before.map FactoryCall.command)) := by
  induction calls generalizing s with
  | nil => simp [journal]
  | cons c' calls ih =>
      rw [journal, List.mem_cons, ih]
      constructor
      · rintro (heq | ⟨before, after, rfl, rfl⟩)
        · cases heq
          exact ⟨[], calls, rfl, rfl⟩
        · exact ⟨c' :: before, after, rfl, rfl⟩
      · rintro ⟨before, after, hcalls, rfl⟩
        cases before with
        | nil =>
            cases hcalls
            exact .inl rfl
        | cons c'' before =>
            cases hcalls
            exact .inr ⟨before, after, rfl, rfl⟩

/-- Calls of factories over a module that caches its imports, with names for their records that
are not in use. -/
structure CachingCalls (s : Session) (id : ModuleId) (calls : List FactoryCall) : Prop where
  caches : ∃ m, s.target? id = some m ∧ m.cachesImports = true
  belongs : ∀ c ∈ calls, s.CallsOver id c
  free : ∀ c ∈ calls, s.BindsFree c

theorem CachingCalls.perm {id : ModuleId} {calls' : List FactoryCall}
    (h : s.CachingCalls id calls) (perm : calls.Perm calls') : s.CachingCalls id calls' where
  caches := h.caches
  belongs c hc := h.belongs c (perm.mem_iff.mpr hc)
  free c hc := h.free c (perm.mem_iff.mpr hc)

/-- The requests of a module in a run that goes on with calls. -/
def requestsWith (commands : List Command) (calls : List FactoryCall) (id : ModuleId) :
    List Referral :=
  empty.historyOf (commands ++ calls.map FactoryCall.command) id

section

variable {commands : List Command} {id : ModuleId} {o o' : Except Fault AttributeRecord}

theorem CachingCalls.afterCalls (h : (empty.run commands).CachingCalls id calls) :
    (empty.run commands).AfterCalls
      ((empty.run commands).run (calls.map FactoryCall.command)) :=
  AfterCalls.run (.refl _) (settled_run commands) (recorded_run commands) h.free

/-- A call is made in a state that differs from the first one by calls, and its requests are
among those of the run. -/
theorem CachingCalls.of_mem_journal (h : (empty.run commands).CachingCalls id calls)
    (hmem : (c, o) ∈ (empty.run commands).journal calls) :
    c ∈ calls ∧ ∃ s', (empty.run commands).AfterCalls s' ∧ o = c.outcome s' ∧
      ∀ r ∈ s'.requests c.command, r.target = id → r ∈ requestsWith commands calls id := by
  obtain ⟨before, after, rfl, rfl⟩ := mem_journal_iff.mp hmem
  refine ⟨by simp, _, AfterCalls.run (.refl _) (settled_run commands) (recorded_run commands)
    fun c hc => h.free c (List.mem_append_left _ hc), rfl, fun r hr htarget => ?_⟩
  rw [requestsWith, List.map_append, List.map_cons, historyOf_append, historyOf_append,
    historyOf_cons]
  refine List.mem_append_right _ (List.mem_append_right _ (List.mem_append_left _ ?_))
  exact List.mem_filter.mpr ⟨hr, decide_eq_true htarget⟩

/-- The module after the calls, with its whole history. -/
theorem CachingCalls.exists_serves (h : (empty.run commands).CachingCalls id calls) :
    ∃ m name config, (empty.run (commands ++ calls.map FactoryCall.command)).target? id = some m ∧
      m.cachesImports = true ∧
      (create name config).Serves (requestsWith commands calls id) m := by
  obtain ⟨m₀, hm₀, hcaches⟩ := h.caches
  rcases target?_cases_of_settings (h.afterCalls.targets id) with
    ⟨hnone, -⟩ | ⟨m₁, m, hm₁, hm, -, hsame⟩
  · rw [hm₀] at hnone
    cases hnone
  · obtain rfl := Option.some_inj.mp (hm₀.symm.trans hm₁)
    rw [← run_append] at hm
    obtain ⟨name, config, hserves⟩ := serves_of_run _ hm
    exact ⟨m, name, config, hm, hsame.trans hcaches, hserves⟩

theorem CachingCalls.keysImported_requestsWith
    (h : (empty.run commands).CachingCalls id calls) :
    keysImported (requestsWith commands calls id) =
      keysImported (empty.historyOf commands id) ++
        calls.flatMap (FactoryCall.keys (empty.run commands)) := by
  have hrefl := AfterCalls.refl (empty.run commands)
  rw [requestsWith, historyOf_append, ← hrefl.keysImported_historyOf (settled_run commands)
    (recorded_run commands) h.free h.belongs]
  exact List.filterMap_append

/-- Two calls are given one token if and only if they import one key. -/
theorem CachingCalls.sameToken_iff (h : (empty.run commands).CachingCalls id calls)
    (few : (rowsMade (requestsWith commands calls id)).length < 2 ^ 24) {c' : FactoryCall}
    (hmem : (c, o) ∈ (empty.run commands).journal calls)
    (hmem' : (c', o') ∈ (empty.run commands).journal calls) :
    FactoryCall.SameToken o o' ↔ (FactoryCall.importedRow? o).isSome ∧
      (FactoryCall.importedRow? o').isSome ∧
      c.keys (empty.run commands) = c'.keys (empty.run commands) := by
  obtain ⟨hc, s₁, hafter, rfl, hrequests⟩ := h.of_mem_journal hmem
  obtain ⟨hc', s₂, hafter', rfl, hrequests'⟩ := h.of_mem_journal hmem'
  obtain ⟨m, name, config, -, hcaches, hserves⟩ := h.exists_serves
  have htokens : ∀ row row', FactoryCall.importedRow? (c.outcome s₁) = some row →
      FactoryCall.importedRow? (c'.outcome s₂) = some row' →
      (row.token = row'.token ↔ c.keys (empty.run commands) = c'.keys (empty.run commands)) := by
    intro row row' hrow hrow'
    obtain ⟨r, key, hr, htarget, hanswer, hkey, hkeys⟩ :=
      hafter.exists_request (h.belongs c hc) hrow
    obtain ⟨r', key', hr', htarget', hanswer', hkey', hkeys'⟩ :=
      hafter'.exists_request (h.belongs c' hc') hrow'
    have hrmem := hrequests r (hr ▸ List.mem_singleton_self r) htarget
    have hrmem' := hrequests' r' (hr' ▸ List.mem_singleton_self r') htarget'
    rw [hserves.token_eq_iff few hcaches hrmem hrmem' hkey hkey' hanswer hanswer', hkeys, hkeys',
      List.singleton_inj]
  constructor
  · rintro ⟨row, row', hrow, hrow', htoken⟩
    exact ⟨Option.isSome_of_eq_some hrow, Option.isSome_of_eq_some hrow',
      (htokens row row' hrow hrow').mp htoken⟩
  · rintro ⟨hsome, hsome', hkeys⟩
    obtain ⟨row, hrow⟩ := Option.isSome_iff_exists.mp hsome
    obtain ⟨row', hrow'⟩ := Option.isSome_iff_exists.mp hsome'
    exact ⟨row, row', hrow, hrow', (htokens row row' hrow hrow').mpr hkeys⟩

/-- The keys of calls are the same in every order, and so is the number of rows. -/
theorem CachingCalls.length_rowsMade_eq (h : (empty.run commands).CachingCalls id calls)
    {calls' : List FactoryCall} (perm : calls.Perm calls')
    (few : (rowsMade (requestsWith commands calls id)).length < 2 ^ 24) :
    (rowsMade (requestsWith commands calls' id)).length =
      (rowsMade (requestsWith commands calls id)).length := by
  obtain ⟨m, name, config, -, hcaches, hserves⟩ := h.exists_serves
  obtain ⟨m', name', config', -, hcaches', hserves'⟩ := (h.perm perm).exists_serves
  have hkeys : (keysImported (requestsWith commands calls' id)).toFinset =
      (keysImported (requestsWith commands calls id)).toFinset := by
    rw [h.keysImported_requestsWith, (h.perm perm).keysImported_requestsWith]
    exact List.toFinset_eq_of_perm _ _ ((perm.flatMap_right _).append_left _).symm
  have hrows := hserves.card_keysImported few hcaches
  rw [hrows, ← hkeys] at few ⊢
  exact hserves'.length_rowsMade_of_card few hcaches'

end

/-- Calls of factories over a module that caches its imports can be made in any order, as long
as the module makes fewer rows than a table can number. A call fails for the same reason in
both orders, or it makes records with equal arguments, both with an imported constructor or
both without; and that is what its command answers when it is made, whatever has been called
before it. Two records are given the same token in one order if and only if they are in the
other, and the member table has as many rows in the end. -/
theorem calls_permuted (commands : List Command) {id : ModuleId} {calls calls' : List FactoryCall}
    (caching : (empty.run commands).CachingCalls id calls) (perm : calls.Perm calls')
    (few : (rowsMade (requestsWith commands calls id)).length < 2 ^ 24) :
    let s := empty.run commands
    (∀ made c o, (c, o) ∈ s.journal made → ∃ before after, made = before ++ c :: after ∧
      (s.run (before.map FactoryCall.command)).Answers c o) ∧
    (∀ c o o', (c, o) ∈ s.journal calls → (c, o') ∈ s.journal calls' →
      FactoryCall.SameOutcome o o') ∧
    (∀ c₁ c₂ o₁ o₂ o₁' o₂', (c₁, o₁) ∈ s.journal calls → (c₂, o₂) ∈ s.journal calls →
      (c₁, o₁') ∈ s.journal calls' → (c₂, o₂') ∈ s.journal calls' →
      (FactoryCall.SameToken o₁ o₂ ↔ FactoryCall.SameToken o₁' o₂')) ∧
    ∃ m m', (s.run (calls.map FactoryCall.command)).target? id = some m ∧
      (s.run (calls'.map FactoryCall.command)).target? id = some m' ∧
      m.memberRefCount = m'.memberRefCount := by
  intro s
  have hcaching' := caching.perm perm
  have hfew' : (rowsMade (requestsWith commands calls' id)).length < 2 ^ 24 :=
    caching.length_rowsMade_eq perm few ▸ few
  have houtcome : ∀ c o o', (c, o) ∈ s.journal calls → (c, o') ∈ s.journal calls' →
      FactoryCall.SameOutcome o o' := by
    intro c o o' ho ho'
    obtain ⟨-, s₁, hafter, rfl, -⟩ := caching.of_mem_journal ho
    obtain ⟨-, s₂, hafter', rfl, -⟩ := hcaching'.of_mem_journal ho'
    exact (hafter.sameOutcome c).symm.trans (hafter'.sameOutcome c)
  refine ⟨fun made c o hmem => ?_, houtcome, fun c₁ c₂ o₁ o₂ o₁' o₂' h₁ h₂ h₁' h₂' => ?_, ?_⟩
  · obtain ⟨before, after, hmade, rfl⟩ := mem_journal_iff.mp hmem
    exact ⟨before, after, hmade, answers_outcome _ c⟩
  · rw [caching.sameToken_iff few h₁ h₂, hcaching'.sameToken_iff hfew' h₁' h₂',
      (houtcome c₁ o₁ o₁' h₁ h₁').isSome_importedRow?,
      (houtcome c₂ o₂ o₂' h₂ h₂').isSome_importedRow?]
  · obtain ⟨m, name, config, hm, -, hserves⟩ := caching.exists_serves
    obtain ⟨m', name', config', hm', -, hserves'⟩ := hcaching'.exists_serves
    rw [run_append] at hm hm'
    refine ⟨m, m', hm, hm', ?_⟩
    rw [(hserves.ledger few).memberRefCount, (hserves'.ledger hfew').memberRefCount,
      caching.length_rowsMade_eq perm few]

/-- Two records with different constructors, whose tokens depend on the order. -/
def twoCalls : List FactoryCall := [
  ⟨"f", .nullableFlags [1], none⟩, ⟨"f", .embedded, none⟩]

theorem calls_reversed :
    let s := empty.run (strictFactory .standard)
    ∃ m m', (s.run (twoCalls.map FactoryCall.command)).target? ⟨0⟩ = some m ∧
      (s.run (twoCalls.reverse.map FactoryCall.command)).target? ⟨0⟩ = some m' ∧
      m.memberRefCount = m'.memberRefCount := by
  intro s
  have hcaches : (s.target? ⟨0⟩).map (·.cachesImports) = some true := by decide +kernel
  have hmodule : s.factories["f"]?.map (·.table.module) = some ⟨0⟩ := by decide +kernel
  obtain ⟨m, hm, hcaching⟩ := Option.map_eq_some_iff.mp hcaches
  obtain ⟨f, hf, hbelongs⟩ := Option.map_eq_some_iff.mp hmodule
  have hcalls : ∀ c ∈ twoCalls, c.factory = "f" ∧ c.bindTo? = none := by
    simp [twoCalls]
  have caching : s.CachingCalls ⟨0⟩ twoCalls := by
    refine ⟨⟨m, hm, hcaching⟩, fun c hc => ⟨f, ?_, hbelongs⟩, fun c hc name hname => ?_⟩
    · rw [(hcalls c hc).1]
      exact hf
    · rw [(hcalls c hc).2] at hname
      cases hname
  have hlength : (requestsWith (strictFactory .standard) twoCalls ⟨0⟩).length = 2 := by
    decide +kernel
  have hfew :
      (rowsMade (requestsWith (strictFactory .standard) twoCalls ⟨0⟩)).length < 2 ^ 24 := by
    refine Nat.lt_of_le_of_lt (List.length_filterMap_le _ _) ?_
    rw [hlength]
    decide
  exact (calls_permuted (strictFactory .standard) caching twoCalls.reverse_perm.symm hfew).2.2.2

end Session

end AssemblyGraph
