import AssemblyGraph.Proofs.Session.Annotation
import AssemblyGraph.Proofs.Session.MemberTable
import AssemblyGraph.Proofs.TargetModule.Rows

/-!
How long the rows of a module last.

A module makes rows without asking whether their tokens are taken. So its rows
are told apart by their tokens, and found by them, up to the number of rows that
24 bits can tell apart, and a row that is made after that replaces an earlier
one.
-/

namespace AssemblyGraph.Session

open TargetModule

/-- The rows of a module at the end of a run, however many it has made. The table finds the
last row that was made with a token. No row has the number zero as long as there are fewer
rows than a table can number, and the tokens differ up to that number; then each row that a
request was ever answered with is found by its token. -/
theorem memberRows_of_run (commands : List Command) {id : ModuleId} {m : TargetModule}
    (hm : (empty.run commands).target? id = some m) :
    let requests := empty.historyOf commands id
    let rows := everyRow requests
    (∀ r ∈ requests, ∀ row, r.row? = some row → row ∈ rows) ∧
      (∀ token, m.memberRef? token = rows.reverse.find? (·.token = token)) ∧
      ((∀ row ∈ rows, row.token.row ≠ 0) ↔ rows.length < 2 ^ 24) ∧
      ((rows.map (·.token)).Nodup ↔ rows.length ≤ 2 ^ 24) ∧
      (rows.length ≤ 2 ^ 24 →
        ∀ r ∈ requests, ∀ row, r.row? = some row → m.memberRef? row.token = some row) := by
  intro requests rows
  obtain ⟨name, config, hserves⟩ := serves_of_run commands hm
  have hnumbered : Numbered requests m := hserves.numbered
  exact ⟨hnumbered.answered, hnumbered.last, hnumbered.row_ne_zero_iff,
    hnumbered.nodup_tokens_iff, fun few r hr row hrow => hnumbered.memberRef?_of_row? few hr hrow⟩

theorem memberRows_of_repeatedImports :
    ∃ m, (empty.run repeatedImports).target? ⟨0⟩ = some m ∧
      ((everyRow (empty.historyOf repeatedImports ⟨0⟩)).map (·.token)).Nodup := by
  have hsome : ((empty.run repeatedImports).target? ⟨0⟩).isSome := by decide +kernel
  have hrows : (everyRow (empty.historyOf repeatedImports ⟨0⟩)).length = 2 := by decide +kernel
  obtain ⟨-, -, -, hnodup, -⟩ := memberRows_of_run repeatedImports (Option.some_get hsome).symm
  exact ⟨_, (Option.some_get hsome).symm, hnodup.mpr (by rw [hrows]; decide)⟩

/-! ### More rows than a table can number -/

/-- A state in which a module that does not cache its imports can be asked for a method of
another module. -/
structure Offers (s : Session) (module method : String) (r : Referral) : Prop where
  settled : s.Settled
  bound : s.modules[module]? = some r.target
  target : s.target? r.target = some r.module
  graph : r.graph = s.graph
  method : ∃ e, s.methods[method]? = some e ∧ s.graph.methodWithId? e = some r.entry
  foreign : ∃ t d, r.Imports t d
  uncached : r.module.cachesImports = false

namespace Offers

variable {s : Session} {module method method' : String} {r r' : Referral}

theorem requests_eq (h : s.Offers module method r) :
    s.requests (.importMethod module method none) = [r] := by
  obtain ⟨e, he, hentry⟩ := h.method
  have hr : Referral.mk r.target r.module s.graph r.entry = r := by rw [← h.graph]
  simp [requests, h.bound, h.target, he, hentry, hr]

/-- The import only replaces the module. -/
theorem step_eq (h : s.Offers module method r) :
    (s.step (.importMethod module method none)).1 = s.setTarget r.target r.after := by
  obtain ⟨e, he, hentry⟩ := h.method
  obtain ⟨t, d, himports⟩ := h.foreign
  have houtcome := Referral.outcome_of_imports himports
  have hrefer := houtcome
  rw [Referral.outcome, h.graph] at hrefer
  have hperform : (s.perform (.importMethod module method none)).1 =
      s.setTarget r.target r.after := by
    simp [perform, importMethod, findTarget, find, present, attempt, reply, bindMethodRef, h.bound,
      h.target, he, hentry, hrefer, Referral.after, houtcome, h.graph]
  show (s.perform (.importMethod module method none)).1.settle = _
  rw [hperform]
  exact (h.settled.setTarget r.target r.after).settle_eq_self

theorem made?_eq (h : s.Offers module method r) :
    ∃ row, r.made? = some row ∧ r.row? = some row ∧ row.name = r.entry.method.name := by
  obtain ⟨t, d, himports⟩ := h.foreign
  rcases r.refer_cases with
    ⟨hkey, -, -⟩ | ⟨key, row, -, -, hcaches, -, -⟩ | ⟨t', d', key, -, -, hrow, -, hafter⟩
  · rw [Referral.importedKey?_of_imports himports] at hkey
    cases hkey
  · rw [h.uncached] at hcaches
    cases hcaches
  · refine ⟨_, ?_, hrow, rfl⟩
    rw [Referral.made?, hafter, Referral.nextMemberRef_withRow, if_neg (by simp), hrow]

/-- After an import the module can be asked for the same methods. -/
theorem step (h : s.Offers module method r) (h' : s.Offers module method' r') :
    Offers (s.step (.importMethod module method none)).1 module method'
      { r' with module := r.after } := by
  obtain ⟨t, d, himports⟩ := h'.foreign
  have htarget : r'.target = r.target := Option.some_inj.mp (h'.bound.symm.trans h.bound)
  have hmodule : r'.module = r.module := by
    have hr' := h'.target
    rw [htarget, h.target] at hr'
    exact (Option.some_inj.mp hr').symm
  rw [h.step_eq]
  refine ⟨h.settled.setTarget _ _, h'.bound, ?_, h'.graph, h'.method, ⟨t, d, ?_⟩, ?_⟩
  · rw [htarget]
    exact (target?_setTarget h.target r.after r.target).trans (if_pos rfl)
  · refine ⟨himports.declaringType, himports.alive, fun horigin => himports.foreign ?_⟩
    rw [horigin, hmodule, origin, origin, r.settings_after.1]
  · exact r.settings_after.2.trans h.uncached

/-- Importing a method over and over makes a row for it each time. -/
theorem everyRow_replicate (h : s.Offers module method r) (n : Nat) :
    let imports := List.replicate n (.importMethod module method none)
    let rows := everyRow (s.historyOf imports r.target)
    (∃ m, (s.run imports).target? r.target = some m) ∧ rows.length = n ∧
      ∀ row ∈ rows, row.name = r.entry.method.name := by
  induction n generalizing s r with
  | zero => exact ⟨⟨_, h.target⟩, rfl, nofun⟩
  | succ n ih =>
      obtain ⟨row, hmade, -, hname⟩ := h.made?_eq
      obtain ⟨hm, hlength, hnames⟩ := ih (h.step h)
      refine ⟨hm, ?_⟩
      have hrows : everyRow (s.historyOf
          (List.replicate (n + 1) (.importMethod module method none)) r.target) =
          row :: everyRow ((s.step (.importMethod module method none)).1.historyOf
            (List.replicate n (.importMethod module method none)) r.target) := by
        rw [List.replicate_succ, historyOf_cons, everyRow_append, h.requests_eq]
        simp [everyRow, hmade]
      rw [hrows]
      refine ⟨congrArg (· + 1) hlength, fun row' hrow' => ?_⟩
      rcases List.mem_cons.mp hrow' with rfl | hrow'
      · exact hname
      · exact hnames row' hrow'

end Offers

/-- Two methods of a library, and a module that does not cache its imports. -/
def twoMethods : List Command := [
  .newRegistry (.module "lib") "lib", .createType "lib" "N" "T" 0 (some "t"),
  .createMethod "lib" "t" "F" 0 (.instanceMethod []) (some "f"),
  .createMethod "lib" "t" "G" 0 (.instanceMethod []) (some "g"),
  .newModule "app" "m" .uncached]

/-- The first method is imported once, and the second one some number of times after it. -/
def importsAfter (n : Nat) : List Command :=
  twoMethods ++ .importMethod "m" "f" none :: List.replicate n (.importMethod "m" "g" none)

theorem exists_offers_twoMethods (method name : String) (e : MethodId)
    (bound : (empty.run twoMethods).methods[method]? = some e)
    (named : ((empty.run twoMethods).graph.methodWithId? e).map
      (fun entry => (entry.method.name, entry.method.declaringType?)) = some (name, some ⟨6⟩)) :
    ∃ r, r.target = ⟨0⟩ ∧ (empty.run twoMethods).Offers "m" method r ∧
      r.entry.method.name = name := by
  have hmodule : (empty.run twoMethods).modules["m"]? = some ⟨0⟩ := by decide +kernel
  have hmade : ((empty.run twoMethods).target? ⟨0⟩).map
      (fun m => (m.name, m.cachesImports)) = some ("app", false) := by decide +kernel
  have htype : ((empty.run twoMethods).graph.type? ⟨6⟩).map (·.origin) =
      some (.module "lib") := by decide +kernel
  obtain ⟨m, hm, hsettings⟩ := Option.map_eq_some_iff.mp hmade
  obtain ⟨hname, hcaches⟩ := Prod.mk.inj hsettings
  obtain ⟨d, hd, horigin⟩ := Option.map_eq_some_iff.mp htype
  obtain ⟨entry, hentry, hmethod⟩ := Option.map_eq_some_iff.mp named
  obtain ⟨hmethodName, hdeclaring⟩ := Prod.mk.inj hmethod
  refine ⟨⟨⟨0⟩, m, (empty.run twoMethods).graph, entry⟩, rfl,
    ⟨settled_run _, hmodule, hm, rfl, ⟨e, bound, hentry⟩, ⟨⟨6⟩, d, ?_, hd, ?_⟩, hcaches⟩,
    hmethodName⟩
  · rw [Graph.declaringType?, hdeclaring]
    exact Graph.follow?_eq_some_iff.mpr ⟨rfl, Graph.isAlive_iff.mpr ⟨d, hd⟩⟩
  · rw [horigin, origin, hname]
    decide

/-- The rows of the run: one for the first method, and then those for the second one. -/
theorem everyRow_importsAfter (n : Nat) :
    (∃ m, (empty.run (importsAfter n)).target? ⟨0⟩ = some m) ∧
      ∃ r ∈ empty.historyOf (importsAfter n) ⟨0⟩, ∃ row rows, r.row? = some row ∧
        row.name = "F" ∧ everyRow (empty.historyOf (importsAfter n) ⟨0⟩) = row :: rows ∧
        rows.length = n ∧ ∀ row' ∈ rows, row'.name = "G" := by
  obtain ⟨r, hr, hoffers, hname⟩ :=
    exists_offers_twoMethods "f" "F" ⟨0⟩ (by decide +kernel) (by decide +kernel)
  obtain ⟨r', hr', hoffers', hname'⟩ :=
    exists_offers_twoMethods "g" "G" ⟨1⟩ (by decide +kernel) (by decide +kernel)
  have hnext := hoffers.step hoffers'
  obtain ⟨row, hmade, hrow, hrowName⟩ := hoffers.made?_eq
  obtain ⟨hm, hlength, hnames⟩ := hnext.everyRow_replicate n
  simp only [hr', hname'] at hm hlength hnames
  have hnone : empty.historyOf twoMethods ⟨0⟩ = [] :=
    List.eq_nil_of_length_eq_zero (by decide +kernel)
  have hhistory : empty.historyOf (importsAfter n) ⟨0⟩ =
      r :: ((empty.run twoMethods).step (.importMethod "m" "f" none)).1.historyOf
        (List.replicate n (.importMethod "m" "g" none)) ⟨0⟩ := by
    rw [importsAfter, historyOf_append, hnone, historyOf_cons, hoffers.requests_eq,
      List.filter_cons_of_pos (by simpa using hr)]
    rfl
  refine ⟨?_, r, ?_, row, _, hrow, hrowName.trans hname, ?_, hlength, hnames⟩
  · rw [importsAfter, run, List.foldl_append]
    exact hm
  · rw [hhistory]
    exact List.mem_cons_self
  · rw [hhistory, everyRow, List.filterMap_cons_some hmade, ← everyRow]

/-- The last of as many rows as 24 bits can tell apart is numbered zero, and the next one
replaces the first: what a request was answered with is lost, and its token is that of another
row. -/
theorem memberRow_replaced :
    let commands := importsAfter (2 ^ 24)
    ∃ m row row', (empty.run commands).target? ⟨0⟩ = some m ∧
      (∃ r ∈ empty.historyOf commands ⟨0⟩, r.row? = some row) ∧
      row' ∈ everyRow (empty.historyOf commands ⟨0⟩) ∧
      row'.token = row.token ∧ m.memberRef? row.token = some row' ∧ row' ≠ row ∧
      ∃ zero ∈ everyRow (empty.historyOf commands ⟨0⟩), zero.token.row = 0 := by
  intro commands
  obtain ⟨⟨m, hm⟩, r, hr, row, rows, hrow, hname, hrows, hlength, hnames⟩ :=
    everyRow_importsAfter (2 ^ 24)
  obtain ⟨_, _, hserves⟩ := serves_of_run commands hm
  have hnumbered : Numbered (empty.historyOf commands ⟨0⟩) m := hserves.numbered
  rcases List.eq_nil_or_concat rows with rfl | ⟨before, last, rfl⟩
  · cases hlength
  · rw [List.concat_eq_append] at hrows hlength hnames
    have hbefore : before.length + 1 = 2 ^ 24 := by simpa using hlength
    have hfirst : row.token = .ofRow .memberRef 1 :=
      hnumbered.token_of_getElem? (i := 0) (by rw [hrows]; rfl)
    have hlast : last.token = .ofRow .memberRef (2 ^ 24 + 1) := by
      refine hnumbered.token_of_getElem? (i := 2 ^ 24) ?_
      rw [hrows, ← hbefore]
      simp
    have hsame : last.token = row.token := by
      rw [hlast, hfirst, Token.ofRow_eq_iff]
      decide
    have hmany : ¬ (everyRow (empty.historyOf commands ⟨0⟩)).length < 2 ^ 24 := by
      rw [hrows, List.length_cons, hlength]
      omega
    refine ⟨m, row, last, hm, ⟨r, hr, hrow⟩, ?_, hsame, ?_, ?_, ?_⟩
    · rw [hrows]
      simp
    · rw [hnumbered.last, hrows, ← List.cons_append, List.reverse_append,
        List.reverse_singleton, List.singleton_append,
        List.find?_cons_of_pos (by simpa using hsame)]
    · rintro rfl
      have hG := hnames last (by simp)
      rw [hname] at hG
      exact absurd hG (by decide)
    · have hzero := mt hnumbered.row_ne_zero_iff.mp hmany
      push Not at hzero
      exact hzero

end AssemblyGraph.Session
