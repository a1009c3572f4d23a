import AssemblyGraph.Session.Step
import AssemblyGraph.Proofs.TargetModule.Referral

/-!
Runs of commands, and the requests for references that are made in them.
-/

namespace AssemblyGraph

/-- A list with a new last element is split at that element, or as it was split before. -/
theorem forall_split_concat_iff {α : Type} {P : List α → α → Prop} {as : List α} {a : α} :
    (∀ before x after, as ++ [a] = before ++ x :: after → P before x) ↔
      (∀ before x after, as = before ++ x :: after → P before x) ∧ P as a := by
  constructor
  · intro h
    refine ⟨fun before x after hsplit => ?_, h as a [] rfl⟩
    exact h before x (after ++ [a]) (by rw [hsplit]; simp)
  · rintro ⟨hsplits, hlast⟩ before x after hsplit
    rcases List.eq_nil_or_concat after with rfl | ⟨after, last, rfl⟩
    · obtain ⟨rfl, hx⟩ := List.append_inj' hsplit rfl
      obtain rfl := List.singleton_inj.mp hx
      exact hlast
    · rw [List.concat_eq_append, ← List.cons_append, ← List.append_assoc] at hsplit
      exact hsplits before x after (List.append_inj' hsplit rfl).1

namespace Session

/-- The state after several commands, whether they are answered or fail. -/
def run (s : Session) (commands : List Command) : Session :=
  commands.foldl (fun s command => (s.step command).1) s

/-- The states that commands lead to from the state in which nothing is bound. -/
def Reachable (s : Session) : Prop :=
  ∃ commands, s = empty.run commands

@[simp] theorem registries_empty (name : String) : empty.registries[name]? = none :=
  Std.TreeMap.getElem?_emptyc

@[simp] theorem type?_empty (t : TypeId) : empty.graph.type? t = none :=
  congrArg Option.join (Array.getElem?_empty)

theorem run_append (s : Session) (commands commands' : List Command) :
    s.run (commands ++ commands') = (s.run commands).run commands' :=
  List.foldl_append

theorem run_append_cons (s : Session) (before after : List Command) (command : Command) :
    s.run (before ++ command :: after) = ((s.run before).step command).1.run after :=
  s.run_append before (command :: after)

/-- What is true at the end of a run and was not at its start has become true by a command of
the run. -/
theorem exists_command_of_run {Q : Session → Prop} {s : Session} {commands : List Command}
    (start : ¬ Q s) (h : Q (s.run commands)) :
    ∃ before command after, commands = before ++ command :: after ∧ ¬ Q (s.run before) ∧
      Q ((s.run before).step command).1 := by
  induction commands generalizing s with
  | nil => exact absurd h start
  | cons command commands ih =>
      by_cases hnext : Q (s.step command).1
      · exact ⟨[], command, commands, rfl, start, hnext⟩
      · obtain ⟨before, command', after, hsplit, hbefore, hafter⟩ := ih hnext h
        exact ⟨command :: before, command', after, congrArg (command :: ·) hsplit, hbefore, hafter⟩

/-- The requests that a command makes: a method is imported by name, or it is the
constructor that a factory has found for a record. -/
def requests (s : Session) : Command → List Referral
  | .importMethod module method _ =>
      Option.toList do
        let id ← s.modules[module]?
        let m ← s.target? id
        let e ← s.methods[method]?
        let entry ← s.graph.methodWithId? e
        return ⟨id, m, s.graph, entry⟩
  | .build factory request _ =>
      Option.toList do
        let f ← s.factories[factory]?
        let m ← s.target? f.table.module
        let entry ← (f.constructorFor s.graph request).toOption
        -- a record without its arguments is given up before its constructor is referred to
        let _ ← (f.fixedArgs request).toOption
        return ⟨f.table.module, m, s.graph, entry⟩
  | _ => []

/-- The requests that several commands make, in their order. -/
def history (s : Session) : List Command → List Referral
  | [] => []
  | command :: commands => s.requests command ++ (s.step command).1.history commands

theorem history_append (s : Session) (commands commands' : List Command) :
    s.history (commands ++ commands') =
      s.history commands ++ (s.run commands).history commands' := by
  induction commands generalizing s with
  | nil => rfl
  | cons command commands ih =>
      rw [List.cons_append, history, history, ih, List.append_assoc]
      rfl

/-- The requests of one module. -/
def historyOf (s : Session) (commands : List Command) (id : ModuleId) : List Referral :=
  (s.history commands).filter fun r => r.target = id

theorem historyOf_append (s : Session) (commands commands' : List Command) (id : ModuleId) :
    s.historyOf (commands ++ commands') id =
      s.historyOf commands id ++ (s.run commands).historyOf commands' id := by
  rw [historyOf, history_append, List.filter_append]
  rfl

theorem historyOf_cons (s : Session) (command : Command) (commands : List Command)
    (id : ModuleId) : s.historyOf (command :: commands) id =
      (s.requests command).filter (·.target = id) ++ (s.step command).1.historyOf commands id := by
  rw [historyOf, history, List.filter_append]
  rfl

theorem historyOf_concat {s : Session} {commands : List Command} {command : Command}
    {r : Referral} (h : (s.run commands).requests command = [r]) :
    s.historyOf (commands ++ [command]) r.target = s.historyOf commands r.target ++ [r] := by
  rw [historyOf, history_append, List.filter_append, history, history, List.append_nil, h]
  simp [historyOf]

end Session

end AssemblyGraph
