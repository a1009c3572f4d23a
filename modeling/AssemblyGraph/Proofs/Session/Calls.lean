import AssemblyGraph.Proofs.Session.Handles
import AssemblyGraph.Proofs.Session.Records

/-!
Calls of factories.

A call reads the graph, the factory and the name of the factory's module. No call changes
any of these, so a call fails or succeeds in the same way and imports the same key,
however many other calls have been made before it.
-/

namespace AssemblyGraph

/-- A call of an operation of a factory. The record may be bound to a name. -/
structure FactoryCall where
  factory : String
  request : Request
  bindTo? : Option String

namespace FactoryCall

def command (c : FactoryCall) : Command :=
  .build c.factory c.request c.bindTo?

/-- What a call comes to: the record that it makes, or the reason why it makes none. -/
def outcome (s : Session) (c : FactoryCall) : Except Fault AttributeRecord :=
  match s.factories[c.factory]? with
  | none => .error (.unbound c.factory)
  | some f =>
      match s.target? f.table.module with
      | none => .error (.unbound c.factory)
      | some m => ((f.build s.graph m c.request).map (·.1)).mapError .failed

/-- The row that an outcome refers to, if it is a record with a constructor of another
module. -/
def importedRow? : Except Fault AttributeRecord → Option MemberRef
  | .ok record => record.constructor.member?
  | .error _ => none

/-- Two calls fail for the same reason, or they make records that differ in their
constructors at most, which are both imported or both not. -/
inductive SameOutcome : Except Fault AttributeRecord → Except Fault AttributeRecord → Prop
  | fails (fault : Fault) : SameOutcome (.error fault) (.error fault)
  | makes {record record' : AttributeRecord} (fixedArgs : record.fixedArgs = record'.fixedArgs)
      (namedArgs : record.namedArgs = record'.namedArgs)
      (isImported : record.constructor.isImported = record'.constructor.isImported) :
      SameOutcome (.ok record) (.ok record')

theorem SameOutcome.symm {o o' : Except Fault AttributeRecord} (h : SameOutcome o o') :
    SameOutcome o' o := by
  cases h with
  | fails fault => exact .fails fault
  | makes fixedArgs namedArgs isImported =>
      exact .makes fixedArgs.symm namedArgs.symm isImported.symm

theorem SameOutcome.trans {o o' o'' : Except Fault AttributeRecord} (h : SameOutcome o o')
    (h' : SameOutcome o' o'') : SameOutcome o o'' := by
  cases h with
  | fails fault => exact h'
  | makes fixedArgs namedArgs isImported =>
      cases h' with
      | makes fixedArgs' namedArgs' isImported' =>
          exact .makes (fixedArgs.trans fixedArgs') (namedArgs.trans namedArgs')
            (isImported.trans isImported')

theorem SameOutcome.isSome_importedRow? {o o' : Except Fault AttributeRecord}
    (h : SameOutcome o o') : (importedRow? o).isSome = (importedRow? o').isSome := by
  cases h with
  | fails fault => rfl
  | makes fixedArgs namedArgs isImported => exact isImported

/-- The keys that a call would import now, of which there is one at most. -/
def keys (s : Session) (c : FactoryCall) : List ImportKey :=
  TargetModule.keysImported (s.requests c.command)

end FactoryCall

/-! ### What a call reads of a module -/

/-- What never changes of a module. -/
def TargetModule.settings (m : TargetModule) : String × Bool :=
  (m.name, m.cachesImports)

open FactoryCall in
theorem Factory.sameOutcome_of_name {m m' : TargetModule} (h : m'.name = m.name) (f : Factory)
    (g : Graph) (request : Request) :
    SameOutcome (((f.build g m request).map (·.1)).mapError .failed)
      (((f.build g m' request).map (·.1)).mapError .failed) := by
  rw [build_eq, build_eq]
  cases f.prepare g request with
  | error cause => exact .fails _
  | ok found =>
      show SameOutcome ((((m.refer g found.1).map _).map _).mapError _)
        ((((m'.refer g found.1).map _).map _).mapError _)
      rcases TargetModule.refer_cases_of_name h g found.1 with
        ⟨cause, hrefer, hrefer'⟩ | ⟨made, made', hrefer, hrefer', himported⟩
      · rw [hrefer, hrefer']
        exact .fails _
      · rw [hrefer, hrefer']
        exact .makes rfl rfl himported

namespace Session

open TargetModule

/-! ### The settings of modules -/

section Settings

variable {s s' : Session}

theorem settings_setTarget {r : Referral} (known : s.target? r.target = some r.module)
    (id : ModuleId) :
    ((s.setTarget r.target r.after).target? id).map settings = (s.target? id).map settings := by
  rw [target?_setTarget known]
  split
  · rename_i hid
    rw [← hid, known, Option.map_some, Option.map_some, settings, settings,
      r.settings_after.1, r.settings_after.2]
  · rfl

theorem target?_cases_of_settings {id : ModuleId}
    (h : (s'.target? id).map settings = (s.target? id).map settings) :
    (s.target? id = none ∧ s'.target? id = none) ∨
    ∃ m m', s.target? id = some m ∧ s'.target? id = some m' ∧ m'.name = m.name ∧
      m'.cachesImports = m.cachesImports := by
  cases hm : s.target? id with
  | none =>
      rw [hm, Option.map_none, Option.map_eq_none_iff] at h
      exact .inl ⟨rfl, h⟩
  | some m =>
      rw [hm, Option.map_some] at h
      obtain ⟨m', hm', hsame⟩ := Option.map_eq_some_iff.mp h
      obtain ⟨hname, hcaches⟩ := Prod.mk.inj hsame
      exact .inr ⟨m, m', rfl, hm', hname, hcaches⟩

end Settings

/-! ### Sessions in which calls have been made -/

/-- What calls of factories leave as it was: the graph, the factories and the names of modules;
and no owner of types is gone. -/
structure AfterCalls (s s' : Session) : Prop where
  owners : s.KeepsOwners s'
  graph : s'.graph = s.graph
  factories : s'.factories = s.factories
  targets : ∀ id, (s'.target? id).map settings = (s.target? id).map settings

/-- A call binds its record to no name that is in use. -/
def BindsFree (s : Session) (c : FactoryCall) : Prop :=
  ∀ name ∈ c.bindTo?, s.records.contains name = false

variable {s s' : Session} {c : FactoryCall} {calls : List FactoryCall}

theorem AfterCalls.refl (s : Session) : s.AfterCalls s :=
  ⟨.refl s, rfl, rfl, fun _ => rfl⟩

theorem AfterCalls.settled (h : s.AfterCalls s') (settled : s.Settled) (recorded : s.Recorded) :
    s'.Settled :=
  settled.mono h.graph fun _ ht => h.owners.mem_ownedTypes recorded ht

theorem AfterCalls.setTarget (h : s.AfterCalls s') (r : Referral)
    (known : s'.target? r.target = some r.module) :
    s.AfterCalls (s'.setTarget r.target r.after) where
  owners := { h.owners with }
  graph := h.graph
  factories := h.factories
  targets id := (settings_setTarget known id).trans (h.targets id)

theorem AfterCalls.bindRecord (h : s.AfterCalls s') {bindTo? : Option String}
    (free : ∀ name ∈ bindTo?, s.records.contains name = false) (record : AttributeRecord) :
    s.AfterCalls (s'.bindRecord bindTo? record) where
  owners := h.owners.bindRecord free record
  graph := (graph_bindRecord ..).trans h.graph
  factories := by cases bindTo? <;> exact h.factories
  targets := by cases bindTo? <;> exact h.targets

/-- One more call. What it may replace is a record of an earlier call, whose types the factory
owns. -/
theorem AfterCalls.step (h : s.AfterCalls s') (settled : s.Settled) (recorded : s.Recorded)
    (free : s.BindsFree c) : s.AfterCalls (s'.step c.command).1 := by
  have hperform : s.AfterCalls (s'.perform c.command).1 := by
    rcases s'.build_cases c.factory c.request c.bindTo? with
      ⟨fault, hbuild⟩ | ⟨f, now, t, d, record, reply, hbuilds, hbuild⟩
    · rw [show s'.perform c.command = _ from hbuild]
      exact h
    · rw [show s'.perform c.command = _ from hbuild]
      exact (h.setTarget now hbuilds.module).bindRecord free record
  show s.AfterCalls (s'.perform c.command).1.settle
  rw [(hperform.settled settled recorded).settle_eq_self]
  exact hperform

theorem AfterCalls.run (h : s.AfterCalls s') (settled : s.Settled) (recorded : s.Recorded)
    (free : ∀ c ∈ calls, s.BindsFree c) :
    s.AfterCalls (s'.run (calls.map FactoryCall.command)) := by
  induction calls generalizing s' with
  | nil => exact h
  | cons c calls ih =>
      obtain ⟨hfree, hrest⟩ := List.forall_mem_cons.mp free
      exact ih (h.step settled recorded hfree) hrest

/-! ### What a call comes to -/

/-- A call comes to the same, however many calls have been made before it. -/
theorem AfterCalls.sameOutcome (h : s.AfterCalls s') (c : FactoryCall) :
    FactoryCall.SameOutcome (c.outcome s) (c.outcome s') := by
  rw [FactoryCall.outcome, FactoryCall.outcome, h.factories, h.graph]
  cases s.factories[c.factory]? with
  | none => exact .fails _
  | some f =>
      rcases target?_cases_of_settings (h.targets f.table.module) with
        ⟨hm, hm'⟩ | ⟨m, m', hm, hm', hname, -⟩
      · simp only [hm, hm']
        exact .fails _
      · simp only [hm, hm']
        exact f.sameOutcome_of_name hname s.graph c.request

theorem AfterCalls.keys_eq (h : s.AfterCalls s') (c : FactoryCall) : c.keys s' = c.keys s := by
  rw [FactoryCall.keys, FactoryCall.keys, FactoryCall.command, requests, requests, h.factories,
    h.graph]
  cases s.factories[c.factory]? with
  | none => rfl
  | some f =>
      rcases target?_cases_of_settings (h.targets f.table.module) with
        ⟨hm, hm'⟩ | ⟨m, m', hm, hm', hname, -⟩
      · simp [hm, hm']
      · simp only [Option.bind_eq_bind, Option.bind_some, hm, hm']
        cases (f.constructorFor s.graph c.request).toOption with
        | none => rfl
        | some entry =>
            cases (f.fixedArgs c.request).toOption with
            | none => rfl
            | some args =>
                show keysImported ([] ++ [_]) = keysImported ([] ++ [_])
                rw [keysImported_concat, keysImported_concat,
                  Referral.importedKey?_of_name hname f.table.module s.graph entry]

/-! ### The requests of calls -/

/-- A call is one of a factory over a module. -/
def CallsOver (s : Session) (id : ModuleId) (c : FactoryCall) : Prop :=
  ∃ f, s.factories[c.factory]? = some f ∧ f.table.module = id

theorem AfterCalls.requests_filter (h : s.AfterCalls s') {id : ModuleId}
    (belongs : s.CallsOver id c) :
    (s'.requests c.command).filter (·.target = id) = s'.requests c.command := by
  obtain ⟨f, hf, rfl⟩ := belongs
  refine List.filter_eq_self.mpr fun r hr => ?_
  rw [FactoryCall.command, requests, h.factories, hf] at hr
  simp only [Option.bind_eq_bind, Option.bind_some, Option.mem_toList, Option.bind_eq_some_iff]
    at hr
  obtain ⟨m, -, entry, -, args, -, hr⟩ := hr
  cases hr
  exact decide_eq_true rfl

/-- The keys that calls import are those that each of them would have imported at first. -/
theorem AfterCalls.keysImported_historyOf (h : s.AfterCalls s') (settled : s.Settled)
    (recorded : s.Recorded) {id : ModuleId} (free : ∀ c ∈ calls, s.BindsFree c)
    (belongs : ∀ c ∈ calls, s.CallsOver id c) :
    keysImported (s'.historyOf (calls.map FactoryCall.command) id) =
      calls.flatMap (FactoryCall.keys s) := by
  induction calls generalizing s' with
  | nil => rfl
  | cons c calls ih =>
      obtain ⟨hfree, hrest⟩ := List.forall_mem_cons.mp free
      obtain ⟨hbelongs, hothers⟩ := List.forall_mem_cons.mp belongs
      rw [List.map_cons, historyOf_cons, h.requests_filter hbelongs, List.flatMap_cons,
        ← h.keys_eq c, ← ih (h.step settled recorded hfree) hrest hothers]
      exact List.filterMap_append

theorem BuildsRecord.outcome_eq {factory : String} {request : Request} {f : Factory}
    {now : Referral} {t : TypeId} {d : TypeDecl} {record : AttributeRecord}
    (h : s.BuildsRecord factory request f now t d record) :
    now.outcome = .ok (record.constructor, now.after) := by
  obtain ⟨entry, args, reference, hentry, -, hrefer, rfl⟩ := Factory.build_eq_ok_iff.mp h.built
  obtain rfl : now.entry = entry := Except.ok.inj (h.constructor.symm.trans hentry)
  rw [Referral.outcome, h.graph]
  exact hrefer

theorem exists_buildsRecord_of_outcome {record : AttributeRecord}
    (h : c.outcome s = .ok record) :
    ∃ f now t d, s.BuildsRecord c.factory c.request f now t d record := by
  rw [FactoryCall.outcome] at h
  cases hf : s.factories[c.factory]? with
  | none =>
      simp only [hf] at h
      cases h
  | some f =>
      cases hm : s.target? f.table.module with
      | none =>
          simp only [hf, hm] at h
          cases h
      | some m =>
          simp only [hf, hm, mapError_eq_ok_iff] at h
          cases hbuild : f.build s.graph m c.request with
          | error cause =>
              rw [hbuild] at h
              cases h
          | ok built =>
              rw [hbuild] at h
              cases h
              obtain ⟨now, t, d, hbuilds, -, -⟩ := exists_buildsRecord hf hm hbuild
              exact ⟨f, now, t, d, hbuilds⟩

/-- The command of a call answers with a fault, or with a view of a record, which is then bound
to the name of the call. -/
def Answers (s : Session) (c : FactoryCall) : Except Fault AttributeRecord → Prop
  | .error fault => (s.step c.command).2 = .error fault
  | .ok record =>
      (∃ count, (s.step c.command).2 = .ok (.built (s.graph.viewRecord record) count)) ∧
      ∀ name ∈ c.bindTo?, (s.step c.command).1.records[name]? = some record

/-- What a call comes to is what its command answers. -/
theorem answers_outcome (s : Session) (c : FactoryCall) : s.Answers c (c.outcome s) := by
  have hanswer : (s.step c.command).2 = (s.build c.factory c.request c.bindTo?).2 := rfl
  have hrecords : (s.step c.command).1.records =
      (s.build c.factory c.request c.bindTo?).1.records := by
    show (s.perform c.command).1.settle.records = _
    rw [settle_eq]
    rfl
  unfold Answers
  rw [hanswer, hrecords, build, find, FactoryCall.outcome]
  cases s.factories[c.factory]? with
  | none => rfl
  | some f =>
      simp only [present]
      cases s.target? f.table.module with
      | none => rfl
      | some m =>
          simp only [attempt]
          cases f.build s.graph m c.request with
          | error cause => rfl
          | ok built =>
              refine ⟨⟨_, rfl⟩, fun name hname => ?_⟩
              rw [Option.mem_def.mp hname]
              exact Std.TreeMap.getElem?_insert_self

/-- A record with a constructor of another module answers an import. -/
theorem AfterCalls.exists_request (h : s.AfterCalls s') {id : ModuleId}
    (belongs : s.CallsOver id c) {row : MemberRef}
    (imported : FactoryCall.importedRow? (c.outcome s') = some row) :
    ∃ r key, s'.requests c.command = [r] ∧ r.target = id ∧ r.row? = some row ∧
      r.importedKey? = some key ∧ c.keys s = [key] := by
  cases houtcome : c.outcome s' with
  | error fault =>
      rw [houtcome] at imported
      cases imported
  | ok record =>
      obtain ⟨f, now, t, d, hbuilds⟩ := exists_buildsRecord_of_outcome houtcome
      obtain ⟨f', hf', rfl⟩ := belongs
      rw [← h.factories] at hf'
      obtain rfl := Option.some_inj.mp (hf'.symm.trans hbuilds.bound)
      have hrow : now.row? = some row := by
        rw [Referral.row?, hbuilds.outcome_eq, ← imported, houtcome]
        rfl
      have hrequests : s'.requests c.command = [now] := hbuilds.requests_eq c.bindTo?
      rcases now.refer_cases with ⟨-, hnone, -⟩ | ⟨key, -, hkey, -⟩ | ⟨-, -, key, -, hkey, -⟩
      · rw [hrow] at hnone
        cases hnone
      all_goals
        refine ⟨now, key, hrequests, hbuilds.target, hrow, hkey, ?_⟩
        rw [← h.keys_eq c, FactoryCall.keys, hrequests]
        simp [keysImported, hkey]

end Session

end AssemblyGraph
