import AssemblyGraph.Proofs.Factory.Validation
import AssemblyGraph.Proofs.Session.MemberTable
import AssemblyGraph.Proofs.Session.Settled

/-!
What the commands on factories leave behind.

Building a record looks everything up before it changes anything, so what fails
leaves the session as it was, and what succeeds changes the factory's module, by
one row or not at all. A validation changes nothing. A factory takes its table
over when it is made, and a table that is taken over by a factory that is then
refused is released with it.
-/

namespace AssemblyGraph.Session

open TargetModule

variable {s : Session}

/-! ### Commands that only look things up -/

theorem find_cases {α : Type} (s : Session) (bindings : Bindings α) (name : String)
    (next : α → Outcome) :
    s.find bindings name next = (s, .error (.unbound name)) ∨
      ∃ a, bindings[name]? = some a ∧ s.find bindings name next = next a := by
  rw [find]
  cases ha : bindings[name]? with
  | none => exact .inl rfl
  | some a => exact .inr ⟨a, rfl, rfl⟩

theorem validate_fst (s : Session) (factory : String) : (s.validate factory).1 = s := by
  rcases find_cases s s.factories factory _ with h | ⟨f, -, h⟩
  · exact congrArg Prod.fst h
  · refine (congrArg Prod.fst h).trans ?_
    cases f.validate s.graph <;> rfl

/-! ### Building a record -/

/-- A factory of the session builds a record: the request that it makes of its module for
the constructor, and the type that declares that constructor. -/
structure BuildsRecord (s : Session) (factory : String) (request : Request) (f : Factory)
    (now : Referral) (t : TypeId) (d : TypeDecl) (record : AttributeRecord) : Prop where
  bound : s.factories[factory]? = some f
  target : now.target = f.table.module
  module : s.target? now.target = some now.module
  graph : now.graph = s.graph
  constructor : f.constructorFor s.graph request = .ok now.entry
  declaring : now.graph.declaringType? now.entry.method = some t
  alive : now.graph.type? t = some d
  built : f.build s.graph now.module request = .ok (record, now.after)

theorem exists_buildsRecord {factory : String} {request : Request} {f : Factory}
    {m m' : TargetModule} {record : AttributeRecord} (bound : s.factories[factory]? = some f)
    (target : s.target? f.table.module = some m)
    (built : f.build s.graph m request = .ok (record, m')) :
    ∃ now t d, s.BuildsRecord factory request f now t d record ∧
      now.module = m ∧ now.after = m' := by
  obtain ⟨entry, args, reference, hentry, -, hrefer, -⟩ := Factory.build_eq_ok_iff.mp built
  obtain ⟨t, d, ht, hd⟩ := declared_of_refer hrefer
  let now : Referral := ⟨f.table.module, m, s.graph, entry⟩
  have hafter : now.after = m' := Referral.after_of_ok hrefer
  refine ⟨now, t, d, ⟨bound, rfl, target, rfl, hentry, ht, hd, ?_⟩, rfl, hafter⟩
  rw [hafter]
  exact built

/-- A record is built from what the session holds, or nothing has happened. -/
theorem build_cases (s : Session) (factory : String) (request : Request)
    (bindTo? : Option String) :
    (∃ fault, s.build factory request bindTo? = (s, .error fault)) ∨
    ∃ f now t d record reply, s.BuildsRecord factory request f now t d record ∧
      s.build factory request bindTo? =
        ((s.setTarget now.target now.after).bindRecord bindTo? record, .ok reply) := by
  rcases find_cases s s.factories factory _ with h | ⟨f, hf, h⟩
  · exact .inl ⟨_, h⟩
  cases hm : s.target? f.table.module with
  | none =>
      rw [hm] at h
      exact .inl ⟨_, h⟩
  | some m =>
      rw [hm] at h
      cases hbuild : f.build s.graph m request with
      | error cause =>
          refine .inl ⟨.failed cause, h.trans ?_⟩
          simp only [present, attempt, hbuild]
      | ok built =>
          obtain ⟨record, m'⟩ := built
          obtain ⟨now, t, d, hbuilds, -, hafter⟩ := exists_buildsRecord hf hm hbuild
          refine .inr ⟨f, now, t, d, record, .built (s.graph.viewRecord record) m'.memberRefCount,
            hbuilds, h.trans ?_⟩
          simp only [present, attempt, hbuild, hafter, hbuilds.target]
          rfl

/-- A record that is bound to a name of its own takes no owner away. -/
theorem Settled.bindRecord {bindTo? : Option String} (h : s.Settled)
    (fresh : ∀ name ∈ bindTo?, s.records[name]? = none) (record : AttributeRecord) :
    (s.bindRecord bindTo? record).Settled := by
  cases bindTo? with
  | none => exact h
  | some bindTo =>
      refine h.mono rfl fun t ht => ?_
      rw [mem_ownedTypes_iff] at ht ⊢
      cases ht with
      | type bound => exact .type bound
      | registry bound mem => exact .registry bound mem
      | table bound mem => exact .table bound mem
      | factory bound mem => exact .factory bound mem
      | @record name _ bound mem =>
          have hne : bindTo ≠ name := by
            rintro rfl
            rw [fresh bindTo rfl] at bound
            cases bound
          rw [← OrderedMap.getElem?_insert_of_ne s.records record hne] at bound
          exact .record bound mem
      | attached mem => exact .attached mem

theorem Settled.setTarget (h : s.Settled) (id : ModuleId) (m : TargetModule) :
    (s.setTarget id m).Settled :=
  h.mono rfl fun _ ht => ht

/-! ### Making a factory -/

/-- A factory is made over a table and bound, or only the table is gone, or nothing has
happened. -/
theorem newFactory_cases (s : Session)
    (embedded nullable nullableContext nullablePublicOnly table : String) (config : Config)
    (bindTo : String) :
    let made :=
      s.newFactory embedded nullable nullableContext nullablePublicOnly table config bindTo
    (∃ name, made = (s, .error (.unbound name))) ∨
    (∃ cause, made = ({ s with tables := s.tables.erase table }, .error (.failed cause))) ∨
    ∃ f reply, s.tables[table]? = some f.table ∧
      made = ({ s with
        tables := s.tables.erase table
        factories := s.factories.insert bindTo f }, .ok reply) := by
  intro made
  -- the four types and the table are looked up in turn, before anything is changed
  rcases find_cases s s.types embedded _ with h | ⟨e, -, h⟩
  · exact .inl ⟨embedded, h⟩
  rcases find_cases s s.types nullable _ with h' | ⟨n, -, h'⟩
  · exact .inl ⟨nullable, h.trans h'⟩
  replace h := h.trans h'
  rcases find_cases s s.types nullableContext _ with h' | ⟨c, -, h'⟩
  · exact .inl ⟨nullableContext, h.trans h'⟩
  replace h := h.trans h'
  rcases find_cases s s.types nullablePublicOnly _ with h' | ⟨p, -, h'⟩
  · exact .inl ⟨nullablePublicOnly, h.trans h'⟩
  replace h := h.trans h'
  rcases find_cases s s.tables table _ with h' | ⟨known, hknown, h'⟩
  · exact .inl ⟨table, h.trans h'⟩
  replace h := h.trans h'
  refine .inr ?_
  cases hcreate : Factory.create s.graph config known e n c p with
  | error cause =>
      refine .inl ⟨cause, h.trans ?_⟩
      simp only [attempt, hcreate]
  | ok f =>
      have htable : f.table = known := by rw [Factory.eq_of_create hcreate]
      refine .inr ⟨f, .memberRefCount (memberRefCountOf s f), by rw [htable, hknown], h.trans ?_⟩
      simp only [attempt, hcreate]
      rfl

/-- A factory owns what the table has owned that it takes over. -/
theorem Settled.takeTable {table bindTo : String} {f : Factory} (h : s.Settled)
    (bound : s.tables[table]? = some f.table) (fresh : s.factories[bindTo]? = none) :
    { s with
      tables := s.tables.erase table
      factories := s.factories.insert bindTo f : Session }.Settled := by
  refine h.mono rfl fun t ht => ?_
  rw [mem_ownedTypes_iff] at ht ⊢
  cases ht with
  | type bound => exact .type bound
  | registry bound mem => exact .registry bound mem
  | @table name known bound' mem =>
      -- what the table has owned has the new factory for an owner
      by_cases hname : table = name
      · subst hname
        obtain rfl := Option.some_inj.mp (bound'.symm.trans bound)
        exact .factory Std.TreeMap.getElem?_insert_self (Factory.mem_ownedTypes_of_table mem)
      · have hkept : (s.tables.erase table)[name]? = some known := by
          rw [OrderedMap.getElem?_erase, if_neg hname]
          exact bound'
        exact .table hkept mem
  | @factory name f' bound' mem =>
      have hne : bindTo ≠ name := by
        rintro rfl
        rw [fresh] at bound'
        cases bound'
      rw [← OrderedMap.getElem?_insert_of_ne s.factories f hne] at bound'
      exact .factory bound' mem
  | record bound mem => exact .record bound mem
  | attached mem => exact .attached mem

/-! ### What is left behind -/

/-- What the commands on factories leave behind, in every state that a run leads to.

A validation changes nothing, and no more does a record that cannot be built. Building a
record changes the factory's module and binds the record. The module makes one row, if the
constructor is that of another module and no row is kept for it, and otherwise stays as it
was; and if it has made fewer rows than a table can number, its member table has one row
more, with a token that no other row has. Making a factory changes no module, registry or
method. If its checks fail, its table is gone and with it the types that nothing else
owns: every other type is as it was, and each type that lives on has an owner. -/
theorem annotation_of_run (commands : List Command) :
    let s := empty.run commands
    (∀ factory, (s.step (.validate factory)).1 = s) ∧
    (∀ factory request bindTo?,
      let command := Command.build factory request bindTo?
      (∀ fault, (s.step command).2 = .error fault → (s.step command).1 = s) ∧
      ∀ reply, (s.step command).2 = .ok reply →
        ∃ f now t d record, s.BuildsRecord factory request f now t d record ∧
          (s.perform command).1 = (s.setTarget now.target now.after).bindRecord bindTo? record ∧
          ((∀ name ∈ bindTo?, s.records[name]? = none) →
            (s.step command).1 = (s.perform command).1) ∧
          (¬ now.NeedsRow d → now.after = now.module) ∧
          (now.NeedsRow d →
            now.after = now.withRow ⟨d.origin, now.entry.method.token⟩ (now.newRow t d) ∧
            ((rowsMade (empty.historyOf commands now.target)).length < 2 ^ 24 →
              now.module.memberRef? (now.newRow t d).token = none ∧
              now.after.memberRefCount = now.module.memberRefCount + 1))) ∧
    (∀ embedded nullable nullableContext nullablePublicOnly table config bindTo,
      let command :=
        Command.newFactory embedded nullable nullableContext nullablePublicOnly table config bindTo
      let s' := (s.step command).1
      (∀ name, (s.step command).2 = .error (.unbound name) → s' = s) ∧
      (∀ cause, (s.step command).2 = .error (.failed cause) →
        s' = { s with tables := s.tables.erase table, graph := s'.graph } ∧
          s.Releases s' ∧ s'.Settled) ∧
      ∀ reply, (s.step command).2 = .ok reply →
        ∃ f, s.tables[table]? = some f.table ∧
          (s.perform command).1 = { s with
            tables := s.tables.erase table
            factories := s.factories.insert bindTo f } ∧
          (s.factories[bindTo]? = none → s' = (s.perform command).1)) := by
  intro s
  have hsettled : s.Settled := settled_run commands
  refine ⟨fun factory => ?_, fun factory request bindTo? => ?_, ?_⟩
  · exact (congrArg settle (s.validate_fst factory)).trans hsettled.settle_eq_self
  · intro command
    have hperform : s.perform command = s.build factory request bindTo? := rfl
    have hanswer : (s.step command).2 = (s.perform command).2 := rfl
    have hstep : (s.step command).1 = (s.perform command).1.settle := rfl
    rw [hanswer, hstep, hperform]
    rcases s.build_cases factory request bindTo? with
      ⟨fault, hbuild⟩ | ⟨f, now, t, d, record, reply, hbuilds, hbuild⟩
    · rw [hbuild]
      exact ⟨fun _ _ => hsettled.settle_eq_self, fun _ h => (by cases h)⟩
    · rw [hbuild]
      have heffect := Referral.after_of_declared hbuilds.declaring hbuilds.alive
      refine ⟨fun _ h => (by cases h), fun _ _ =>
        ⟨f, now, t, d, record, hbuilds, rfl, fun fresh => ?_, heffect.2, fun hneeds => ?_⟩⟩
      · exact ((hsettled.setTarget now.target now.after).bindRecord fresh record).settle_eq_self
      · refine ⟨heffect.1 hneeds, fun few => ?_⟩
        obtain ⟨name, config, hserves⟩ := serves_of_run commands hbuilds.module
        rw [heffect.1 hneeds]
        exact (hserves.ledger few).memberRefCount_withRow few _ rfl
  · intro embedded nullable nullableContext nullablePublicOnly table config bindTo command s'
    have hperform : s.perform command = s.newFactory embedded nullable nullableContext
      nullablePublicOnly table config bindTo := rfl
    have hanswer : (s.step command).2 = (s.perform command).2 := rfl
    have hstep : s' = (s.perform command).1.settle := rfl
    rw [hanswer, hstep, hperform]
    rcases s.newFactory_cases embedded nullable nullableContext nullablePublicOnly table config
      bindTo with ⟨name, hmade⟩ | ⟨cause, hmade⟩ | ⟨f, reply, hknown, hmade⟩
    · rw [hmade]
      exact ⟨fun _ _ => hsettled.settle_eq_self, fun _ h => (by cases h), fun _ h => (by cases h)⟩
    · rw [hmade]
      exact ⟨fun _ h => (by cases h),
        fun _ _ => ⟨settle_eq _, releases_settle _, settled_settle _⟩, fun _ h => (by cases h)⟩
    · rw [hmade]
      exact ⟨fun _ h => (by cases h), fun _ h => (by cases h), fun _ _ =>
        ⟨f, hknown, rfl, fun fresh => (hsettled.takeTable hknown fresh).settle_eq_self⟩⟩

/-- A table that alone owns a type and that no valid factory can be made with. -/
def owningTable : List Command := [
  .newType ⟨⟨0x02000001⟩, "", "Byte", 0, .module "lib"⟩ (some "b"),
  .newType ⟨⟨0x02000002⟩, "N", "O", 0, .module "lib"⟩ (some "o"),
  .newModule "app" "m" .standard, .newTable "m" "b" "o" "t", .drop .type "b"]

/-- The first record that a factory builds gives its module a row, and changes nothing else. A
factory that is refused takes its table along, and the type that only the table has owned. -/
theorem annotation_of_strictFactory :
    (let s := empty.run (strictFactory .uncached)
      let command := Command.build "f" (.nullableFlags [1, 2]) none
      ∃ now : Referral, s.target? now.target = some now.module ∧
        (s.step command).1 = s.setTarget now.target now.after ∧
        now.after.memberRefCount = now.module.memberRefCount + 1) ∧
    (let s := empty.run owningTable
      let refused := s.step (.newFactory "o" "o" "o" "o" "t" .strict "f")
      s.graph.isAlive ⟨0⟩ = true ∧ refused.1.graph.isAlive ⟨0⟩ = false ∧
        refused.1.graph.type? ⟨1⟩ = s.graph.type? ⟨1⟩) := by
  refine ⟨?built, ?refused⟩
  case built =>
    intro s command
    have hrun : (s.factories["f"]?.bind fun f => (s.target? f.table.module).map fun m =>
        (f.table.module, m.memberRefCount,
          (f.build s.graph m (.nullableFlags [1, 2])).toOption.map (·.2.memberRefCount))) =
          some (⟨0⟩, 0, some 1) := by
      decide +kernel
    have hfew : (rowsMade (empty.historyOf (strictFactory .uncached) ⟨0⟩)).length = 0 := by
      decide +kernel
    have hanswer : (s.step command).2.toBool = true := by decide +kernel
    obtain ⟨reply, hreply⟩ := toBool_eq_true_iff.mp hanswer
    obtain ⟨-, hbuild, -⟩ := annotation_of_run (strictFactory .uncached)
    obtain ⟨f, now, t, d, record, hbuilds, hperform, hstep, hkept, hmade⟩ :=
      (hbuild "f" (.nullableFlags [1, 2]) none).2 reply hreply
    obtain ⟨f', m, hf, hm, hp⟩ := exists_factory hrun
    obtain rfl := Option.some_inj.mp (hf.symm.trans hbuilds.bound)
    obtain ⟨htarget, hcounts⟩ := Prod.mk.inj hp
    obtain ⟨hbefore, hafter⟩ := Prod.mk.inj hcounts
    rw [← hbuilds.target] at hm htarget
    obtain rfl := Option.some_inj.mp (hm.symm.trans hbuilds.module)
    rw [hbuilds.built] at hafter
    have hafter : now.after.memberRefCount = 1 := Option.some_inj.mp hafter
    -- the number of rows has changed, so a row was needed
    have hneeds : now.NeedsRow d := by
      by_contra hnot
      rw [hkept hnot, hbefore] at hafter
      cases hafter
    refine ⟨now, hm, (hstep (by simp)).trans hperform, ((hmade hneeds).2 ?_).2⟩
    rw [htarget, hfew]
    decide
  case refused =>
    intro s refused
    obtain ⟨-, -, hmake⟩ := annotation_of_run owningTable
    obtain ⟨-, hfails, -⟩ := hmake "o" "o" "o" "o" "t" .strict "f"
    have hchecked : (match refused.2 with | .error (.failed _) => true | _ => false) = true := by
      decide +kernel
    obtain ⟨cause, hcause⟩ : ∃ cause, refused.2 = .error (.failed cause) := by
      revert hchecked
      rcases refused.2 with (_ | cause) | _
      · exact nofun
      · exact fun _ => ⟨cause, rfl⟩
      · exact nofun
    obtain ⟨-, ⟨-, hreleases⟩, hsettled⟩ := hfails cause hcause
    refine ⟨by decide +kernel, Bool.eq_false_iff.mpr fun halive => ?_, ?_⟩
    · have hunowned : (⟨0⟩ : TypeId) ∉ refused.1.ownedTypes := by decide +kernel
      exact hunowned (hsettled _ halive)
    · have howned : (⟨1⟩ : TypeId) ∈ refused.1.ownedTypes := by decide +kernel
      exact (hreleases ⟨1⟩).resolve_right fun hgone => hgone.2 howned

/-! ### A factory that is refused -/

/-- A factory that is not made leaves all types as they were. -/
def RefusalKeepsTypes (s : Session) : Prop :=
  ∀ embedded nullable nullableContext nullablePublicOnly table config bindTo fault,
    let step := s.step
      (.newFactory embedded nullable nullableContext nullablePublicOnly table config bindTo)
    step.2 = .error fault → step.1.graph.types = s.graph.types

/-- A type is released together with the table that was given to the factory. -/
theorem refusal_releases_type : ¬ (empty.run owningTable).RefusalKeepsTypes := by
  intro hkeeps
  let step := (empty.run owningTable).step (.newFactory "o" "o" "o" "o" "t" .strict "f")
  have hanswer : step.2.toBool = false := by decide +kernel
  have hbefore : ((empty.run owningTable).graph.types.map Option.isSome) = #[true, true] := by
    decide +kernel
  have hafter : step.1.graph.types.map Option.isSome = #[false, true] := by decide +kernel
  obtain ⟨fault, hfault⟩ := toBool_eq_false_iff.mp hanswer
  rw [hkeeps "o" "o" "o" "o" "t" .strict "f" fault hfault, hbefore] at hafter
  cases hafter

end AssemblyGraph.Session
