import AssemblyGraph.Proofs.Factory.Arguments
import AssemblyGraph.Proofs.Session.Annotation
import AssemblyGraph.Proofs.Session.CachedImport

/-!
The records that factories build for a module.

A record is made of a reference to a constructor and of arguments. The arguments
fit the constructor that was found. The reference says the same as that
constructor if it is one to the module's own method or a row that was made for
it; a row that was made earlier, for the same key, says the same only if it was
made for the same method. So a record is in order as long as the methods that
were imported are told apart by their keys.
-/

namespace AssemblyGraph

/-- A record is in order for a module: its constructor is a method of the module or a row of
its member table, has a parameter for each argument, and the arguments are declared with the
types of the table. -/
structure AttributeRecord.WellFormed (record : AttributeRecord) (table : WellKnownTable)
    (g : Graph) (m : TargetModule) : Prop where
  constructor :
    (∃ entry t d, record.constructor = .definition entry ∧
      g.declaringType? entry.method = some t ∧ g.type? t = some d ∧ d.origin = m.origin) ∨
    ∃ row, record.constructor = .imported row ∧ m.memberRef? row.token = some row
  arity : record.constructor.signature.params.length = record.fixedArgs.length
  scalars : ∀ arg ∈ record.fixedArgs ++ record.namedArgs.map (·.arg), table.Declares arg
  properties : ∀ named ∈ record.namedArgs, named.isField = false

namespace Session

open TargetModule

/-- No two methods have been imported under one key. -/
def OneMethodPerKey (requests : List Referral) : Prop :=
  ∀ r ∈ requests, ∀ r' ∈ requests, r.importedKey?.isSome → r.importedKey? = r'.importedKey? →
    r.entry.id = r'.entry.id

/-- The one request that is made for a record. -/
theorem BuildsRecord.requests_eq {s : Session} {factory : String} {request : Request}
    {f : Factory} {now : Referral} {t : TypeId} {d : TypeDecl} {record : AttributeRecord}
    (h : s.BuildsRecord factory request f now t d record) (bindTo? : Option String) :
    s.requests (.build factory request bindTo?) = [now] := by
  obtain ⟨entry, args, reference, hentry, hargs, -, -⟩ := Factory.build_eq_ok_iff.mp h.built
  have hmodule := h.module
  rw [h.target] at hmodule
  have hnow : now = ⟨f.table.module, now.module, s.graph, now.entry⟩ := by
    rw [← h.target, ← h.graph]
  rw [hnow]
  simp [requests, h.bound, hmodule, h.constructor, hargs, Except.toOption]

/-- The row that a method is referred to through says what parameters the method has. -/
theorem signature_of_row {commands : List Command} {now : Referral} {row : MemberRef}
    (module : (empty.run commands).target? now.target = some now.module)
    (graph : now.graph = (empty.run commands).graph)
    (held : now.graph.methodWithId? now.entry.id = some now.entry)
    (oneMethod : OneMethodPerKey (empty.historyOf commands now.target ++ [now]))
    (hrow : now.row? = some row) : row.signature = now.entry.method.signature := by
  rcases now.refer_cases with
    ⟨-, hnone, -⟩ | ⟨key, row', hkey, -, hcaches, -, -⟩ | ⟨t, d, key, -, -, hrow', -, -⟩
  · rw [hrow] at hnone
    cases hnone
  · -- the row was made for the first request for the key, which was for the same method
    obtain ⟨name, config, hserves⟩ := serves_of_run commands module
    rw [hserves.row?_eq_first hcaches hkey] at hrow
    rcases firstFor_cases (empty.historyOf commands now.target) key now with hnow | ⟨hmem, hkey₁⟩
    · rw [hnow] at hrow
      obtain ⟨t, d, himports, -⟩ := Referral.importedKey?_eq_some_iff.mp hkey
      rw [Referral.row?_uncached_of_imports himports] at hrow
      obtain rfl := Option.some_inj.mp hrow
      rfl
    · generalize firstFor (empty.historyOf commands now.target) key now = first at *
      obtain ⟨t₁, d₁, himports, -⟩ := Referral.importedKey?_eq_some_iff.mp hkey₁
      rw [Referral.row?_uncached_of_imports himports] at hrow
      obtain rfl := Option.some_inj.mp hrow
      have hsame : first.entry.id = now.entry.id :=
        oneMethod first (List.mem_append_left _ hmem) now (by simp) (by simp [hkey₁])
          (hkey₁.trans hkey.symm)
      obtain ⟨hheld, hkeeps⟩ := methods_of_run commands now.target first hmem
      rw [← graph] at hkeeps
      exact (hkeeps.grows hheld held hsame).signature.symm
  · obtain rfl := Option.some_inj.mp (hrow.symm.trans hrow')
    rfl

/-- A reference to a method says the same as the method, and it is one to a method of the
module or to a row that the module holds. -/
theorem reference_of_request {commands : List Command} {now : Referral}
    {reference : MethodReference}
    (module : (empty.run commands).target? now.target = some now.module)
    (graph : now.graph = (empty.run commands).graph)
    (held : now.graph.methodWithId? now.entry.id = some now.entry)
    (oneMethod : OneMethodPerKey (empty.historyOf commands now.target ++ [now]))
    (few : (rowsMade (empty.historyOf commands now.target ++ [now])).length < 2 ^ 24)
    (answer : now.outcome = .ok (reference, now.after)) :
    reference.signature = now.entry.method.signature ∧
      ((∃ entry t d, reference = .definition entry ∧
        (empty.run commands).graph.declaringType? entry.method = some t ∧
        (empty.run commands).graph.type? t = some d ∧ d.origin = now.after.origin) ∨
      ∃ row, reference = .imported row ∧ now.after.memberRef? row.token = some row) := by
  cases reference with
  | definition entry =>
      obtain ⟨rfl, hafter, t, d, ht, hd, horigin⟩ := own_of_refer answer
      rw [graph] at ht hd
      rw [hafter]
      exact ⟨rfl, .inl ⟨_, t, d, rfl, ht, hd, horigin⟩⟩
  | imported row =>
      have hrow : now.row? = some row := by
        rw [Referral.row?, answer]
        rfl
      obtain ⟨name, config, hserves⟩ := serves_of_run commands module
      have hledger := hserves.ledger (Nat.lt_of_le_of_lt (length_rowsMade_le _ _) few)
      exact ⟨signature_of_row module graph held oneMethod hrow,
        .inr ⟨row, rfl, hledger.memberRef?_of_row? few hrow⟩⟩

/-- Every record that a factory builds is in order for its module, in a run in which no two
methods have been imported into the module under one key and the module has made fewer rows
than a table can number. The argument of a record for nullability is an array if and only if
the parameter of its constructor is one. -/
theorem record_of_run (commands : List Command) {factory : String} {request : Request}
    {bindTo? : Option String} {f : Factory} {m m' : TargetModule} {record : AttributeRecord}
    (bound : (empty.run commands).factories[factory]? = some f)
    (target : (empty.run commands).target? f.table.module = some m)
    (built : f.build (empty.run commands).graph m request = .ok (record, m'))
    (oneMethod : OneMethodPerKey
      (empty.historyOf (commands ++ [.build factory request bindTo?]) f.table.module))
    (few : (rowsMade (empty.historyOf (commands ++ [.build factory request bindTo?])
      f.table.module)).length < 2 ^ 24) :
    record.WellFormed f.table (empty.run commands).graph m' ∧
      (request.kind = .nullable ∨ request.kind = .nullableFlags →
        ∃ arg param, record.fixedArgs = [arg] ∧ record.constructor.signature.params = [param] ∧
          (arg.type.isArray = true ↔ param.base.isArray = true)) := by
  obtain ⟨now, t, d, hbuilds, rfl, rfl⟩ := exists_buildsRecord bound target built
  rw [← hbuilds.target, historyOf_concat (hbuilds.requests_eq bindTo?)] at oneMethod few
  obtain ⟨entry, args, reference, hentry, hargs, hrefer, rfl⟩ := Factory.build_eq_ok_iff.mp built
  obtain rfl : now.entry = entry := Except.ok.inj (hbuilds.constructor.symm.trans hentry)
  obtain ⟨u, hmem, hadmits⟩ := Factory.exists_of_constructorFor hentry
  -- the shape was asked of the constructor that was found, and the reference agrees with it
  have hheld := Graph.methodWithId?_of_mem_methodsOf hmem
  rw [← hbuilds.graph] at hrefer hheld
  obtain ⟨hsignature, hreference⟩ :=
    reference_of_request hbuilds.module hbuilds.graph hheld oneMethod few hrefer
  have hfits : request.shape.fits reference.signature.params = true := by
    rw [hsignature]
    exact ConstructorShape.fits_of_admits hadmits
  refine ⟨⟨hreference, ?_, ?_, ?_⟩, ?_⟩
  · rw [Factory.length_fixedArgs hargs]
    exact ConstructorShape.length_of_fits hfits
  · intro arg harg
    rcases List.mem_append.mp harg with harg | harg
    · exact Factory.declares_fixedArgs hargs arg harg
    · obtain ⟨named, hnamed, rfl⟩ := List.mem_map.mp harg
      exact (Factory.property_of_namedArgs hnamed).2
  · exact fun named hnamed => (Factory.property_of_namedArgs hnamed).1
  · intro hnullable
    obtain ⟨arg, rfl, hshape⟩ := Factory.exists_arg_of_nullable hargs hnullable
    rw [hshape] at hfits
    obtain ⟨param, hparams, harray⟩ := ConstructorShape.exists_param_of_ofNullable hfits
    exact ⟨arg, param, rfl, hparams, by rw [harray]⟩

/-- A factory that has built a record, whose constructor is imported and kept. -/
def builtOnce : List Command :=
  strictFactory .standard ++ [.build "f" (.nullableFlags [1]) none]

/-- A second record with the same constructor is in order as well. -/
theorem record_of_builtOnce :
    let s := empty.run builtOnce
    ∃ f m record m', s.factories["f"]? = some f ∧
      f.build s.graph m (.nullableFlags [1, 2]) = .ok (record, m') ∧
      record.WellFormed f.table s.graph m' := by
  intro s
  let commands := builtOnce ++ [.build "f" (.nullableFlags [1, 2]) none]
  have hrun : (s.factories["f"]?.bind fun f => (s.target? f.table.module).map fun _ =>
      (f.table.module, ((f.prepare s.graph (.nullableFlags [1, 2])).map fun found =>
        (s.graph.declaringType? found.1.method).isSome).toOption)) = some (⟨0⟩, some true) := by
    decide +kernel
  -- both records ask for the same constructor
  have hentries : (empty.historyOf commands ⟨0⟩).map (·.entry.id) = [⟨3⟩, ⟨3⟩] := by
    decide +kernel
  have honeMethod : OneMethodPerKey (empty.historyOf commands ⟨0⟩) := by
    have hid : ∀ r ∈ empty.historyOf commands ⟨0⟩, r.entry.id = ⟨3⟩ := by
      intro r hr
      have hmem := List.mem_map_of_mem (f := (·.entry.id)) hr
      rw [hentries] at hmem
      simpa using hmem
    intro r hr r' hr' _ _
    rw [hid r hr, hid r' hr']
  have hfew : (rowsMade (empty.historyOf commands ⟨0⟩)).length < 2 ^ 24 := by
    have hlength := congrArg List.length hentries
    rw [List.length_map] at hlength
    refine Nat.lt_of_le_of_lt (List.length_filterMap_le _ _) ?_
    rw [hlength]
    decide
  obtain ⟨f, m, hf, hm, hp⟩ := exists_factory hrun
  obtain ⟨htarget, hprepared⟩ := Prod.mk.inj hp
  -- the record is made without looking at the module, whose cache does not evaluate
  cases hprepare : f.prepare s.graph (.nullableFlags [1, 2]) with
  | error cause =>
      rw [hprepare] at hprepared
      cases hprepared
  | ok found =>
      rw [hprepare] at hprepared
      obtain ⟨record, m', hbuilt⟩ :=
        Factory.exists_build_of_prepare hprepare (Option.some_inj.mp hprepared) m
      rw [← htarget] at honeMethod hfew
      exact ⟨f, m, record, m', hf, hbuilt,
        (record_of_run builtOnce hf hm hbuilt honeMethod hfew).1⟩

end Session

end AssemblyGraph
