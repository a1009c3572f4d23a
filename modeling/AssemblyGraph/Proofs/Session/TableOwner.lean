import AssemblyGraph.Proofs.Session.Annotation
import AssemblyGraph.Proofs.Session.Handles

/-!
The owners of tables.

A table is bound to a name until it is handed over to a factory, which has it from then on. Either
owner gives the table away or changes it only by a command that names it, so a table outlasts
whatever else is done.
-/

namespace AssemblyGraph

/-- The name by which commands refer to an owner. -/
def TableOwner.handle : TableOwner → HandleKind × String
  | .table name => (.table, name)
  | .factory name => (.factory, name)

namespace Session

/-- The table of an owner. -/
def tableOf? (s : Session) : TableOwner → Option WellKnownTable
  | .table name => s.tables[name]?
  | .factory name => (s.factories[name]?).map (·.table)

variable {s s' : Session} {owner : TableOwner} {table : WellKnownTable} {command : Command}

theorem findTable_eq (h : s.tableOf? owner = some table) (next : WellKnownTable → Outcome) :
    s.findTable owner next = next table := by
  cases owner with
  | table name =>
      have hbound : s.tables[name]? = some table := h
      rw [findTable, find, hbound]
  | factory name =>
      obtain ⟨f, hbound, rfl⟩ := Option.map_eq_some_iff.mp h
      rw [findTable, find, hbound]

theorem mem_ownedTypes_of_tableOf? (h : s.tableOf? owner = some table) {t : TypeId}
    (ht : t ∈ table.ownedTypes) : t ∈ s.ownedTypes := by
  rw [mem_ownedTypes_iff]
  cases owner with
  | table name => exact .table h ht
  | factory name =>
      obtain ⟨f, hbound, rfl⟩ := Option.map_eq_some_iff.mp h
      exact .factory hbound (Factory.mem_ownedTypes_of_table ht)

/-! ### Commands that spare an owner -/

/-- An owner has the same table in two states. -/
def KeepsTableOf (owner : TableOwner) (s s' : Session) : Prop :=
  s'.tableOf? owner = s.tableOf? owner

theorem KeepsTables.keepsTableOf (h : s.KeepsTables s') (owner : TableOwner) :
    KeepsTableOf owner s s' := by
  cases owner with
  | table name => rw [KeepsTableOf, tableOf?, tableOf?, h.tables]
  | factory name => rw [KeepsTableOf, tableOf?, tableOf?, h.factories]

theorem keepsTableOf_insertTable {name : String} (spared : owner.handle ≠ (.table, name))
    (known : WellKnownTable) :
    KeepsTableOf owner s { s with tables := s.tables.insert name known } := by
  cases owner with
  | table other =>
      have hne : name ≠ other := by
        rintro rfl
        exact spared rfl
      exact OrderedMap.getElem?_insert_of_ne _ _ hne
  | factory other => rfl

theorem keepsTableOf_eraseTable {name : String} (spared : owner.handle ≠ (.table, name)) :
    KeepsTableOf owner s { s with tables := s.tables.erase name } := by
  cases owner with
  | table other =>
      have hne : name ≠ other := by
        rintro rfl
        exact spared rfl
      exact (OrderedMap.getElem?_erase ..).trans (if_neg hne)
  | factory other => rfl

theorem keepsTableOf_insertFactory {name : String} (spared : owner.handle ≠ (.factory, name))
    (f : Factory) : KeepsTableOf owner s { s with factories := s.factories.insert name f } := by
  cases owner with
  | table other => rfl
  | factory other =>
      have hne : name ≠ other := by
        rintro rfl
        exact spared rfl
      exact congrArg (Option.map Factory.table) (OrderedMap.getElem?_insert_of_ne _ _ hne)

theorem keepsTableOf_eraseFactory {name : String} (spared : owner.handle ≠ (.factory, name)) :
    KeepsTableOf owner s { s with factories := s.factories.erase name } := by
  cases owner with
  | table other => rfl
  | factory other =>
      have hne : name ≠ other := by
        rintro rfl
        exact spared rfl
      exact congrArg (Option.map Factory.table) ((OrderedMap.getElem?_erase ..).trans (if_neg hne))

/-- A command that does not name an owner leaves it its table. -/
theorem keepsTableOf_perform (spared : owner.handle ∉ command.handles) :
    KeepsTableOf owner s (s.perform command).1 := by
  have hs : KeepsTableOf owner s s := rfl
  have hne : ∀ {handle}, handle ∈ command.handles → owner.handle ≠ handle := by
    rintro handle hmem rfl
    exact spared hmem
  cases command with
  | newTable module byte boolean bindTo =>
      exact find_keeps hs fun _ _ => find_keeps hs fun _ _ => find_keeps hs fun _ _ =>
        keepsTableOf_insertTable (hne (List.mem_singleton_self _)) _
  | resolveTable module reg bindTo =>
      exact find_keeps hs fun _ _ => find_keeps hs fun _ _ => attempt_keeps hs fun _ _ =>
        keepsTableOf_insertTable (hne (List.mem_singleton_self _)) _
  | bindWellKnown type table kind =>
      exact find_keeps hs fun t _ => find_keeps hs fun known _ =>
        ((keepsTables_settle _).keepsTableOf owner).trans
          (keepsTableOf_insertTable (hne (List.mem_singleton_self _)) (known.bind kind t))
  | newFactory embedded nullable nullableContext nullablePublicOnly table config bindTo =>
      have htaken := keepsTableOf_eraseTable (s := s) (hne (List.mem_cons_self ..))
      exact find_keeps hs fun _ _ => find_keeps hs fun _ _ => find_keeps hs fun _ _ =>
        find_keeps hs fun _ _ => find_keeps hs fun _ _ => attempt_keeps htaken fun f _ =>
          (keepsTableOf_insertFactory (hne (List.mem_cons_of_mem _ (List.mem_singleton_self _)))
            f).trans htaken
  | drop kind name =>
      cases kind with
      | table => exact keepsTableOf_eraseTable (hne (List.mem_singleton_self _))
      | factory => exact keepsTableOf_eraseFactory (hne (List.mem_singleton_self _))
      | _ => exact (keepsTables_perform rfl).keepsTableOf owner
  | _ => exact (keepsTables_perform rfl).keepsTableOf owner

theorem tableOf?_step (s : Session) (command : Command) (owner : TableOwner) :
    (s.step command).1.tableOf? owner = (s.perform command).1.tableOf? owner :=
  (keepsTables_settle _).keepsTableOf owner

theorem tableOf?_run {commands : List Command} (h : s.tableOf? owner = some table)
    (spared : ∀ command ∈ commands, owner.handle ∉ command.handles) :
    (s.run commands).tableOf? owner = some table := by
  induction commands generalizing s with
  | nil => exact h
  | cons command commands ih =>
      obtain ⟨hspared, hlater⟩ := List.forall_mem_cons.mp spared
      refine ih ?_ hlater
      rw [tableOf?_step, keepsTableOf_perform hspared, h]

/-! ### Commands that give a table to an owner -/

/-- A table that is made from a registry is bound. -/
theorem tableOf?_resolveTable {module reg bindTo : String} {id : ModuleId} {r : Registry}
    (hmodule : s.modules[module]? = some id) (hregistry : s.registries[reg]? = some r)
    (made : WellKnownTable.resolve id r = .ok table) :
    (s.step (.resolveTable module reg bindTo)).1.tableOf? (.table bindTo) = some table := by
  have hperform : s.perform (.resolveTable module reg bindTo) = s.replyTable table bindTo := by
    simp only [perform, resolveTable, find, hmodule, hregistry, attempt, made]
  rw [tableOf?_step, hperform]
  exact Std.TreeMap.getElem?_insert_self

/-- A factory that is made has the table. -/
theorem tableOf?_newFactory
    {embedded nullable nullableContext nullablePublicOnly name bindTo : String} {config : Config}
    {reply : Reply} (h : s.tableOf? (.table name) = some table)
    (made : (s.step (.newFactory embedded nullable nullableContext nullablePublicOnly name config
      bindTo)).2 = .ok reply) :
    (s.step (.newFactory embedded nullable nullableContext nullablePublicOnly name config
      bindTo)).1.tableOf? (.factory bindTo) = some table := by
  have hmade : (s.newFactory embedded nullable nullableContext nullablePublicOnly name config
    bindTo).2 = .ok reply := made
  rw [tableOf?_step]
  show (s.newFactory embedded nullable nullableContext nullablePublicOnly name config
    bindTo).1.tableOf? (.factory bindTo) = some table
  rcases s.newFactory_cases embedded nullable nullableContext nullablePublicOnly name config
    bindTo with ⟨_, heq⟩ | ⟨_, heq⟩ | ⟨f, reply', hbound, heq⟩
  · rw [heq] at hmade
    cases hmade
  · rw [heq] at hmade
    cases hmade
  · have htable : f.table = table := Option.some_inj.mp (hbound.symm.trans h)
    rw [heq, ← htable]
    exact congrArg (Option.map Factory.table) Std.TreeMap.getElem?_insert_self

/-- What is asked of the owner of a table is answered from the table. -/
theorem answer_of_tableOf? (h : s.tableOf? owner = some table) {kind : WellKnown} {t : TypeId}
    (found : table.binding? kind = some t) (bindTo? : Option String) :
    (s.step (.wellKnown owner kind bindTo?)).2 = .ok (.type (s.graph.brief? t)) := by
  have hget : table.get kind = .ok t := by rw [WellKnownTable.get, found]
  simp only [step, perform, wellKnown, findTable_eq h, attempt, hget]
  rfl

end Session

end AssemblyGraph
