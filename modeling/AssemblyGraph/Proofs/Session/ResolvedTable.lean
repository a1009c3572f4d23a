import AssemblyGraph.Proofs.Factory.Checks
import AssemblyGraph.Proofs.Matching.Coverage
import AssemblyGraph.Proofs.Session.Owners
import AssemblyGraph.Proofs.Session.Registration
import AssemblyGraph.Proofs.Session.TableOwner

/-!
Tables that are made from registries.

A table can be made from a registry exactly if all framework types were registered in it at some
time, for a registration is never lost; the primitive types are there in any case. It binds the
types that were registered first, and it owns them. So whatever becomes of the registry and of
other handles, the table yields the same types for as long as something has it, and a factory
over it never misses a framework type.
-/

namespace AssemblyGraph

/-! ### Factories over complete tables -/

/-- A table binds every framework type. -/
def WellKnownTable.Complete (table : WellKnownTable) : Prop :=
  ∀ kind, ∃ t, table.binding? kind = some t

theorem WellKnownTable.Complete.get {table : WellKnownTable} (complete : table.Complete)
    (kind : WellKnown) : ∃ t, table.get kind = .ok t := by
  obtain ⟨t, ht⟩ := complete kind
  exact ⟨t, by rw [WellKnownTable.get, ht]⟩

namespace Factory

variable {f : Factory} {g : Graph} {name : String}

theorem constructorOn_ne_missing (t : TypeId) (shape : ConstructorShape) :
    constructorOn g t shape ≠ .error (.wellKnownMissing name) := by
  intro h
  rcases bind_eq_error_iff.mp h with hresolve | ⟨u, -, hconstructor⟩
  · rw [Graph.resolve] at hresolve
    split at hresolve
    · cases hresolve
    · split at hresolve
      · split at hresolve <;> cases hresolve
      · cases hresolve
  · rw [Graph.constructor, Graph.findConstructor,
      ConstructorShape.toExcept_find_eq_error_iff] at hconstructor
    cases hconstructor.2

theorem wellKnownConstructor_ne_missing (complete : f.table.Complete) (kind : WellKnown)
    (shape : ConstructorShape) :
    f.wellKnownConstructor g kind shape ≠ .error (.wellKnownMissing name) := by
  obtain ⟨t, ht⟩ := complete.get kind
  rw [wellKnownConstructor, ht]
  exact constructorOn_ne_missing t shape

/-- No check of a factory misses a framework type. -/
theorem check_ne_missing (complete : f.table.Complete) (check : Check) :
    f.check g check ≠ .error (.wellKnownMissing name) := by
  intro h
  cases check with
  | compilerGenerated | attributeUsage | referenceAssembly =>
      exact wellKnownConstructor_ne_missing complete _ _ (discard_eq_error_iff.mp h)
  | attributeTargets =>
      obtain ⟨t, ht⟩ := complete.get .attributeTargets
      rw [check, ht] at h
      cases h
  | embedded | nullableScalar | nullableArray | nullableContext | nullablePublicOnly =>
      exact constructorOn_ne_missing _ _ (discard_eq_error_iff.mp h)

theorem validate_ne_missing (complete : f.table.Complete) :
    f.validate g ≠ .error (.wellKnownMissing name) := by
  intro h
  obtain ⟨-, check, -, -, -, hfails⟩ := validate_eq_error_iff.mp h
  exact check_ne_missing complete check hfails

/-- A factory that is refused is refused by its validation. -/
theorem create_ne_missing {table : WellKnownTable} (complete : table.Complete) (config : Config)
    (embedded nullable nullableContext nullablePublicOnly : TypeId) :
    create g config table embedded nullable nullableContext nullablePublicOnly ≠
      .error (.wellKnownMissing name) := by
  intro h
  rw [create] at h
  split at h
  · exact validate_ne_missing complete (map_eq_error_iff.mp h)
  · cases h

theorem build_ne_missing (complete : f.table.Complete) (m : TargetModule) (request : Request) :
    f.build g m request ≠ .error (.wellKnownMissing name) := by
  intro h
  rw [build_eq] at h
  rcases bind_eq_error_iff.mp h with hprepare | ⟨⟨entry, args⟩, -, hrefer⟩
  · rw [← discard_eq_error_iff, discard_prepare, forM_eq_error_iff] at hprepare
    obtain ⟨-, check, -, -, -, hfails⟩ := hprepare
    exact check_ne_missing complete check hfails
  · cases (TargetModule.refer_eq_error_iff.mp (map_eq_error_iff.mp hrefer)).2

end Factory

/-! ### Tables -/

/-- A table binds each framework type to the first type that was registered under its full name,
and it holds the primitive types that the registry has registered itself when it was made. -/
structure WellKnownTable.MadeFrom (table : WellKnownTable) (g : Graph)
    (log : List Registration) : Prop where
  bound : ∀ kind : WellKnown, ∃ before x after, log = before ++ x :: after ∧
    (∀ y ∈ before, y.fullName ≠ kind.fullName) ∧ x.fullName = kind.fullName ∧
    table.binding? kind = some x.type
  byte : (⟨table.byte, Primitive.byte.token, Primitive.byte.fullName⟩ : Registration) ∈
    log.take Primitive.all.length ∧ g.isPrimitive table.byte = true
  boolean : (⟨table.boolean, Primitive.boolean.token, Primitive.boolean.fullName⟩ :
    Registration) ∈ log.take Primitive.all.length ∧ g.isPrimitive table.boolean = true

/-- No factory over a table fails for want of a framework type, neither when it is made nor with
whatever is asked of it later. -/
structure WellKnownTable.NeverMissed (table : WellKnownTable) : Prop where
  create : ∀ g config embedded nullable nullableContext nullablePublicOnly name,
    Factory.create g config table embedded nullable nullableContext nullablePublicOnly ≠
      .error (.wellKnownMissing name)
  validate : ∀ (f : Factory) g name, f.table = table →
    f.validate g ≠ .error (.wellKnownMissing name)
  build : ∀ (f : Factory) g m request name, f.table = table →
    f.build g m request ≠ .error (.wellKnownMissing name)

theorem WellKnownTable.Complete.neverMissed {table : WellKnownTable} (complete : table.Complete) :
    table.NeverMissed where
  create _ config _ _ _ _ _ := Factory.create_ne_missing complete config _ _ _ _
  validate := by
    rintro f g name rfl
    exact Factory.validate_ne_missing complete
  build := by
    rintro f g m request name rfl
    exact Factory.build_ne_missing complete m request

namespace Session

/-- An owner has a table in a later state. All types of the table have lived on, what the owner is
asked for is answered with them, and the table stays with the owner, or goes to a factory. -/
structure Supplies (s s' : Session) (owner : TableOwner) (table : WellKnownTable) : Prop where
  alive : ∀ t ∈ table.ownedTypes, ∃ d d', s.graph.type? t = some d ∧
    s'.graph.type? t = some d' ∧ d.Grows d'
  answers : ∀ kind bindTo?, ∃ t ∈ table.ownedTypes, table.binding? kind = some t ∧
    (s'.step (.wellKnown owner kind bindTo?)).2 = .ok (.type (s'.graph.brief? t))
  stays : ∀ commands : List Command, (∀ command ∈ commands, owner.handle ∉ command.handles) →
    (s'.run commands).tableOf? owner = some table
  moves : ∀ name embedded nullable nullableContext nullablePublicOnly config bindTo reply,
    owner = .table name → (s'.step (.newFactory embedded nullable nullableContext
      nullablePublicOnly name config bindTo)).2 = .ok reply →
    (s'.step (.newFactory embedded nullable nullableContext nullablePublicOnly name config
      bindTo)).1.tableOf? (.factory bindTo) = some table

/-- What a table is made from is alive, so it is alive later on if the table is still there. -/
theorem supplies_of_resolve {commands : List Command} {reg : String} {r : Registry}
    (bound : (empty.run commands).registries[reg]? = some r) {module : ModuleId}
    {table : WellKnownTable} (made : WellKnownTable.resolve module r = .ok table)
    (later : List Command) {owner : TableOwner}
    (has : ((empty.run commands).run later).tableOf? owner = some table) :
    (empty.run commands).Supplies ((empty.run commands).run later) owner table where
  alive t ht := by
    have hregistered := WellKnownTable.mem_all_of_resolve made ht
    have howned := mem_ownedTypes_iff.mpr (.registry bound hregistered)
    have hbefore := (sound_of_run commands).1 t howned
    have hafter := (sound_of_run (commands ++ later)).1
    rw [run_append] at hafter
    obtain ⟨d, hd⟩ := Graph.isAlive_iff.mp hbefore
    obtain ⟨d', hd'⟩ := Graph.isAlive_iff.mp (hafter t (mem_ownedTypes_of_tableOf? has ht))
    rcases (run_moves _ later).continues.1.grows hd with hgone | ⟨e, he, hgrows⟩
    · rw [hd'] at hgone
      cases hgone
    · exact ⟨d, e, hd, he, hgrows⟩
  answers kind bindTo? := by
    obtain ⟨t, -, hbound⟩ := WellKnownTable.binding?_of_resolve made kind
    have hget : table.get kind = .ok t := by rw [WellKnownTable.get, hbound]
    exact ⟨t, WellKnownTable.mem_ownedTypes_of_get hget, hbound,
      answer_of_tableOf? has hbound bindTo?⟩
  stays commands spared := tableOf?_run has spared
  moves _ _ _ _ _ _ _ _ howner hok := tableOf?_newFactory (howner ▸ has) hok

/-- A type that a registry has as the primitive type of a kind is the one that it was made with. -/
theorem primitive_of_run {commands : List Command} {reg : String} {r : Registry}
    (bound : (empty.run commands).registries[reg]? = some r) {kind : Primitive} {t : TypeId}
    (h : r.primitive kind = .ok t) :
    (⟨t, kind.token, kind.fullName⟩ : Registration) ∈
        (registrationsOf reg commands).take Primitive.all.length ∧
      (empty.run commands).graph.isPrimitive t = true := by
  have hstarts := startsPrimitive_run reg commands
  obtain ⟨u, hmem, hprimitive, -⟩ := hstarts.logged.exists_primitive bound kind
  rw [h, Except.ok.injEq] at hprimitive
  subst hprimitive
  exact ⟨hmem, hstarts.primitive r bound _ hmem⟩

/-- Tables at the end of a run. One can be made from a registry exactly if all framework types were
registered in it; otherwise the first one that was not is reported, and nothing else ever is. A
table that is made is made from what was registered first and from the primitive types. After
any later commands, whatever they register, drop or make, the owner of the table gets the same
types from it, which have lived on, and no factory over it misses one of them. -/
theorem resolvedTable_of_run (commands : List Command) {reg : String} {r : Registry}
    (bound : (empty.run commands).registries[reg]? = some r) (module : ModuleId) :
    let s := empty.run commands
    let log := registrationsOf reg commands
    ((∃ table, WellKnownTable.resolve module r = .ok table) ↔
      ∀ kind : WellKnown, ∃ x ∈ log, x.fullName = kind.fullName) ∧
    (∀ cause, WellKnownTable.resolve module r = .error cause ↔ ∃ before kind after,
      WellKnown.all = before ++ kind :: after ∧
        (∀ earlier ∈ before, ∃ x ∈ log, x.fullName = earlier.fullName) ∧
        (∀ x ∈ log, x.fullName ≠ kind.fullName) ∧ cause = .wellKnownMissing kind.fullName) ∧
    ∀ table, WellKnownTable.resolve module r = .ok table →
      table.module = module ∧ table.MadeFrom s.graph log ∧
      (∀ name bindTo, s.modules[name]? = some module →
        (s.step (.resolveTable name reg bindTo)).1.tableOf? (.table bindTo) = some table) ∧
      (∀ later owner, (s.run later).tableOf? owner = some table →
        s.Supplies (s.run later) owner table) ∧
      table.NeverMissed := by
  intro s log
  have hlogged := logged_run reg commands
  have hrecords : r.Records log := (hlogged r bound).1
  obtain ⟨byte, -, hbyte, -⟩ := hlogged.exists_primitive bound .byte
  obtain ⟨boolean, -, hboolean, -⟩ := hlogged.exists_primitive bound .boolean
  refine ⟨?_, fun cause => ?_, fun table made => ?_⟩
  · rw [WellKnownTable.exists_resolve_iff hbyte hboolean]
    exact forall_congr' fun kind => hrecords.exists_named?_iff
  · rw [WellKnownTable.resolve_eq_error_iff hbyte hboolean]
    simp only [hrecords.exists_named?_iff, hrecords.named?_eq_none_iff]
  · obtain ⟨hmodule, htableByte, htableBoolean⟩ := WellKnownTable.primitive_of_resolve made
    have hcomplete : table.Complete := by
      intro kind
      obtain ⟨t, -, ht⟩ := WellKnownTable.binding?_of_resolve made kind
      exact ⟨t, ht⟩
    refine ⟨hmodule, ⟨fun kind => ?_, primitive_of_run bound htableByte,
      primitive_of_run bound htableBoolean⟩, fun name bindTo hname =>
      tableOf?_resolveTable hname bound made, fun later _ => supplies_of_resolve bound made later,
      hcomplete.neverMissed⟩
    obtain ⟨t, hnamed, hbinding⟩ := WellKnownTable.binding?_of_resolve made kind
    obtain ⟨before, x, after, hsplit, hbefore, hname, rfl⟩ := hrecords.split_of_named? hnamed
    exact ⟨before, x, after, hsplit, hbefore, hname, hbinding⟩

/-- The framework types are registered, one of them twice, and a module is made. -/
def frameworkTypes : List Command := [
  .newModule "out" "m" .standard, .newRegistry (.assembly "System.Runtime") "r",
  .createType "r" "System" "AttributeTargets" 0 none,
  .createType "r" "System" "AttributeTargets" 0 (some "second"),
  .createType "r" "System" "AttributeUsageAttribute" 0 none,
  .createType "r" "System.Runtime.CompilerServices" "CompilerGeneratedAttribute" 0 none,
  .createType "r" "System.Runtime.CompilerServices" "ReferenceAssemblyAttribute" 0 none]

/-- The table that is made of them has the first of the two, also when the registry is dropped. -/
theorem resolvedTable_of_frameworkTypes :
    let s := empty.run frameworkTypes
    let later := [.resolveTable "m" "r" "t", .drop .registry "r"]
    ∃ r table, s.registries["r"]? = some r ∧ WellKnownTable.resolve ⟨0⟩ r = .ok table ∧
      table.binding? .attributeTargets = some ⟨6⟩ ∧
      (s.run later).tableOf? (.table "t") = some table ∧
      (s.run later).registries["r"]?.isNone = true ∧ (s.run later).graph.isAlive ⟨6⟩ = true := by
  intro s later
  have hrun : (s.registries["r"]?.bind fun r =>
      (WellKnownTable.resolve ⟨0⟩ r).toOption.map fun table =>
        (table.binding? .attributeTargets, s.modules["m"]?)) = some (some ⟨6⟩, some ⟨0⟩) := by
    decide +kernel
  obtain ⟨r, hbound, hr⟩ := Option.bind_eq_some_iff.mp hrun
  obtain ⟨table, htable, hpair⟩ := Option.map_eq_some_iff.mp hr
  obtain ⟨hbinding, hmodule⟩ := Prod.mk.inj hpair
  have hmade := toOption_eq_some_iff.mp htable
  obtain ⟨-, -, htables⟩ := resolvedTable_of_run frameworkTypes hbound ⟨0⟩
  obtain ⟨-, -, hbinds, hsupplies, -⟩ := htables table hmade
  have hhas := hbinds "m" "t" hmodule
  have hstays : (s.run later).tableOf? (.table "t") = some table :=
    (hsupplies [.resolveTable "m" "r" "t"] _ hhas).stays [.drop .registry "r"]
      (by simp [TableOwner.handle, Command.handles])
  obtain ⟨t, ht, hbound', -⟩ := (hsupplies later _ hstays).answers .attributeTargets none
  obtain ⟨-, d, -, hd, -⟩ := (hsupplies later _ hstays).alive t ht
  obtain rfl := Option.some_inj.mp (hbinding.symm.trans hbound')
  exact ⟨r, table, hbound, hmade, hbinding, hstays, by decide +kernel,
    Graph.isAlive_iff.mpr ⟨d, hd⟩⟩

end Session

end AssemblyGraph
