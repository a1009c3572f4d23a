import AssemblyGraph.Proofs.Registry.Filed
import AssemblyGraph.Proofs.Session.Keyed
import AssemblyGraph.Proofs.Session.Links
import AssemblyGraph.Proofs.Session.RegistryLog
import AssemblyGraph.Proofs.WellKnown

/-!
Which types a table of framework types binds.

A table that is made from a registry binds each framework type to the first type that was
registered under its full name. That is looked up as a text, and as it was at the time of the
registration. So the declaration of the bound type spells the full name, with its namespace and
its simple name on either side of some dot, and the type may have been nested since. It is the
framework type itself unless its simple name has a dot or it has been nested by hand: registries
nest only types without a namespace, so no other command nests one that has a namespace.
-/

namespace AssemblyGraph

/-- Whether a command nests types by hand, that is, not by creating them in a registry. -/
def Command.nestsByHand : Command → Bool
  | .setEnclosing .. | .chain _ _ _ (.free ..) _ => true
  | _ => false

/-- A type is nested and has a namespace, as none is that a registry has made. -/
def TypeDecl.Transplanted (d : TypeDecl) : Prop :=
  d.isNested = true ∧ d.namespaceName ≠ ""

/-- A type is the framework type: a top-level one with its namespace and its simple name. -/
def Graph.Declares (g : Graph) (t : TypeId) (kind : WellKnown) : Prop :=
  ∃ d, g.type? t = some d ∧ d.isNested = false ∧ d.namespaceName = kind.namespaceName ∧
    d.name = kind.name

namespace Session

variable {s : Session} {command : Command} {commands : List Command} {t : TypeId} {d : TypeDecl}

/-! ### How a type with a namespace comes to be nested -/

theorem transplanted_frame : Graph.Frame (Graph.Inherits TypeDecl.Transplanted) := by
  refine Graph.inherits_frame (fun d fresh => ?_) fun {d d'} same => ?_
  · rintro ⟨hnested, hnamespace⟩
    rcases fresh.outermost with htop | hempty
    · rw [TypeDecl.isNested, htop] at hnested
      cases hnested
    · exact hnamespace hempty
  · rintro ⟨hnested, hnamespace⟩
    rw [TypeDecl.isNested, same.enclosing?] at hnested
    exact ⟨hnested, same.namespaceName ▸ hnamespace⟩

/-- A command that does not nest types by hand transplants none. -/
theorem transplanted_of_step (s : Session) (registered : command.nestsByHand = false) :
    Graph.Inherits TypeDecl.Transplanted s.graph (s.step command).1.graph := by
  refine inherits_step transplanted_frame s ?_ (fun _ _ _ _ _ => id) (fun _ _ => id)
    (fun _ _ _ _ _ => id) ?_
  · rintro type enclosing rfl
    cases registered
  · rintro times names enclosing? first namespaceName origin bindTo rfl
    cases registered

/-- A type came to be nested by a command of the run that nests types by hand. -/
def NestedByHand (commands : List Command) (t : TypeId) : Prop :=
  ∃ before command after, commands = before ++ command :: after ∧ command.nestsByHand = true ∧
    (empty.run before).graph.written? (.enclosing t) = none ∧
    ∃ e, ((empty.run before).step command).1.graph.written? (.enclosing t) = some e

theorem isNested_iff (hd : s.graph.type? t = some d) :
    d.isNested = true ↔ ∃ e, s.graph.written? (.enclosing t) = some e := by
  rw [Graph.written?, hd, Option.bind_some]
  exact Option.isSome_iff_exists

/-- A command of a run after which a type is nested and has a namespace, and before which it is
not nested, nests it by hand. -/
theorem nestsByHand_of_step (hd : (s.step command).1.graph.type? t = some d)
    (transplanted : d.Transplanted) (free : s.graph.written? (.enclosing t) = none) :
    command.nestsByHand = true := by
  by_contra hregistered
  obtain ⟨x, hx, hnested, -⟩ :=
    transplanted_of_step s (Bool.eq_false_iff.mpr hregistered) t d hd transplanted
  obtain ⟨e, he⟩ := (isNested_iff hx).mp hnested
  rw [free] at he
  cases he

/-- The namespace of a type is what it was after any command of the run. -/
theorem namespaceName_of_run {before after : List Command} {x : TypeDecl}
    (hx : ((s.run before).step command).1.graph.type? t = some x)
    (hd : (s.run (before ++ command :: after)).graph.type? t = some d) :
    d.namespaceName = x.namespaceName := by
  rw [run_append_cons] at hd
  rcases (run_moves _ after).continues.1.grows hx with hgone | ⟨y, hy, hgrows⟩
  · rw [hd] at hgone
    cases hgone
  · rw [Option.some_inj.mp (hd.symm.trans hy), hgrows.namespaceName]

/-- A type with a namespace is nested if it was nested by hand, and not otherwise. -/
theorem isNested_iff_nestedByHand (hd : (empty.run commands).graph.type? t = some d)
    (named : d.namespaceName ≠ "") : d.isNested = true ↔ NestedByHand commands t := by
  rw [isNested_iff hd]
  constructor
  · intro hnested
    obtain ⟨before, command, after, rfl, hfree, e, he⟩ := exists_command_of_run
      (Q := fun s => ∃ e, s.graph.written? (.enclosing t) = some e) (by simp [Graph.written?])
      hnested
    have hfree := Option.eq_none_iff_forall_ne_some.mpr fun e he => hfree ⟨e, he⟩
    obtain ⟨x, hx, henclosing⟩ := Option.bind_eq_some_iff.mp he
    have htransplanted : x.Transplanted :=
      ⟨Option.isSome_of_eq_some henclosing, namespaceName_of_run hx hd ▸ named⟩
    exact ⟨before, command, after, rfl, nestsByHand_of_step hx htransplanted hfree, hfree, e, he⟩
  · rintro ⟨before, command, after, rfl, -, -, e, he⟩
    refine ⟨e, written?_run he ?_⟩
    rw [Graph.hasSlot, Graph.isAlive, hd]
    rfl

/-! ### What a table binds -/

/-- A type whose declaration spells the full name of a framework type is that type, unless it spells
it otherwise or was nested by hand. -/
theorem declares_iff {kind : WellKnown} (hd : (empty.run commands).graph.type? t = some d)
    (spells : qualified d.namespaceName d.name = kind.fullName) :
    (empty.run commands).graph.Declares t kind ↔
      '.' ∉ d.name.toList ∧ ¬ NestedByHand commands t := by
  rw [WellKnown.dot_not_mem_iff spells]
  have hnested : d.namespaceName = kind.namespaceName →
      (d.isNested = true ↔ NestedByHand commands t) :=
    fun hnamespace => isNested_iff_nestedByHand hd (hnamespace ▸ kind.namespaceName_ne)
  constructor
  · rintro ⟨e, he, htop, hnamespace, hname⟩
    obtain rfl := Option.some_inj.mp (hd.symm.trans he)
    exact ⟨⟨hnamespace, hname⟩, (hnested hnamespace).not.mp (Bool.eq_false_iff.mp htop)⟩
  · rintro ⟨⟨hnamespace, hname⟩, hregistered⟩
    have htop := Bool.eq_false_iff.mpr ((hnested hnamespace).not.mpr hregistered)
    exact ⟨d, hd, htop, hnamespace, hname⟩

/-- The types of a table that is made from a registry. Each framework type is bound to the first
type that was registered under its full name, and the declaration of that type spells the full
name. If it has a namespace, it is nested exactly if it was nested by hand. So it is the framework
type itself exactly if there is no dot in its simple name and it was not nested by hand. -/
theorem wellKnown_of_run (commands : List Command) {reg : String} {r : Registry}
    {module : ModuleId} {table : WellKnownTable}
    (bound : (empty.run commands).registries[reg]? = some r)
    (resolved : WellKnownTable.resolve module r = .ok table) (kind : WellKnown) :
    let g := (empty.run commands).graph
    ∃ x d, (registrationsOf reg commands).find? (·.fullName = kind.fullName) = some x ∧
      table.binding? kind = some x.type ∧ g.type? x.type = some d ∧
      qualified d.namespaceName d.name = kind.fullName ∧
      (d.namespaceName ≠ "" → (d.isNested = true ↔ NestedByHand commands x.type)) ∧
      (g.Declares x.type kind ↔ '.' ∉ d.name.toList ∧ ¬ NestedByHand commands x.type) := by
  intro g
  obtain ⟨t, hnamed, hbinding⟩ := WellKnownTable.binding?_of_resolve resolved kind
  have hfiled := eachRegistry_of_reachable Registry.filed_invariant ⟨commands, rfl⟩ reg r bound
  obtain ⟨d, hd, hspells⟩ := hfiled.qualified_of_named? kind.slash_not_mem_fullName hnamed
  rw [(logged_run reg commands r bound).1.named?_eq] at hnamed
  obtain ⟨x, hfind, rfl⟩ := Option.map_eq_some_iff.mp hnamed
  exact ⟨x, d, hfind, hbinding, hd, hspells, isNested_iff_nestedByHand hd, declares_iff hd hspells⟩

/-- The framework types of a module: one has its full name cut at another dot, and one is nested
in another one after its registration. -/
def misplacedTypes : List Command := [
  .newRegistry (.module "Lib.dll") "r",
  .createType "r" "System.Runtime" "CompilerServices.CompilerGeneratedAttribute" 0 none,
  .createType "r" "System" "AttributeUsageAttribute" 0 (some "usage"),
  .createType "r" "System" "AttributeTargets" 0 (some "targets"),
  .createType "r" "System.Runtime.CompilerServices" "ReferenceAssemblyAttribute" 0 none,
  .setEnclosing "usage" "targets"]

theorem exists_table_of_misplacedTypes : ∃ r table,
    (empty.run misplacedTypes).registries["r"]? = some r ∧
    WellKnownTable.resolve ⟨0⟩ r = .ok table ∧
    table.binding? .compilerGeneratedAttribute = some ⟨6⟩ ∧
    table.binding? .attributeUsageAttribute = some ⟨7⟩ ∧
    table.binding? .attributeTargets = some ⟨8⟩ := by
  have hmade : ((empty.run misplacedTypes).registries["r"]?.map fun r =>
      (WellKnownTable.resolve ⟨0⟩ r).toOption.map fun table =>
        (table.binding? .compilerGeneratedAttribute, table.binding? .attributeUsageAttribute,
          table.binding? .attributeTargets)) = some (some (some ⟨6⟩, some ⟨7⟩, some ⟨8⟩)) := by
    decide +kernel
  obtain ⟨r, hbound, hr⟩ := Option.map_eq_some_iff.mp hmade
  obtain ⟨table, htable, hbindings⟩ := Option.map_eq_some_iff.mp hr
  obtain ⟨hmarker, hrest⟩ := Prod.mk.inj hbindings
  obtain ⟨husage, htargets⟩ := Prod.mk.inj hrest
  exact ⟨r, table, hbound, toOption_eq_some_iff.mp htable, hmarker, husage, htargets⟩

/-- The first of the three types that are bound is not the framework type, the second one was
nested by hand, and the third one was not. -/
theorem wellKnown_of_misplacedTypes : ∃ r table,
    (empty.run misplacedTypes).registries["r"]? = some r ∧
    WellKnownTable.resolve ⟨0⟩ r = .ok table ∧
    (table.binding? .compilerGeneratedAttribute = some ⟨6⟩ ∧
      ¬ (empty.run misplacedTypes).graph.Declares ⟨6⟩ .compilerGeneratedAttribute) ∧
    (table.binding? .attributeUsageAttribute = some ⟨7⟩ ∧ NestedByHand misplacedTypes ⟨7⟩) ∧
    (table.binding? .attributeTargets = some ⟨8⟩ ∧ ¬ NestedByHand misplacedTypes ⟨8⟩) := by
  obtain ⟨r, table, hbound, htable, hmarker, husage, htargets⟩ := exists_table_of_misplacedTypes
  have hnames : ((empty.run misplacedTypes).graph.type? ⟨6⟩).map TypeDecl.name =
      some "CompilerServices.CompilerGeneratedAttribute" := by
    decide +kernel
  have hnested : ((empty.run misplacedTypes).graph.type? ⟨7⟩).map
      (fun d => (d.namespaceName, d.isNested)) = some ("System", true) ∧
      ((empty.run misplacedTypes).graph.type? ⟨8⟩).map
      (fun d => (d.namespaceName, d.isNested)) = some ("System", false) := by
    decide +kernel
  refine ⟨r, table, hbound, htable, ⟨hmarker, ?_⟩, ⟨husage, ?_⟩, htargets, ?_⟩
  · obtain ⟨x, d, -, hx, hd, -, -, hdeclares⟩ :=
      wellKnown_of_run misplacedTypes hbound htable .compilerGeneratedAttribute
    rw [← Option.some_inj.mp (hx.symm.trans hmarker)] at hnames ⊢
    rw [hd, Option.map_some, Option.some_inj] at hnames
    rw [hdeclares, hnames]
    exact fun h => h.1 (by decide)
  · obtain ⟨x, d, -, hx, hd, -, hbyHand, -⟩ :=
      wellKnown_of_run misplacedTypes hbound htable .attributeUsageAttribute
    rw [← Option.some_inj.mp (hx.symm.trans husage)] at hnested ⊢
    rw [hd, Option.map_some, Option.some_inj, Prod.mk.injEq] at hnested
    exact (hbyHand (by rw [hnested.1.1]; decide)).mp hnested.1.2
  · obtain ⟨x, d, -, hx, hd, -, hbyHand, -⟩ :=
      wellKnown_of_run misplacedTypes hbound htable .attributeTargets
    rw [← Option.some_inj.mp (hx.symm.trans htargets)] at hnested ⊢
    rw [hd, Option.map_some, Option.some_inj, Prod.mk.injEq] at hnested
    rw [← hbyHand (by rw [hnested.2.1]; decide), hnested.2.2]
    exact Bool.false_ne_true

/-- Whatever is done before, a table that is made from a registry binds the framework type
itself. -/
def AlwaysBinds (kind : WellKnown) : Prop :=
  ∀ (commands : List Command) (reg : String) (r : Registry) (module : ModuleId)
    (table : WellKnownTable), (empty.run commands).registries[reg]? = some r →
    WellKnownTable.resolve module r = .ok table →
    ∃ t, table.binding? kind = some t ∧ (empty.run commands).graph.Declares t kind

/-- Not for the type whose full name is cut at another dot, and not for the one that is nested
after its registration. -/
theorem wellKnown_misplaced :
    ¬ AlwaysBinds .compilerGeneratedAttribute ∧ ¬ AlwaysBinds .attributeUsageAttribute := by
  obtain ⟨r, table, hbound, htable, hmarker, husage, -⟩ := exists_table_of_misplacedTypes
  have hcut : ((empty.run misplacedTypes).graph.type? ⟨6⟩).map TypeDecl.namespaceName =
      some "System.Runtime" := by
    decide +kernel
  have hnested : ((empty.run misplacedTypes).graph.type? ⟨7⟩).map TypeDecl.isNested =
      some true := by
    decide +kernel
  constructor
  · intro h
    obtain ⟨t, ht, d, hd, -, hnamespace, -⟩ := h misplacedTypes "r" r ⟨0⟩ table hbound htable
    rw [Option.some_inj.mp (hmarker.symm.trans ht), hd, Option.map_some, hnamespace] at hcut
    exact absurd hcut (by decide)
  · intro h
    obtain ⟨t, ht, d, hd, htop, -⟩ := h misplacedTypes "r" r ⟨0⟩ table hbound htable
    rw [Option.some_inj.mp (husage.symm.trans ht), hd, Option.map_some, htop] at hnested
    cases hnested

end Session

end AssemblyGraph
