import AssemblyGraph.Proofs.Session.Frame
import AssemblyGraph.Proofs.Session.RegistryLog
import AssemblyGraph.Proofs.Session.Settled

/-!
Commands that take no handle away.

Types are owned through handles: through the names of types, registries, tables,
factories and records. A command that binds no such name that is in use, and frees none,
leaves all owners where they were, whatever it adds to them. Then nothing that lived
between two commands is released, also in the sweeps that a command makes on its way.
-/

namespace AssemblyGraph

/-- The names of owning objects that a command binds anew, changes the object of, or frees. -/
def Command.handles : Command → List (HandleKind × String)
  | .newRegistry _ bindTo => [(.registry, bindTo)]
  | .createType _ _ _ _ bindTo? | .createNested _ _ _ _ bindTo? | .createRef _ _ _ _ bindTo?
  | .newType _ bindTo? | .resolve _ bindTo? | .get _ _ bindTo? | .named _ _ bindTo?
  | .primitive _ _ bindTo? | .upgrade _ bindTo? | .wellKnown _ _ bindTo? =>
    bindTo?.toList.map (.type, ·)
  | .chain times _ _ _ bindTo => (List.range times).map fun i => (.type, bindTo ++ toString i)
  | .newTable _ _ _ bindTo | .resolveTable _ _ bindTo => [(.table, bindTo)]
  | .bindWellKnown _ table _ => [(.table, table)]
  | .newFactory _ _ _ _ table _ bindTo => [(.table, table), (.factory, bindTo)]
  | .build _ _ bindTo? => bindTo?.toList.map (.record, ·)
  | .makeRecord _ _ _ bindTo => [(.record, bindTo)]
  | .drop kind name => [(kind, name)]
  | _ => []

namespace Session

/-- Whether a name is in use for an object of a kind. -/
def isBound (s : Session) : HandleKind × String → Bool
  | (.registry, name) => s.registries.contains name
  | (.type, name) => s.types.contains name
  | (.method, name) => s.methods.contains name
  | (.link, name) => s.links.contains name
  | (.module, name) => s.modules.contains name
  | (.methodRef, name) => s.methodRefs.contains name
  | (.table, name) => s.tables.contains name
  | (.factory, name) => s.factories.contains name
  | (.record, name) => s.records.contains name

/-- A command binds anew and frees only names that are not in use. -/
def TakesNoHandle (s : Session) (command : Command) : Prop :=
  ∀ handle ∈ command.handles, s.isBound handle = false

end Session

/-- What is bound in one map is bound to the same object in another. -/
def Bindings.Keeps {α : Type} (m m' : Bindings α) : Prop :=
  ∀ (name : String) (a : α), m[name]? = some a → m'[name]? = some a

namespace Bindings.Keeps

variable {α : Type} {m m' : Bindings α} {name : String}

theorem refl (m : Bindings α) : m.Keeps m :=
  fun _ _ h => h

theorem name_ne (free : m.contains name = false) {key : String} {a : α}
    (bound : m[key]? = some a) : name ≠ key := by
  rintro rfl
  rw [Std.TreeMap.contains_eq_isSome_getElem?, bound] at free
  cases free

theorem insert (h : m.Keeps m') (free : m.contains name = false) (a : α) :
    m.Keeps (m'.insert name a) := by
  intro key b hb
  rw [OrderedMap.getElem?_insert_of_ne _ _ (name_ne free hb)]
  exact h key b hb

theorem erase (h : m.Keeps m') (free : m.contains name = false) : m.Keeps (m'.erase name) := by
  intro key b hb
  rw [OrderedMap.getElem?_erase, if_neg (name_ne free hb)]
  exact h key b hb

end Bindings.Keeps

namespace Session

/-- Every owner of types is where it was, and owns what it owned. -/
structure KeepsOwners (s s' : Session) : Prop where
  types : s.types.Keeps s'.types
  tables : s.tables.Keeps s'.tables
  factories : s.factories.Keeps s'.factories
  records : s.records.Keeps s'.records
  registries : ∀ (name : String) (r : Registry), s.registries[name]? = some r →
    ∃ r' log, s'.registries[name]? = some r' ∧ r.Becomes log r'
  graph : s.graph.KeepsTypes s'.graph

variable {s s' s'' : Session}

theorem KeepsOwners.refl (s : Session) : s.KeepsOwners s where
  types := .refl _
  tables := .refl _
  factories := .refl _
  records := .refl _
  registries _ r h := ⟨r, [], h, .of_eq rfl rfl⟩
  graph := .refl s.graph

/-! ### Single changes -/

section

variable {g : Graph} {name : String} {bindTo? : Option String} (h : s.KeepsOwners s')

include h

theorem KeepsOwners.withGraph (keeps : s'.graph.KeepsTypes g) :
    s.KeepsOwners { s' with graph := g } :=
  { h with graph := h.graph.trans keeps }

/-- Work on a registry that only adds to it. -/
theorem KeepsOwners.withRegistry {reg : String} {r r' : Registry} {log : List Registration}
    (bound : s'.registries[reg]? = some r) (becomes : r.Becomes log r')
    (keeps : s'.graph.KeepsTypes g) :
    s.KeepsOwners { s' with graph := g, registries := s'.registries.insert reg r' } :=
  { h.withGraph keeps with
    registries := fun name r₀ hr₀ => by
      obtain ⟨r₁, log₁, hr₁, hbecomes⟩ := h.registries name r₀ hr₀
      by_cases hname : reg = name
      · subst hname
        obtain rfl := Option.some_inj.mp (bound.symm.trans hr₁)
        exact ⟨r', _, Std.TreeMap.getElem?_insert_self, hbecomes.trans becomes⟩
      · exact ⟨r₁, log₁, (OrderedMap.getElem?_insert_of_ne _ _ hname).trans hr₁, hbecomes⟩ }

theorem KeepsOwners.newRegistry (free : s.registries.contains name = false) (r : Registry)
    (keeps : s'.graph.KeepsTypes g) :
    s.KeepsOwners { s' with graph := g, registries := s'.registries.insert name r } :=
  { h.withGraph keeps with
    registries := fun key r₀ hr₀ => by
      obtain ⟨r₁, log₁, hr₁, hbecomes⟩ := h.registries key r₀ hr₀
      have hne := Bindings.Keeps.name_ne free hr₀
      exact ⟨r₁, log₁, (OrderedMap.getElem?_insert_of_ne _ _ hne).trans hr₁, hbecomes⟩ }

theorem KeepsOwners.bindType (free : ∀ name ∈ bindTo?, s.types.contains name = false)
    (t : TypeId) : s.KeepsOwners (s'.bindType bindTo? t) := by
  cases bindTo? with
  | none => exact h
  | some name => exact { h with types := h.types.insert (free name rfl) t }

theorem KeepsOwners.replyType (free : ∀ name ∈ bindTo?, s.types.contains name = false)
    {found? : Option TypeId} : s.KeepsOwners (s'.replyType found? bindTo?).1 := by
  cases found? with
  | none => exact h
  | some t => exact h.bindType free t

theorem KeepsOwners.bindRecord (free : ∀ name ∈ bindTo?, s.records.contains name = false)
    (record : AttributeRecord) : s.KeepsOwners (s'.bindRecord bindTo? record) := by
  cases bindTo? with
  | none => exact h
  | some name => exact { h with records := h.records.insert (free name rfl) record }

theorem KeepsOwners.bindMethod (m : MethodId) : s.KeepsOwners (s'.bindMethod bindTo? m) := by
  cases bindTo? with
  | none => exact h
  | some name => exact { h with }

theorem KeepsOwners.bindMethodRef (r : MethodReference) :
    s.KeepsOwners (s'.bindMethodRef bindTo? r) := by
  cases bindTo? with
  | none => exact h
  | some name => exact { h with }

theorem KeepsOwners.finishCreation {reg : String} {r : Registry} {c : Creation}
    (bound : s'.registries[reg]? = some r) (becomes : r.Becomes c.registered c.registry)
    (keeps : s'.graph.KeepsTypes c.graph)
    (free : ∀ name ∈ bindTo?, s.types.contains name = false) :
    s.KeepsOwners (s'.finishCreation reg c bindTo?).1 :=
  have hadopt := h.withRegistry bound becomes keeps
  attempt_keeps hadopt fun t _ => hadopt.bindType free t

theorem KeepsOwners.createLink (place : ChainPlace) (number : Nat) (name : String)
    (enclosing? : Option TypeId) :
    s.KeepsOwners (s'.createLink place number name enclosing?).1 := by
  cases place with
  | free => exact h.withGraph (Graph.keepsTypes_addType _ _)
  | registered reg namespaceName =>
      rw [Session.createLink]
      cases hr : s'.registries[reg]? with
      | none => exact h
      | some r =>
          cases enclosing? with
          | none =>
              exact h.withRegistry hr (r.becomes_createType s'.graph namespaceName name 0)
                (Registry.keepsTypes_register _ _ _)
          | some e =>
              exact h.withRegistry hr (r.becomes_createNested s'.graph e name 0)
                (Registry.keepsTypes_createNested _ _ _ _ _)

end

/-! ### What is still owned -/

/-- The indices of every registry restate the registrations that it has taken in. -/
def Recorded (s : Session) : Prop :=
  ∀ (name : String) (r : Registry), s.registries[name]? = some r → ∃ log, r.Records log

theorem recorded_run (commands : List Command) : (empty.run commands).Recorded :=
  fun name r hr => ⟨_, (logged_run name commands r hr).1⟩

theorem KeepsOwners.mem_ownedTypes (h : s.KeepsOwners s') (recorded : s.Recorded) {t : TypeId}
    (ht : t ∈ s.ownedTypes) : t ∈ s'.ownedTypes := by
  rw [mem_ownedTypes_iff] at ht ⊢
  cases ht with
  | type bound => exact .type (h.types _ _ bound)
  | table bound mem => exact .table (h.tables _ _ bound) mem
  | factory bound mem => exact .factory (h.factories _ _ bound) mem
  | record bound mem => exact .record (h.records _ _ bound) mem
  | registry bound mem =>
      obtain ⟨log, hlog⟩ := recorded _ _ bound
      obtain ⟨r', log', hr', hbecomes⟩ := h.registries _ _ bound
      refine .registry hr' ?_
      rw [hlog.all_perm.mem_iff] at mem
      rw [(hbecomes log hlog).all_perm.mem_iff, List.map_append]
      exact List.mem_append_left _ mem
  | attached mem =>
      obtain ⟨u, d, record, hd, hrecord, ht⟩ := Graph.mem_attachedTypes_iff.mp mem
      obtain ⟨d', hd', hgrows⟩ := h.graph u d hd
      exact .attached (Graph.mem_attachedTypes_iff.mpr
        ⟨u, d', record, hd', hgrows.attributes.subset hrecord, ht⟩)

/-- A sweep releases nothing that was owned in the beginning. -/
theorem KeepsOwners.sweep (h : s.KeepsOwners s') (settled : s.Settled) (recorded : s.Recorded) :
    s.KeepsOwners s'.sweep :=
  { h with
    graph := fun t d hd => by
      obtain ⟨d', hd', hgrows⟩ := h.graph t d hd
      have howned := h.mem_ownedTypes recorded (settled t (Graph.isAlive_iff.mpr ⟨d, hd⟩))
      refine ⟨d', ?_, hgrows⟩
      exact (Graph.type?_retain s'.graph s'.ownedTypes t).trans ((if_pos howned).trans hd') }

theorem KeepsOwners.settle (h : s.KeepsOwners s') (settled : s.Settled) (recorded : s.Recorded) :
    s.KeepsOwners s'.settle :=
  settleWithin_keeps (fun _ h => h.sweep settled recorded) _ h

/-! ### Commands -/

section

variable {command : Command}

theorem TakesNoHandle.unbound {bindTo? : Option String} (free : s.TakesNoHandle command)
    (kind : HandleKind) (h : command.handles = bindTo?.toList.map (kind, ·)) (name : String)
    (hname : name ∈ bindTo?) : s.isBound (kind, name) = false := by
  refine free (kind, name) ?_
  rw [h]
  exact List.mem_map_of_mem (Option.mem_toList.mpr hname)

theorem keepsOwners_createMethod (s : Session) (reg type name : String) (attributes : UInt32)
    (signature : MethodSignature) (bindTo? : Option String) :
    s.KeepsOwners (s.createMethod reg type name attributes signature bindTo?).1 := by
  have hs := KeepsOwners.refl s
  refine find_keeps hs fun r hr => find_keeps hs fun t _ => ?_
  have hbecomes : r.Becomes [] (r.createMethod s.graph t name attributes signature).1 :=
    .of_eq rfl rfl
  exact (hs.withRegistry hr hbecomes (r.keepsTypes_createMethod _ _ _ _ _)).bindMethod _

theorem keepsOwners_drop (s : Session) {kind : HandleKind} {name : String}
    (free : s.isBound (kind, name) = false) : s.KeepsOwners (s.drop kind name).1 := by
  have hs := KeepsOwners.refl s
  cases kind with
  | registry =>
      refine { hs with registries := fun key r hr => ⟨r, [], ?_, .of_eq rfl rfl⟩ }
      exact Bindings.Keeps.erase (.refl _) free key r hr
  | type => exact { hs with types := hs.types.erase free }
  | table => exact { hs with tables := hs.tables.erase free }
  | factory => exact { hs with factories := hs.factories.erase free }
  | record => exact { hs with records := hs.records.erase free }
  | method | link | module | methodRef => exact { hs with }

/-- A command that takes no handle away leaves all owners where they are. -/
theorem keepsOwners_perform (settled : s.Settled) (recorded : s.Recorded)
    (free : s.TakesNoHandle command) : s.KeepsOwners (s.perform command).1 := by
  have hs := KeepsOwners.refl s
  cases command with
  | newRegistry origin bindTo =>
      exact hs.newRegistry (free (.registry, bindTo) (List.mem_singleton_self _)) _
        (Registry.keyed_create s.graph origin).2.1
  | createType reg namespaceName name flags bindTo? =>
      exact find_keeps hs fun r hr =>
        hs.finishCreation hr (r.becomes_createType _ _ _ _) (Registry.keepsTypes_register _ _ _)
          (free.unbound .type rfl)
  | createNested reg enclosing name flags bindTo? =>
      exact find_keeps hs fun r hr => find_keeps hs fun e _ =>
        hs.finishCreation hr (r.becomes_createNested _ _ _ _)
          (Registry.keepsTypes_createNested _ _ _ _ _) (free.unbound .type rfl)
  | createRef reg namespaceName name origin bindTo? =>
      exact find_keeps hs fun r hr =>
        hs.finishCreation hr (r.becomes_createRef _ _ _ _) (Registry.keepsTypes_register _ _ _)
          (free.unbound .type rfl)
  | newType header bindTo? =>
      exact (hs.withGraph (s.graph.keepsTypes_addType _)).bindType (free.unbound .type rfl) _
  | chain times names enclosing? place bindTo =>
      refine chain_keeps (fun _ number name last? h => h.createLink place number name last?)
        (fun _ h => h.settle settled recorded) (fun _ i t hi h => h.bindType ?_ t) hs
      rintro name ⟨⟩
      exact free (.type, _) (List.mem_map_of_mem (List.mem_range.mpr hi))
  | insert reg type =>
      exact find_keeps hs fun r hr => find_keeps hs fun t _ => attempt_keeps hs fun r' hinsert =>
        hs.withRegistry hr (Registry.becomes_insert hinsert) (.refl _)
  | addGenericParam reg type name =>
      exact find_keeps hs fun r hr => find_keeps hs fun t _ =>
        have hbecomes : r.Becomes [] (r.addGenericParam s.graph t name).1 := .of_eq rfl rfl
        hs.withRegistry hr hbecomes (s.graph.keepsTypes_pushGenericParam t _)
  | createMethod reg type name attributes signature bindTo? =>
      exact keepsOwners_createMethod s reg type name attributes signature bindTo?
  | createConstructor reg type params bindTo? =>
      exact keepsOwners_createMethod s reg type _ _ _ bindTo?
  | newMethod method bindTo? =>
      exact (hs.withGraph (g := (s.graph.addMethod { method with declaringType? := none }).1)
        fun _ d hd => ⟨d, hd, .refl d⟩).bindMethod _
  | setDeclaringType =>
      exact find_keeps hs fun _ _ => find_keeps hs fun _ _ => present_keeps hs fun _ _ =>
        hs.withGraph fun _ d hd => ⟨d, hd, .refl d⟩
  | pushMethod =>
      exact find_keeps hs fun t _ => find_keeps hs fun m _ =>
        hs.withGraph (s.graph.keepsTypes_pushMethod t m)
  | setEnclosing =>
      exact find_keeps hs fun _ _ => find_keeps hs fun _ _ => attempt_keeps hs fun _ hset =>
        hs.withGraph (s.graph.keepsTypes_setEnclosing hset)
  | setDefinition =>
      exact find_keeps hs fun _ _ => find_keeps hs fun _ _ => attempt_keeps hs fun _ hset =>
        hs.withGraph (s.graph.keepsTypes_setDefinition hset)
  | attach =>
      exact find_keeps hs fun t _ => find_keeps hs fun record _ =>
        hs.withGraph (s.graph.keepsTypes_attach t record)
  | resolve =>
      exact find_keeps hs fun _ _ => attempt_keeps hs fun t _ =>
        hs.bindType (free.unbound .type rfl) t
  | get | named | upgrade =>
      exact find_keeps hs fun _ _ => hs.replyType (free.unbound .type rfl)
  | primitive =>
      exact find_keeps hs fun _ _ => attempt_keeps hs fun t _ =>
        hs.replyType (free.unbound .type rfl)
  | constructor =>
      exact find_keeps hs fun _ _ => attempt_keeps hs fun _ _ => hs.bindMethod _
  | makeLink => exact find_keeps hs fun _ _ => { hs with }
  | newModule => exact { hs with }
  | importMethod =>
      exact find_keeps hs fun _ _ => present_keeps hs fun _ _ => find_keeps hs fun _ _ =>
        present_keeps hs fun _ _ => attempt_keeps hs fun made _ =>
          have htarget : s.KeepsOwners (s.setTarget _ made.2) := { hs with }
          htarget.bindMethodRef made.1
  | newTable module byte boolean bindTo =>
      exact find_keeps hs fun _ _ => find_keeps hs fun _ _ => find_keeps hs fun _ _ =>
        { hs with tables := hs.tables.insert (free (.table, bindTo) (List.mem_singleton_self _)) _ }
  | resolveTable module reg bindTo =>
      exact find_keeps hs fun _ _ => find_keeps hs fun _ _ => attempt_keeps hs fun _ _ =>
        { hs with tables := hs.tables.insert (free (.table, bindTo) (List.mem_singleton_self _)) _ }
  | bindWellKnown type table kind =>
      exact find_keeps hs fun _ _ => find_keeps hs fun known hknown =>
        (Bindings.Keeps.name_ne (free (.table, table) (List.mem_singleton_self _)) hknown rfl).elim
  | wellKnown owner kind bindTo? =>
      have hnext : ∀ table : WellKnownTable, s.KeepsOwners (s.attempt (table.get kind) fun t =>
          (s.bindType bindTo? t).reply (.type (s.graph.brief? t))).1 :=
        fun _ => attempt_keeps hs fun t _ => hs.bindType (free.unbound .type rfl) t
      cases owner with
      | table => exact find_keeps hs fun table _ => hnext table
      | factory => exact find_keeps hs fun f _ => hnext f.table
  | newFactory embedded nullable nullableContext nullablePublicOnly table config bindTo =>
      exact find_keeps hs fun _ _ => find_keeps hs fun _ _ => find_keeps hs fun _ _ =>
        find_keeps hs fun _ _ => find_keeps hs fun known hknown =>
          (Bindings.Keeps.name_ne (free (.table, table) (List.mem_cons_self ..)) hknown rfl).elim
  | build factory request bindTo? =>
      exact find_keeps hs fun _ _ => present_keeps hs fun _ _ => attempt_keeps hs fun made _ =>
        have htarget : s.KeepsOwners (s.setTarget _ made.2) := { hs with }
        htarget.bindRecord (free.unbound .record rfl) made.1
  | makeRecord methodRef fixedArgs namedArgs bindTo =>
      exact find_keeps hs fun _ _ => findArgs_keeps hs fun _ => findArgs_keeps hs fun _ =>
        { hs with
          records := hs.records.insert (free (.record, bindTo) (List.mem_singleton_self _)) _ }
  | drop kind name => exact s.keepsOwners_drop (free (kind, name) (List.mem_singleton_self _))
  | _ =>
      rw [perform_of_onlyAnswers s rfl]
      exact hs

end

end Session

end AssemblyGraph
