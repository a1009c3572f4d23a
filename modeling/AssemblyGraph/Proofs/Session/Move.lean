import AssemblyGraph.Proofs.OrderedMap
import AssemblyGraph.Proofs.Session.Run

/-!
The moves that commands are made of.

A move changes one thing: it binds or frees one name, takes one step in the
graph or in one registry, asks one module for one reference, or releases what
nothing owns. Each says what holds at the moment at which it is made. What
every move keeps is then kept by every run, so a property of all reachable
states takes one case for each kind of move and not one for each command.
-/

namespace AssemblyGraph.Session

/-- A type that is owned or alive, as all types are that a command can get at. -/
def Held (s : Session) (t : TypeId) : Prop :=
  t ∈ s.ownedTypes ∨ s.graph.isAlive t

/-- The session with the outcome of an attempt to create a type in a registry. -/
def adopt (s : Session) (reg : String) (c : Creation) : Session :=
  { s with graph := c.graph, registries := s.registries.insert reg c.registry }

/-- One change of a session, with the requests for references that it makes. -/
inductive Move (s : Session) : List Referral → Session → Prop
  -- names
  | bindType (name : String) {t : TypeId} (held : s.Held t) :
      Move s [] { s with types := s.types.insert name t }
  | bindMethod (name : String) (m : MethodId) :
      Move s [] { s with methods := s.methods.insert name m }
  | bindLink (name : String) {t : TypeId} (held : s.Held t) :
      Move s [] { s with links := s.links.insert name t }
  | bindMethodRef (name : String) (r : MethodReference) :
      Move s [] { s with methodRefs := s.methodRefs.insert name r }
  | bindTable (name : String) {table : WellKnownTable}
      (held : ∀ t ∈ table.ownedTypes, s.Held t) :
      Move s [] { s with tables := s.tables.insert name table }
  | bindFactory (name : String) {f : Factory} (held : ∀ t ∈ f.ownedTypes, s.Held t) :
      Move s [] { s with factories := s.factories.insert name f }
  | bindRecord (name : String) {record : AttributeRecord}
      (held : ∀ t ∈ record.ownedTypes, s.Held t) :
      Move s [] { s with records := s.records.insert name record }
  | unbind (kind : HandleKind) (name : String) : Move s [] (s.drop kind name).1
  -- the graph
  | addType (header : TypeHeader) {enclosing? : Option TypeId}
      (held : ∀ e ∈ enclosing?, s.Held e) :
      Move s [] { s with graph := (s.graph.addType { header.decl with enclosing? }).1 }
  | addMethod {m : Method} (undeclared : m.declaringType? = none) :
      Move s [] { s with graph := (s.graph.addMethod m).1 }
  | pushMethod {t : TypeId} (m : MethodId) (held : s.Held t) :
      Move s [] { s with graph := s.graph.pushMethod t m }
  | setDeclaringType (m : MethodId) {t : TypeId} (held : s.Held t) :
      Move s [] { s with graph := s.graph.setDeclaringType m t }
  | setEnclosing {t e : TypeId} {g : Graph} (held : s.Held t) (held' : s.Held e)
      (set : s.graph.setEnclosing t e = .ok g) : Move s [] { s with graph := g }
  | setDefinition {t d : TypeId} {g : Graph} (held : s.Held t) (held' : s.Held d)
      (set : s.graph.setDefinition t d = .ok g) : Move s [] { s with graph := g }
  | attach {t : TypeId} {record : AttributeRecord} (held : s.Held t)
      (held' : ∀ u ∈ record.ownedTypes, s.Held u) :
      Move s [] { s with graph := s.graph.attach t record }
  -- registries
  | newRegistry (name : String) (origin : Origin) :
      Move s [] { s with
        graph := (Registry.create s.graph origin).2
        registries := s.registries.insert name (Registry.create s.graph origin).1 }
  | createType {reg : String} {r : Registry} (bound : s.registries[reg]? = some r)
      (namespaceName name : String) (flags : UInt32) :
      Move s [] (s.adopt reg (r.createType s.graph namespaceName name flags))
  | createNested {reg : String} {r : Registry} (bound : s.registries[reg]? = some r)
      {e : TypeId} (held : s.Held e) (name : String) (flags : UInt32) :
      Move s [] (s.adopt reg (r.createNested s.graph e name flags))
  | createRef {reg : String} {r : Registry} (bound : s.registries[reg]? = some r)
      (namespaceName name : String) (origin : Origin) :
      Move s [] (s.adopt reg (r.createRef s.graph namespaceName name origin))
  | insert {reg : String} {r r' : Registry} (bound : s.registries[reg]? = some r) {t : TypeId}
      (held : s.Held t) (inserted : r.insert s.graph t = .ok r') :
      Move s [] { s with registries := s.registries.insert reg r' }
  | addGenericParam {reg : String} {r : Registry} (bound : s.registries[reg]? = some r)
      {t : TypeId} (held : s.Held t) (name : String) :
      Move s [] { s with
        graph := (r.addGenericParam s.graph t name).2.1
        registries := s.registries.insert reg (r.addGenericParam s.graph t name).1 }
  | createMethod {reg : String} {r : Registry} (bound : s.registries[reg]? = some r)
      {t : TypeId} (held : s.Held t) (name : String) (attributes : UInt32)
      (signature : MethodSignature) :
      Move s [] { s with
        graph := (r.createMethod s.graph t name attributes signature).2.1
        registries :=
          s.registries.insert reg (r.createMethod s.graph t name attributes signature).1 }
  -- modules
  | newModule (name bindTo : String) (config : Config) :
      Move s [] { (s.addTarget (.create name config)).1 with
        modules := s.modules.insert bindTo (s.addTarget (.create name config)).2 }
  | refer {r : Referral} (now : r.graph = s.graph) (known : s.target? r.target = some r.module)
      (found : s.graph.methodWithId? r.entry.id = some r.entry) :
      Move s [r] (s.setTarget r.target r.after)
  -- what nothing owns
  | release : Move s [] s.sweep

/-- Several moves, with the requests that they make. -/
inductive Moves : Session → List Referral → Session → Prop
  | refl (s : Session) : Moves s [] s
  | tail {s s' s'' : Session} {rs rs' : List Referral} :
      Moves s rs s' → Move s' rs' s'' → Moves s (rs ++ rs') s''

theorem Move.moves {s s' : Session} {rs : List Referral} (h : Move s rs s') : Moves s rs s' :=
  .tail (.refl s) h

theorem Moves.trans {s s' s'' : Session} {rs rs' : List Referral} (h : Moves s rs s')
    (h' : Moves s' rs' s'') : Moves s (rs ++ rs') s'' := by
  induction h' with
  | refl => rwa [List.append_nil]
  | tail _ hmove ih =>
      rw [← List.append_assoc]
      exact ih.tail hmove

/-- What is true before and is kept by every move is true after any number of
them, whatever requests they make. -/
theorem Moves.invariant {P : Session → Prop}
    (keeps : ∀ {s s' : Session} {rs : List Referral}, Move s rs s' → P s → P s')
    {s s' : Session} {rs : List Referral} (h : Moves s rs s') (hs : P s) : P s' := by
  induction h with
  | refl => exact hs
  | tail _ hmove ih => exact keeps hmove ih

/-! ### Going on with what was found -/

section Found

variable {α : Type} {s : Session}

theorem Moves.find {bindings : Bindings α} {name : String} {next : α → Outcome}
    (h : ∀ a, bindings[name]? = some a → Moves s [] (next a).1) :
    Moves s [] (s.find bindings name next).1 := by
  rw [Session.find]
  cases ha : bindings[name]? with
  | none => exact .refl s
  | some a => exact h a ha

theorem Moves.present {name : String} {object? : Option α} {next : α → Outcome}
    (h : ∀ a, object? = some a → Moves s [] (next a).1) :
    Moves s [] (s.present name object? next).1 := by
  cases object? with
  | none => exact .refl s
  | some a => exact h a rfl

theorem Moves.attempt {result : Except Error α} {next : α → Outcome}
    (h : ∀ a, result = .ok a → Moves s [] (next a).1) :
    Moves s [] (s.attempt result next).1 := by
  cases result with
  | error cause => exact .refl s
  | ok a => exact h a rfl

end Found

/-! ### What is held -/

theorem mem_flatMap_values_iff {α : Type} {bindings : Bindings α} {owned : α → List TypeId}
    {t : TypeId} : t ∈ bindings.values.flatMap owned ↔
      ∃ (name : String) (a : α), bindings[name]? = some a ∧ t ∈ owned a := by
  rw [List.mem_flatMap]
  constructor
  · rintro ⟨a, ha, ht⟩
    obtain ⟨name, hname⟩ := OrderedMap.mem_values_iff.mp ha
    exact ⟨name, a, hname, ht⟩
  · rintro ⟨name, a, hname, ht⟩
    exact ⟨a, OrderedMap.mem_values_iff.mpr ⟨name, hname⟩, ht⟩

/-- The owners of types: five kinds of bound objects, and the records that are attached to
living types. -/
inductive Owned (s : Session) (t : TypeId) : Prop
  | type {name : String} (bound : s.types[name]? = some t)
  | registry {name : String} {r : Registry} (bound : s.registries[name]? = some r)
      (mem : t ∈ r.all)
  | table {name : String} {table : WellKnownTable} (bound : s.tables[name]? = some table)
      (mem : t ∈ table.ownedTypes)
  | factory {name : String} {f : Factory} (bound : s.factories[name]? = some f)
      (mem : t ∈ f.ownedTypes)
  | record {name : String} {record : AttributeRecord} (bound : s.records[name]? = some record)
      (mem : t ∈ record.ownedTypes)
  | attached (mem : t ∈ s.graph.attachedTypes)

section Held

variable {s : Session} {name : String} {t : TypeId}

theorem mem_ownedTypes_iff : t ∈ s.ownedTypes ↔ s.Owned t := by
  simp only [ownedTypes, List.mem_append, mem_flatMap_values_iff, OrderedMap.mem_values_iff,
    or_assoc]
  constructor
  · rintro (⟨name, h⟩ | ⟨name, r, h, ht⟩ | ⟨name, table, h, ht⟩ | ⟨name, f, h, ht⟩ |
      ⟨name, record, h, ht⟩ | h)
    · exact .type h
    · exact .registry h ht
    · exact .table h ht
    · exact .factory h ht
    · exact .record h ht
    · exact .attached h
  · intro h
    cases h with
    | type h => exact .inl ⟨_, h⟩
    | registry h ht => exact .inr (.inl ⟨_, _, h, ht⟩)
    | table h ht => exact .inr (.inr (.inl ⟨_, _, h, ht⟩))
    | factory h ht => exact .inr (.inr (.inr (.inl ⟨_, _, h, ht⟩)))
    | record h ht => exact .inr (.inr (.inr (.inr (.inl ⟨_, _, h, ht⟩))))
    | attached h => exact .inr (.inr (.inr (.inr (.inr h))))

theorem Owned.held (h : s.Owned t) : s.Held t :=
  .inl (mem_ownedTypes_iff.mpr h)

theorem held_of_type (h : s.types[name]? = some t) : s.Held t :=
  Owned.held (.type h)

theorem held_of_registry {r : Registry} (h : s.registries[name]? = some r) (ht : t ∈ r.all) :
    s.Held t :=
  Owned.held (.registry h ht)

theorem held_of_table {table : WellKnownTable} (h : s.tables[name]? = some table)
    (ht : t ∈ table.ownedTypes) : s.Held t :=
  Owned.held (.table h ht)

theorem held_of_factory {f : Factory} (h : s.factories[name]? = some f)
    (ht : t ∈ f.ownedTypes) : s.Held t :=
  Owned.held (.factory h ht)

theorem held_of_record {record : AttributeRecord} (h : s.records[name]? = some record)
    (ht : t ∈ record.ownedTypes) : s.Held t :=
  Owned.held (.record h ht)

theorem held_of_follow? {link : Option TypeId} (h : s.graph.follow? link = some t) : s.Held t :=
  .inr (Graph.follow?_eq_some_iff.mp h).2

end Held

/-! ### Binding what a name is given for -/

theorem bindType_moves {s : Session} {t : TypeId} (held : s.Held t) (bindTo? : Option String) :
    Moves s [] (s.bindType bindTo? t) := by
  cases bindTo? with
  | none => exact .refl s
  | some name => exact (Move.bindType name held).moves

theorem bindMethod_moves (s : Session) (m : MethodId) (bindTo? : Option String) :
    Moves s [] (s.bindMethod bindTo? m) := by
  cases bindTo? with
  | none => exact .refl s
  | some name => exact (Move.bindMethod name m).moves

theorem bindMethodRef_moves (s : Session) (r : MethodReference) (bindTo? : Option String) :
    Moves s [] (s.bindMethodRef bindTo? r) := by
  cases bindTo? with
  | none => exact .refl s
  | some name => exact (Move.bindMethodRef name r).moves

theorem bindRecord_moves {s : Session} {record : AttributeRecord}
    (held : ∀ t ∈ record.ownedTypes, s.Held t) (bindTo? : Option String) :
    Moves s [] (s.bindRecord bindTo? record) := by
  cases bindTo? with
  | none => exact .refl s
  | some name => exact (Move.bindRecord name held).moves

/-! ### Releasing -/

theorem settleWithin_moves (bound : Nat) (s : Session) : Moves s [] (settleWithin bound s) := by
  induction bound generalizing s with
  | zero => exact .refl s
  | succ bound ih =>
      rw [settleWithin]
      split
      · exact .refl s
      · exact Move.release.moves.trans (ih s.sweep)

theorem settle_moves (s : Session) : Moves s [] s.settle :=
  settleWithin_moves _ s

theorem settleWithin_eq (bound : Nat) (s : Session) :
    settleWithin bound s = { s with graph := (settleWithin bound s).graph } := by
  induction bound generalizing s with
  | zero => rfl
  | succ bound ih =>
      rw [settleWithin]
      split
      · rfl
      · exact ih s.sweep

/-- Releasing changes nothing but the graph. -/
theorem settle_eq (s : Session) : s.settle = { s with graph := s.settle.graph } :=
  settleWithin_eq _ s

@[simp] theorem types_settle (s : Session) : s.settle.types = s.types := by
  rw [settle_eq]

end AssemblyGraph.Session
