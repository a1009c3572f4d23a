import AssemblyGraph.Factory
import AssemblyGraph.Graph.Ownership
import AssemblyGraph.Matching

/-!
The state of a build session: a graph, the modules under construction, and the
objects that are bound to names.

There is one space of names for each kind of object. Bound types, registries,
tables, factories and records own types; methods, links, modules and method
references do not. A type lives for as long as something owns it, and types
may own each other through attached records, so releasing goes on until it
changes nothing.
-/

namespace AssemblyGraph

abbrev Bindings (α : Type) := Std.TreeMap String α

/-- The state of a build session. -/
structure Session where
  graph : Graph
  /-- The modules under construction, each at the index of its identity. -/
  targets : Array TargetModule
  registries : Bindings Registry
  types : Bindings TypeId
  methods : Bindings MethodId
  /-- Links to types that do not own them. -/
  links : Bindings TypeId
  modules : Bindings ModuleId
  methodRefs : Bindings MethodReference
  tables : Bindings WellKnownTable
  factories : Bindings Factory
  records : Bindings AttributeRecord

namespace Session

def empty : Session where
  graph := .empty
  targets := #[]
  registries := ∅
  types := ∅
  methods := ∅
  links := ∅
  modules := ∅
  methodRefs := ∅
  tables := ∅
  factories := ∅
  records := ∅

/-- The types that are owned by bound objects and by attached records. -/
def ownedTypes (s : Session) : List TypeId :=
  s.types.values ++
    s.registries.values.flatMap Registry.all ++
    s.tables.values.flatMap WellKnownTable.ownedTypes ++
    s.factories.values.flatMap Factory.ownedTypes ++
    s.records.values.flatMap AttributeRecord.ownedTypes ++
    s.graph.attachedTypes

def sweep (s : Session) : Session :=
  { s with graph := s.graph.retain s.ownedTypes }

/-- Sweeps until nothing is released, at most `bound` times. -/
def settleWithin : Nat → Session → Session
  | 0, s => s
  | bound + 1, s =>
    let swept := s.sweep
    if swept.graph.aliveCount = s.graph.aliveCount then s else settleWithin bound swept

/-- Sweeps until nothing is released. Every sweep before the last releases a
type, so there are no more of them than living types. -/
def settle (s : Session) : Session :=
  settleWithin s.graph.aliveCount s

def target? (s : Session) (m : ModuleId) : Option TargetModule :=
  s.targets[m.index]?

def addTarget (s : Session) (m : TargetModule) : Session × ModuleId :=
  ({ s with targets := s.targets.push m }, ⟨s.targets.size⟩)

def setTarget (s : Session) (id : ModuleId) (m : TargetModule) : Session :=
  { s with targets := s.targets.setIfInBounds id.index m }

def bindType (s : Session) (bindTo? : Option String) (t : TypeId) : Session :=
  match bindTo? with
  | none => s
  | some name => { s with types := s.types.insert name t }

def bindMethod (s : Session) (bindTo? : Option String) (m : MethodId) : Session :=
  match bindTo? with
  | none => s
  | some name => { s with methods := s.methods.insert name m }

def bindMethodRef (s : Session) (bindTo? : Option String) (r : MethodReference) : Session :=
  match bindTo? with
  | none => s
  | some name => { s with methodRefs := s.methodRefs.insert name r }

def bindRecord (s : Session) (bindTo? : Option String) (record : AttributeRecord) : Session :=
  match bindTo? with
  | none => s
  | some name => { s with records := s.records.insert name record }

end Session

end AssemblyGraph
