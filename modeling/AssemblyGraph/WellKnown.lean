import AssemblyGraph.Registry

/-!
The framework types that records refer to, and the table that binds them.

A table is made for one module. It owns the types that it binds, together
with the two primitive types that arguments are declared with.
-/

namespace AssemblyGraph

inductive WellKnown where
  | compilerGeneratedAttribute
  | attributeUsageAttribute
  | attributeTargets
  | referenceAssemblyAttribute
  deriving DecidableEq

namespace WellKnown

/-- All framework types, in the order in which they are looked up. -/
def all : List WellKnown :=
  [compilerGeneratedAttribute, attributeUsageAttribute, attributeTargets,
    referenceAssemblyAttribute]

def namespaceName : WellKnown → String
  | compilerGeneratedAttribute => "System.Runtime.CompilerServices"
  | attributeUsageAttribute => "System"
  | attributeTargets => "System"
  | referenceAssemblyAttribute => "System.Runtime.CompilerServices"

def name : WellKnown → String
  | compilerGeneratedAttribute => "CompilerGeneratedAttribute"
  | attributeUsageAttribute => "AttributeUsageAttribute"
  | attributeTargets => "AttributeTargets"
  | referenceAssemblyAttribute => "ReferenceAssemblyAttribute"

def fullName (kind : WellKnown) : String :=
  kind.namespaceName ++ "." ++ kind.name

end WellKnown

/-- The types that records for a module refer to. -/
structure WellKnownTable where
  module : ModuleId
  byte : TypeId
  boolean : TypeId
  binding? : WellKnown → Option TypeId

namespace WellKnownTable

def create (module : ModuleId) (byte boolean : TypeId) : WellKnownTable :=
  ⟨module, byte, boolean, fun _ => none⟩

/-- Binds a framework type, in place of an earlier binding. -/
def bind (table : WellKnownTable) (kind : WellKnown) (t : TypeId) : WellKnownTable :=
  { table with binding? := fun k => if k = kind then some t else table.binding? k }

/-- Looks every framework type up in a registry; the first missing one is an
error. -/
def resolve (module : ModuleId) (r : Registry) : Except Error WellKnownTable := do
  let byte ← r.primitive .byte
  let boolean ← r.primitive .boolean
  WellKnown.all.foldlM (fun table kind =>
    match r.named? kind.fullName with
    | some t => .ok (table.bind kind t)
    | none => .error (.wellKnownMissing kind.fullName)) (create module byte boolean)

def get (table : WellKnownTable) (kind : WellKnown) : Except Error TypeId :=
  match table.binding? kind with
  | some t => .ok t
  | none => .error (.wellKnownMissing kind.fullName)

def ownedTypes (table : WellKnownTable) : List TypeId :=
  table.byte :: table.boolean :: WellKnown.all.filterMap table.binding?

end WellKnownTable

end AssemblyGraph
