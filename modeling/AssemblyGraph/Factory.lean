import AssemblyGraph.AttributeTargets
import AssemblyGraph.TargetModule
import AssemblyGraph.WellKnown

/-!
The factory of attribute records.

A request is answered in fixed steps: the attribute's type is resolved to its
definition, its one constructor of the required shape is found, and only then
is the constructor referred to from the target module. Whatever fails before
that leaves the module as it was.
-/

namespace AssemblyGraph

/-- A record that a factory can build, with the values it is built from. -/
inductive Request where
  | compilerGenerated
  | embedded
  | nullable (value : UInt8)
  | nullableFlags (values : List UInt8)
  | nullableContext (value : UInt8)
  | nullablePublicOnly (value : Bool)
  | attributeUsage (validOn : AttributeTargets) (allowMultiple inherited : Option Bool)
  | referenceAssembly

/-- The types that records are built from: those of a table and four attribute
types of the module's own. A factory owns them all. -/
structure Factory where
  table : WellKnownTable
  embedded : TypeId
  nullable : TypeId
  nullableContext : TypeId
  nullablePublicOnly : TypeId

namespace Factory

def allowMultipleName : String := "AllowMultiple"

def inheritedName : String := "Inherited"

/-- The one constructor of a shape on the definition of a type. -/
def constructorOn (g : Graph) (t : TypeId) (shape : ConstructorShape) :
    Except Error MethodEntry := do
  g.constructor (← g.resolve t) shape

def wellKnownConstructor (f : Factory) (g : Graph) (kind : WellKnown)
    (shape : ConstructorShape) : Except Error MethodEntry := do
  constructorOn g (← f.table.get kind) shape

/-- Checks that every constructor that the factory can use is found; reports the
first failure. -/
def validate (f : Factory) (g : Graph) : Except Error Unit := do
  discard <| f.wellKnownConstructor g .compilerGeneratedAttribute .noArgs
  discard <| f.wellKnownConstructor g .attributeUsageAttribute .oneArg
  discard <| f.wellKnownConstructor g .referenceAssemblyAttribute .noArgs
  discard <| f.table.get .attributeTargets
  discard <| constructorOn g f.embedded .noArgs
  discard <| constructorOn g f.nullable .oneScalarArg
  discard <| constructorOn g f.nullable .oneArrayArg
  discard <| constructorOn g f.nullableContext .oneArg
  discard <| constructorOn g f.nullablePublicOnly .oneArg

/-- Makes a factory, which is checked first if the settings ask for it. -/
def create (g : Graph) (config : Config) (table : WellKnownTable)
    (embedded nullable nullableContext nullablePublicOnly : TypeId) : Except Error Factory :=
  let f : Factory := ⟨table, embedded, nullable, nullableContext, nullablePublicOnly⟩
  if config.validatesFirst then (f.validate g).map fun _ => f else .ok f

def constructorFor (f : Factory) (g : Graph) : Request → Except Error MethodEntry
  | .compilerGenerated => f.wellKnownConstructor g .compilerGeneratedAttribute .noArgs
  | .embedded => constructorOn g f.embedded .noArgs
  | .nullable _ => constructorOn g f.nullable .oneScalarArg
  | .nullableFlags _ => constructorOn g f.nullable .oneArrayArg
  | .nullableContext _ => constructorOn g f.nullableContext .oneArg
  | .nullablePublicOnly _ => constructorOn g f.nullablePublicOnly .oneArg
  | .attributeUsage .. => f.wellKnownConstructor g .attributeUsageAttribute .oneArg
  | .referenceAssembly => f.wellKnownConstructor g .referenceAssemblyAttribute .noArgs

def byteArg (f : Factory) (value : UInt8) : TypedArg :=
  ⟨.single f.table.byte, .byte value⟩

def boolArg (f : Factory) (value : Bool) : TypedArg :=
  ⟨.single f.table.boolean, .bool value⟩

/-- The arguments of the constructor. The targets of an attribute are declared
with the framework type that the table binds for them. -/
def fixedArgs (f : Factory) : Request → Except Error (List TypedArg)
  | .compilerGenerated => .ok []
  | .embedded => .ok []
  | .nullable value => .ok [f.byteArg value]
  | .nullableFlags values =>
    .ok [⟨.array (.single f.table.byte), .array (values.map .byte)⟩]
  | .nullableContext value => .ok [f.byteArg value]
  | .nullablePublicOnly value => .ok [f.boolArg value]
  | .attributeUsage validOn _ _ =>
    (f.table.get .attributeTargets).map fun targets =>
      [⟨.single targets, .int32 validOn.toInt32⟩]
  | .referenceAssembly => .ok []

def propertyArg (f : Factory) (name : String) (value : Option Bool) : List NamedArg :=
  value.toList.map fun b => ⟨false, name, f.boolArg b⟩

/-- The named arguments of a record; a property without a value is left out. -/
def namedArgs (f : Factory) : Request → List NamedArg
  | .attributeUsage _ allowMultiple inherited =>
    f.propertyArg allowMultipleName allowMultiple ++ f.propertyArg inheritedName inherited
  | _ => []

/-- Builds a record for a module, which may gain a row by it. -/
def build (f : Factory) (g : Graph) (m : TargetModule) (request : Request) :
    Except Error (AttributeRecord × TargetModule) := do
  let entry ← f.constructorFor g request
  let fixedArgs ← f.fixedArgs request
  let (constructor, m) ← m.refer g entry
  return (⟨constructor, fixedArgs, f.namedArgs request⟩, m)

def ownedTypes (f : Factory) : List TypeId :=
  f.table.ownedTypes ++ [f.embedded, f.nullable, f.nullableContext, f.nullablePublicOnly]

end Factory

end AssemblyGraph
