import AssemblyGraph.MemberRef

/-!
Attribute records: a constructor and the values that it is applied to.

A record owns the types of its arguments, so it keeps them alive.
-/

namespace AssemblyGraph

inductive ArgType where
  | single (type : TypeId)
  /-- A one-dimensional array. -/
  | array (element : ArgType)
  deriving DecidableEq

namespace ArgType

def isArray : ArgType → Bool
  | single _ => false
  | array _ => true

/-- The type of a single value, inside any number of arrays. -/
def elementType : ArgType → TypeId
  | single type => type
  | array element => element.elementType

end ArgType

inductive ArgValue where
  | bool (value : Bool)
  | byte (value : UInt8)
  | int32 (value : Int32)
  | string (value : String)
  | array (values : List ArgValue)

structure TypedArg where
  type : ArgType
  value : ArgValue

structure NamedArg where
  /-- Whether a field is set, rather than a property. -/
  isField : Bool
  name : String
  arg : TypedArg

/-- The application of an attribute. -/
structure AttributeRecord where
  constructor : MethodReference
  fixedArgs : List TypedArg
  namedArgs : List NamedArg

namespace AttributeRecord

/-- The first named argument that sets the property of this name. -/
def property? (record : AttributeRecord) (name : String) : Option NamedArg :=
  record.namedArgs.find? fun named => !named.isField && named.name == name

def ownedTypes (record : AttributeRecord) : List TypeId :=
  (record.fixedArgs ++ record.namedArgs.map (·.arg)).map (·.type.elementType)

end AttributeRecord

end AssemblyGraph
