import AssemblyGraph.Signature

/-!
The runtime's primitive types, which every registry holds from the start.
-/

namespace AssemblyGraph

inductive Primitive where
  | void
  | boolean
  | byte
  | int32
  | object
  | string
  deriving DecidableEq

namespace Primitive

/-- All primitive types, in the order in which they are registered. -/
def all : List Primitive :=
  [void, boolean, byte, int32, object, string]

/-- The row of a primitive type in the artificial table. -/
def row : Primitive → UInt32
  | void => 0x01
  | boolean => 0x02
  | byte => 0x05
  | int32 => 0x08
  | object => 0x10
  | string => 0x11

def token (p : Primitive) : Token :=
  .inTable .primitive p.row

def namespaceName (_ : Primitive) : String := "System"

def name : Primitive → String
  | void => "Void"
  | boolean => "Boolean"
  | byte => "Byte"
  | int32 => "Int32"
  | object => "Object"
  | string => "String"

def signature : Primitive → Signature
  | void => .void
  | boolean => .boolean
  | byte => .byte
  | int32 => .int32
  | object => .object
  | string => .string

end Primitive

end AssemblyGraph
