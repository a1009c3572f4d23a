import AssemblyGraph.Token

/-!
Signatures of methods and of their parameters.
-/

namespace AssemblyGraph

inductive Signature where
  | unknown
  | void
  | boolean
  | byte
  | int32
  | string
  | object
  | valueType (token : Token)
  | classType (token : Token)
  | genericParam (number : UInt32)
  /-- An array of `rank` dimensions. -/
  | array (base : Signature) (rank : UInt32)
  /-- An array of one dimension that starts at zero. -/
  | vector (base : Signature) (modifiers : List Token)
  deriving DecidableEq

def Signature.isArray : Signature → Bool
  | array .. => true
  | vector .. => true
  | _ => false

structure Parameter where
  base : Signature
  byRef : Bool
  modifiers : List Token
  deriving DecidableEq

/-- A parameter that is passed by value and carries no modifiers. -/
def Parameter.plain (base : Signature) : Parameter :=
  { base, byRef := false, modifiers := [] }

structure MethodSignature where
  hasThis : Bool
  genericCount : UInt32
  returns : Parameter
  params : List Parameter
  deriving DecidableEq

namespace MethodSignature

/-- A method on instances that returns nothing. -/
def instanceMethod (params : List Signature) : MethodSignature where
  hasThis := true
  genericCount := 0
  returns := .plain .void
  params := params.map .plain

/-- A method on the type that returns nothing. -/
def staticMethod (params : List Signature) : MethodSignature :=
  { instanceMethod params with hasThis := false }

def undetermined : MethodSignature where
  hasThis := false
  genericCount := 0
  returns := .plain .unknown
  params := []

end MethodSignature

end AssemblyGraph
