import AssemblyGraph.Constructor.Shape

/-!
What can go wrong while a graph is built or an attribute record is requested,
and the words in which it is reported.
-/

namespace AssemblyGraph

/-- A step that would make a graph inconsistent. -/
inductive Inconsistency where
  | alreadyNested (type : Token)
  /-- Only references are linked to a definition. -/
  | notAReference (type : Token)
  | alreadyResolved (type : Token)
  /-- The method has no declaring type, or it is gone. -/
  | noDeclaringType (name : String) (method : Token)
  deriving DecidableEq

def Inconsistency.message : Inconsistency → String
  | alreadyNested type => "Type " ++ type.text ++ " is already nested"
  | notAReference type => "Type " ++ type.text ++ " is a definition, not a reference"
  | alreadyResolved type => "Type reference " ++ type.text ++ " is already resolved"
  | noDeclaringType name method =>
    "Method '" ++ name ++ "' (" ++ method.text ++ ") has no declaring type"

/-- The report of an inconsistency with the place where it was found. -/
def Inconsistency.reportAt (file : String) (line : Nat) (message : String) : String :=
  "Malformed - " ++ file ++ ":" ++ toString line ++ ": " ++ message

inductive Error where
  /-- A type does not declare exactly one constructor of a shape; `found` is the
  number that it declares. -/
  | constructorMismatch (typeName : String) (shape : ConstructorShape) (found : Nat)
  | unresolvable (typeName : String)
  | wellKnownMissing (typeName : String)
  | tokenTaken (token : Token)
  | tokenUnknown (token : Token)
  | inconsistent (cause : Inconsistency)
  deriving DecidableEq

def Error.message : Error → String
  | constructorMismatch typeName shape found =>
    "Expected exactly one " ++ shape.text ++ " constructor on '" ++ typeName ++
      "', found " ++ toString found
  | unresolvable typeName =>
    "Unable to resolve the definition of type '" ++ typeName ++ "'"
  | wellKnownMissing typeName => "Well-known type '" ++ typeName ++ "' is not available"
  | tokenTaken token => "Failed to insert new type into TypeRegistry - " ++ token.text
  | tokenUnknown token => "Failed to find type in TypeRegistry - " ++ token.text
  | inconsistent cause => cause.message

end AssemblyGraph
