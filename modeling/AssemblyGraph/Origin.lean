import AssemblyGraph.Text.Quoted

/-!
Where a type is defined.
-/

namespace AssemblyGraph

/-- The place that a type comes from. -/
inductive Origin where
  | module (name : String)
  /-- Referenced from the assembly of this name. -/
  | assembly (name : String)
  | primitive
  | unknown
  deriving DecidableEq, Hashable, Inhabited

namespace Origin

def isExternal : Origin → Bool
  | assembly _ => true
  | _ => false

def isPrimitive : Origin → Bool
  | primitive => true
  | _ => false

def describe : Origin → String
  | module name => "Module(" ++ Quoted.encode name ++ ")"
  | assembly name => "AssemblyRef(" ++ Quoted.encode name ++ ")"
  | primitive => "Primitive"
  | unknown => "Unknown"

end Origin

end AssemblyGraph
