import AssemblyGraph.Method
import AssemblyGraph.Origin

/-!
References to methods, as a module under construction holds them.

A module refers to its own methods directly and to those of other modules
through rows of its member table. A row is a copy of what the method said when
it was imported; only its link to the declaring type is read through the graph.
-/

namespace AssemblyGraph

/-- A row of a module's member table, which stands for a method of another
module. The declaring type is a link that does not own its target. -/
structure MemberRef where
  /-- The token of the row in the module that holds it. -/
  token : Token
  name : String
  /-- The full name that the declaring type had at the time of the import. -/
  declaringTypeName : String
  declaringOrigin : Origin
  signature : MethodSignature
  /-- The token of the method in its own module. -/
  foreignToken : Token
  declaringType : TypeId
  deriving DecidableEq

structure MethodEntry where
  id : MethodId
  method : Method

/-- A method as a module refers to it. A method no longer changes once it has a
declaring type, which every referenced method has, so a reference carries it. -/
inductive MethodReference where
  | definition (entry : MethodEntry)
  /-- A method of another module. -/
  | imported (member : MemberRef)

namespace MethodReference

def token : MethodReference → Token
  | definition entry => entry.method.token
  | imported member => member.token

def name : MethodReference → String
  | definition entry => entry.method.name
  | imported member => member.name

def signature : MethodReference → MethodSignature
  | definition entry => entry.method.signature
  | imported member => member.signature

/-- The row of the member table, for a method of another module. -/
def member? : MethodReference → Option MemberRef
  | definition _ => none
  | imported member => some member

def isImported (r : MethodReference) : Bool :=
  r.member?.isSome

end MethodReference

end AssemblyGraph
