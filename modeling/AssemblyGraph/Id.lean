/-!
Identities of the objects of a graph.

An identity is given out once and never used again, so an identity whose
object is gone stays without an object for good. A link that does not own its
target is an identity, read through the graph.
-/

namespace AssemblyGraph

structure TypeId where
  index : Nat
  deriving DecidableEq, Inhabited

structure MethodId where
  index : Nat
  deriving DecidableEq, Inhabited

/-- The identity of a module that attribute records are built for. -/
structure ModuleId where
  index : Nat
  deriving DecidableEq, Inhabited

end AssemblyGraph
