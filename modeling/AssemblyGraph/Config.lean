/-!
Settings for a build session.
-/

namespace AssemblyGraph

structure Config where
  /-- Whether a method is imported only once, rather than once a request. -/
  cachesImports : Bool
  /-- Whether a factory checks at its creation that it can build every record. -/
  validatesFirst : Bool
  deriving DecidableEq

namespace Config

def standard : Config :=
  ⟨true, false⟩

def strict : Config :=
  ⟨true, true⟩

def uncached : Config :=
  ⟨false, false⟩

end Config

end AssemblyGraph
