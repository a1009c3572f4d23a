import AssemblyGraph.Graph.Basic

/-!
The chain of types that enclose a type, and the full name read off it.

A chain goes from a type to its enclosing type for as long as that is alive.
The walk is bounded by the number of types, which no chain without repetition
exceeds. Where types enclose each other in a circle it has a value as well,
although a loop without a bound does not return there. Where a chain ends, the
loop returns what the walk has; `Proofs/Identity/Loop` shows this.
-/

namespace AssemblyGraph

namespace Graph

/-- The living types on the chain from a link outwards, put in front of `inner`
so that the outermost comes first. At most `bound` types are visited, so that the
walk ends on a circle too, where a loop without a bound does not return
(`Proofs/Identity/Loop`). -/
def ancestryOnto (g : Graph) : Nat → Option TypeId → List TypeDecl → List TypeDecl
  | 0, _, inner => inner
  | bound + 1, link, inner =>
    match link.bind g.type? with
    | none => inner
    | some d => ancestryOnto g bound d.enclosing? (d :: inner)

/-- The chain of a type, from the outermost living type to the type itself. It
is empty for a type that is gone. -/
def ancestry (g : Graph) (t : TypeId) : List TypeDecl :=
  g.ancestryOnto g.types.size (some t) []

/-- The living type that encloses a type. -/
def enclosing? (g : Graph) (t : TypeId) : Option TypeId :=
  g.follow? ((g.type? t).bind (·.enclosing?))

/-- The name of a chain: the simple names with slashes between them, after the
outermost namespace and a dot unless that namespace is empty. -/
def pathName : List TypeDecl → String
  | [] => ""
  | outermost :: inner =>
    let path := "/".intercalate ((outermost :: inner).map (·.name))
    if outermost.namespaceName.isEmpty then path
    else outermost.namespaceName ++ "." ++ path

/-- The full name of a type at this moment. If its chain runs into a circle, this is
the name of as much of the chain as the bound lets through, while a loop without a
bound does not return. For a chain that ends the loop returns this name
(`returns_fullName` in `Proofs/Identity/Loop`). -/
def fullName (g : Graph) (t : TypeId) : String :=
  pathName (g.ancestry t)

end Graph

end AssemblyGraph
