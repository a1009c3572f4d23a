import AssemblyGraph.Graph.Enclosing
import AssemblyGraph.SipHash

/-!
The identity of types across graphs that were read independently.

Two types are the same when they are both nested or both not, have equal
namespaces, names and numbers of generic parameters and, if nested, when their
enclosing types are the same; an enclosing type that is gone counts as absent.
Nothing else of a type takes part. The hash mixes the simple names along the
chain of enclosing types, so types that are the same hash equally whatever
function hashes a name.

Both walks are bounded, and they have a value where types enclose each other in
a circle, although a loop without a bound need not return there. Where a loop
returns, it returns what the walk has; `Proofs/Identity/Loop` shows this.
-/

namespace AssemblyGraph

/-- What one type adds to its identity. -/
structure IdentityShape where
  isNested : Bool
  namespaceName : String
  name : String
  arity : Nat
  deriving DecidableEq

/-- The part of a type that its identity is made of. -/
def TypeDecl.identityShape (d : TypeDecl) : IdentityShape where
  isNested := d.isNested
  namespaceName := d.namespaceName
  name := d.name
  arity := d.arity

/-- The hash of a simple name: of its bytes, closed by a byte that no text holds. -/
def nameHash (name : String) : UInt64 :=
  SipHash.hash 0 0 (name.toUTF8.toList ++ [0xff])

namespace Graph

/-- Compares two chains in step, for at most `bound` types. Links to one and the
same type need not be followed. Chains that run into circles, and neither differ
nor meet on them, are the same once the bound is used up, where a loop without a
bound does not return. Each pass of that loop keeps what `sameIdentity` says of
the two, so where it returns they agree (`comparePass_cases` in
`Proofs/Identity/Loop`). -/
def sameChain (g : Graph) : Nat → Option TypeId → Option TypeId → Bool
  | 0, _, _ => true
  | bound + 1, a, b =>
    if a = b then true
    else
      match a.bind g.type?, b.bind g.type? with
      | none, none => true
      | some x, some y =>
        x.identityShape == y.identityShape &&
          (!x.isNested || sameChain g bound x.enclosing? y.enclosing?)
      | _, _ => false

/-- Whether two optional types are the same; an absent type is the same only as
an absent one. -/
def sameIdentity (g : Graph) (a b : Option TypeId) : Bool :=
  g.sameChain (g.types.size + 1) a b

/-- The hash of an optional type, from a hash of simple names: the exclusive or
along its chain, and zero for an absent type. A chain that runs into a circle is
hashed as far as the bound goes, while a loop without a bound does not return. The
loop returns exactly for chains that end, and then it returns this hash
(`returns_hashPass_iff` in `Proofs/Identity/Loop`). -/
def identityHash (g : Graph) (hashName : String → UInt64) : Option TypeId → UInt64
  | none => 0
  | some t => (g.ancestry t).foldl (fun hash d => hash ^^^ hashName d.name) 0

end Graph

end AssemblyGraph
