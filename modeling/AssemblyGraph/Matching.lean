import AssemblyGraph.Identity.Map
import AssemblyGraph.Registry

/-!
Matching the types of two registries by identity.

The types on the right are indexed by identity first. Each of them is used at
most once. The types on the left take their counterparts in token order, each
the first one that is not used yet, so types that are the same on one side are
matched with those on the other by rank and the surplus is left over. The
hashes only speed the search up.
-/

namespace AssemblyGraph

/-- The outcome of a matching. -/
structure Matching where
  /-- The matched types, in token order of the left one. -/
  pairs : List (TypeId × TypeId)
  unmatchedLeft : List TypeId
  unmatchedRight : List TypeId
  deriving DecidableEq

namespace Graph

/-- The positions of types in an array, by identity. -/
def positionIndex {n : Nat} (g : Graph) (hashOf : TypeId → UInt64) (ts : Vector TypeId n) :
    IdentityMap (List (Fin n)) :=
  (List.finRange n).foldl (fun index p =>
    index.alter g hashOf (ts.get p) fun earlier? => earlier?.getD [] ++ [p]) .empty

/-- The positions of the types that are the same as a type. -/
def candidates {n : Nat} (g : Graph) (hashOf : TypeId → UInt64)
    (index : IdentityMap (List (Fin n))) (t : TypeId) : List (Fin n) :=
  (index.value? g hashOf t).getD []

/-- Matches the types on the left, each with its candidates, with the types on
the right that are not used. -/
def matchAmong {n : Nat} (right : Vector TypeId n) :
    List (TypeId × List (Fin n)) → Vector Bool n → Matching
  | [], used => ⟨[], [], ((List.finRange n).filter (!used.get ·)).map right.get⟩
  | (t, candidates) :: left, used =>
    match candidates.find? (!used.get ·) with
    | some p =>
      let rest := matchAmong right left (used.set p true p.isLt)
      { rest with pairs := (t, right.get p) :: rest.pairs }
    | none =>
      let rest := matchAmong right left used
      { rest with unmatchedLeft := t :: rest.unmatchedLeft }

/-- Matches the declared types of two registries, with a hash of simple names. -/
def matchTypes (g : Graph) (hashName : String → UInt64) (left right : Registry) : Matching :=
  let hashOf t := g.identityHash hashName (some t)
  let rightTypes := (right.declared g).toArray.toVector
  let index := g.positionIndex hashOf rightTypes
  matchAmong rightTypes ((left.declared g).map fun t => (t, g.candidates hashOf index t))
    (.replicate _ false)

end Graph

end AssemblyGraph
