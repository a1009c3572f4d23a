import AssemblyGraph.Error

/-!
The search for the one constructor of a shape.

The candidates are scanned once. The scan keeps the first candidate that the
shape admits and counts those that it admits, and the outcome is read off when
the candidates are used up.
-/

namespace AssemblyGraph

inductive ConstructorLookup (α : Type) where
  | unique (candidate : α)
  | notFound
  | ambiguous (count : Nat)
  deriving DecidableEq

def ConstructorLookup.map {α β : Type} (f : α → β) : ConstructorLookup α → ConstructorLookup β
  | unique candidate => .unique (f candidate)
  | notFound => .notFound
  | ambiguous count => .ambiguous count

/-- What a scan has seen: the first candidate that is admitted, and how many are. -/
structure ConstructorScan (α : Type) where
  first? : Option α
  count : Nat

namespace ConstructorScan

def start {α : Type} : ConstructorScan α := ⟨none, 0⟩

/-- The scan after one more candidate, which only fills an empty slot. -/
def visit {α : Type} (admitted : α → Bool) (scan : ConstructorScan α) (candidate : α) :
    ConstructorScan α :=
  if admitted candidate then ⟨scan.first?.or (some candidate), scan.count + 1⟩ else scan

def outcome {α : Type} : ConstructorScan α → ConstructorLookup α
  | ⟨some candidate, 1⟩ => .unique candidate
  | ⟨_, 0⟩ => .notFound
  | ⟨_, count⟩ => .ambiguous count

end ConstructorScan

/-- Searches the candidates, which stand for the methods that `methodOf` gives. -/
def ConstructorShape.find {α : Type} (shape : ConstructorShape) (methodOf : α → Method)
    (candidates : List α) : ConstructorLookup α :=
  (candidates.foldl (ConstructorScan.visit fun candidate => shape.admits (methodOf candidate))
    .start).outcome

/-- The one constructor that was found, or the mismatch on the searched type. -/
def ConstructorLookup.toExcept {α : Type} (typeName : String) (shape : ConstructorShape) :
    ConstructorLookup α → Except Error α
  | unique candidate => .ok candidate
  | notFound => .error (.constructorMismatch typeName shape 0)
  | ambiguous count => .error (.constructorMismatch typeName shape count)

end AssemblyGraph
