import AssemblyGraph.Graph.Basic

/-!
Releasing the types that nothing owns.

Types are owned from outside the graph and, inside it, by the records that are
attached to living types. One sweep empties the place of every type that is
not among the owned ones.
-/

namespace AssemblyGraph

namespace Graph

def aliveCount (g : Graph) : Nat :=
  g.types.countP Option.isSome

def attachedTypes (g : Graph) : List TypeId :=
  g.types.toList.flatMap fun
    | none => []
    | some d => d.attributes.flatMap AttributeRecord.ownedTypes

/-- The places of a graph, marked where a type is owned. -/
def marks (size : Nat) (owned : List TypeId) : Array Bool :=
  owned.foldl (fun marked t => marked.setIfInBounds t.index true) (Array.replicate size false)

def retain (g : Graph) (owned : List TypeId) : Graph :=
  { g with
    types := Array.zipWith (fun place isOwned => if isOwned then place else none)
      g.types (marks g.types.size owned) }

@[simp] theorem size_marks (size : Nat) (owned : List TypeId) :
    (marks size owned).size = size := by
  suffices ∀ marked : Array Bool,
      (owned.foldl (fun marked t => marked.setIfInBounds t.index true) marked).size =
        marked.size by
    rw [marks, this, Array.size_replicate]
  induction owned with
  | nil => intro marked; rfl
  | cons t owned ih =>
    intro marked
    rw [List.foldl_cons, ih, Array.size_setIfInBounds]

theorem getElem_marks (size : Nat) (owned : List TypeId) (i : Nat)
    (h : i < (marks size owned).size) : (marks size owned)[i] = decide (TypeId.mk i ∈ owned) := by
  suffices ∀ (owned : List TypeId) (marked : Array Bool),
      (owned.foldl (fun marked t => marked.setIfInBounds t.index true) marked)[i]? =
        marked[i]?.map fun isMarked => isMarked || decide (TypeId.mk i ∈ owned) by
    have hi : i < size := by simpa using h
    have found := this owned (Array.replicate size false)
    rw [Array.getElem?_replicate, if_pos hi] at found
    rw [← Option.some_inj, ← Array.getElem?_eq_getElem h, marks, found]
    simp
  intro owned
  induction owned with
  | nil => intro marked; simp
  | cons t owned ih =>
    intro marked
    rw [List.foldl_cons, ih, Array.getElem?_setIfInBounds]
    by_cases ht : t.index = i
    · subst ht
      by_cases hs : t.index < marked.size
      · simp [hs]
      · simp [hs]
    · have hne : TypeId.mk i ≠ t := fun he => ht (congrArg TypeId.index he).symm
      simp [ht, hne]

/-- Exactly the owned types are kept. -/
theorem type?_retain (g : Graph) (owned : List TypeId) (t : TypeId) :
    (g.retain owned).type? t = if t ∈ owned then g.type? t else none := by
  simp only [retain, type?]
  rw [Array.getElem?_zipWith]
  by_cases h : t.index < g.types.size
  · have hm : t.index < (marks g.types.size owned).size := by simpa using h
    rw [Array.getElem?_eq_getElem h, Array.getElem?_eq_getElem hm, getElem_marks]
    by_cases ht : t ∈ owned
    · simp [ht]
    · simp [ht]
  · have hs : g.types[t.index]? = none := Array.getElem?_eq_none (Nat.le_of_not_lt h)
    simp [hs]

end Graph

end AssemblyGraph
