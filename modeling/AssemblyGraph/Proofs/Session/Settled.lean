import AssemblyGraph.Proofs.Graph.Release
import AssemblyGraph.Proofs.Session.Move

/-!
States in which everything that lives is owned.

A step ends with sweeps, and as many of them as it takes: one that releases
nothing finds all living types owned, and every other one leaves fewer of them.
So what a step releases is what nothing owns at its end, and a step that leaves
the owners as they were releases nothing.
-/

namespace AssemblyGraph.Session

variable {s s' : Session} {t : TypeId}

/-- Every living type has an owner. -/
def Settled (s : Session) : Prop :=
  ∀ t, s.graph.isAlive t → t ∈ s.ownedTypes

/-- More owners and the same types. -/
theorem Settled.mono (h : s.Settled) (graph : s'.graph = s.graph)
    (owned : ∀ t ∈ s.ownedTypes, t ∈ s'.ownedTypes) : s'.Settled := by
  intro t ht
  rw [graph] at ht
  exact owned t (h t ht)

theorem sweep_eq_self_iff : s.sweep = s ↔ s.Settled := by
  rw [Settled, ← Graph.retain_eq_self_iff, sweep]
  constructor
  · intro h
    exact congrArg Session.graph h
  · intro h
    rw [h]

/-- Nothing is released from a state in which everything is owned. -/
theorem Settled.settle_eq_self (h : s.Settled) : s.settle = s := by
  rw [settle]
  cases s.graph.aliveCount with
  | zero => rfl
  | succ bound =>
      rw [settleWithin, sweep_eq_self_iff.mpr h]
      exact if_pos rfl

/-- There can be no more sweeps that release something than there are living types. -/
theorem settled_settleWithin {bound : Nat} (h : s.graph.aliveCount ≤ bound) :
    (settleWithin bound s).Settled := by
  -- every sweep that goes on has released a type, so the bound stays above the living types
  induction bound generalizing s with
  | zero =>
      rw [settleWithin, ← sweep_eq_self_iff, sweep]
      rcases Graph.retain_cases s.graph s.ownedTypes with heq | hlt
      · rw [heq]
      · exact absurd hlt (by omega)
  | succ bound ih =>
      rw [settleWithin]
      rcases Graph.retain_cases s.graph s.ownedTypes with heq | hlt
      · have hsweep : s.sweep = s := by rw [sweep, heq]
        rw [hsweep, if_pos rfl]
        exact sweep_eq_self_iff.mp hsweep
      · have hlt : s.sweep.graph.aliveCount < s.graph.aliveCount := hlt
        rw [if_neg (Nat.ne_of_lt hlt)]
        exact ih (by omega)

theorem settled_settle (s : Session) : s.settle.Settled :=
  settled_settleWithin (Nat.le_refl _)

theorem settled_step (s : Session) (command : Command) : (s.step command).1.Settled :=
  settled_settle _

theorem settled_run (commands : List Command) : (empty.run commands).Settled := by
  have hrun : ∀ s : Session, s.Settled → (s.run commands).Settled := by
    induction commands with
    | nil => exact fun s h => h
    | cons command commands ih => exact fun s _ => ih _ (s.settled_step command)
  refine hrun empty fun t ht => ?_
  simp [Graph.isAlive] at ht

/-! ### What is released -/

theorem mem_ownedTypes_of_sweep (h : t ∈ s.sweep.ownedTypes) : t ∈ s.ownedTypes := by
  rw [mem_ownedTypes_iff] at h ⊢
  cases h with
  | type h => exact .type h
  | registry h ht => exact .registry h ht
  | table h ht => exact .table h ht
  | factory h ht => exact .factory h ht
  | record h ht => exact .record h ht
  | attached h => exact .attached (Graph.mem_attachedTypes_of_retain h)

theorem mem_ownedTypes_of_settleWithin (bound : Nat)
    (h : t ∈ (settleWithin bound s).ownedTypes) : t ∈ s.ownedTypes := by
  induction bound generalizing s with
  | zero => exact h
  | succ bound ih =>
      rw [settleWithin] at h
      split at h
      · exact h
      · exact mem_ownedTypes_of_sweep (ih h)

/-- Every type is as it was, or it is gone and nothing owns it. -/
def Releases (s s' : Session) : Prop :=
  s'.graph.methods = s.graph.methods ∧ ∀ t,
    s'.graph.type? t = s.graph.type? t ∨ (s'.graph.type? t = none ∧ t ∉ s'.ownedTypes)

theorem releases_settleWithin (bound : Nat) (s : Session) :
    s.Releases (settleWithin bound s) := by
  induction bound generalizing s with
  | zero => exact ⟨rfl, fun t => .inl rfl⟩
  | succ bound ih =>
      rw [settleWithin]
      split
      · exact ⟨rfl, fun t => .inl rfl⟩
      · obtain ⟨hmethods, htypes⟩ := ih s.sweep
        refine ⟨hmethods, fun t => ?_⟩
        rcases htypes t with hsame | hgone
        · have hswept : s.sweep.graph.type? t =
              if t ∈ s.ownedTypes then s.graph.type? t else none :=
            Graph.type?_retain s.graph s.ownedTypes t
          rw [hswept] at hsame
          -- later sweeps take owners away but add none
          by_cases howned : t ∈ s.ownedTypes
          · rw [if_pos howned] at hsame
            exact .inl hsame
          · rw [if_neg howned] at hsame
            exact .inr ⟨hsame, fun h =>
              howned (mem_ownedTypes_of_sweep (mem_ownedTypes_of_settleWithin bound h))⟩
        · exact .inr hgone

theorem releases_settle (s : Session) : s.Releases s.settle :=
  releases_settleWithin _ s

end AssemblyGraph.Session
