import AssemblyGraph.Identity.Map
import AssemblyGraph.Proofs.Identity.Chain

/-!
Maps by identity.

Types that are the same hash equally, so all of them have one entry: what is
put under one of them is found under each, and under no other type.
-/

namespace AssemblyGraph

namespace Graph

/-- Whether a type is the same as `t`. -/
def isSameAs (g : Graph) (t u : TypeId) : Bool :=
  g.sameIdentity (some u) (some t)

@[simp] theorem isSameAs_self (g : Graph) (t : TypeId) : g.isSameAs t t = true :=
  g.sameIdentity_refl (some t)

theorem isSameAs_comm (g : Graph) (t u : TypeId) : g.isSameAs t u = g.isSameAs u t :=
  g.sameIdentity_comm (some u) (some t)

theorem isSameAs_congr {g : Graph} {s t : TypeId} (h : g.isSameAs s t = true) :
    g.isSameAs s = g.isSameAs t := by
  funext u
  exact sameIdentity_congr (sameIdentity_symm h) (some u)

/-- Types that are the same have equal hashes. -/
def HashesAlike (g : Graph) (hashOf : TypeId → UInt64) : Prop :=
  ∀ t u, g.isSameAs t u = true → hashOf t = hashOf u

theorem identityHash_hashesAlike (g : Graph) (hashName : String → UInt64) :
    g.HashesAlike fun t => g.identityHash hashName (some t) :=
  fun _ _ h => (identityHash_eq_of_sameIdentity h hashName).symm

end Graph

namespace IdentityMap

variable {α : Type} {g : Graph} {hashOf : TypeId → UInt64}

theorem isEntryOf_congr (hash : g.HashesAlike hashOf) {t u : TypeId}
    (h : g.isSameAs t u = true) :
    isEntryOf (α := α) g (hashOf t) t = isEntryOf g (hashOf u) u := by
  funext entry
  have hsame : g.isSameAs t entry.key = g.isSameAs u entry.key := by rw [Graph.isSameAs_congr h]
  rw [isEntryOf, isEntryOf, hash t u h]
  exact congrArg _ hsame

/-- The entry of a key is not the one of a type that is not the same. -/
theorem not_isEntryOf {t u : TypeId} (h : ¬ g.isSameAs u t = true) {entry : IdentityEntry α}
    {hash : UInt64} (ht : isEntryOf g hash t entry = true) (hash' : UInt64) :
    isEntryOf g hash' u entry = false := by
  rw [isEntryOf, Bool.and_eq_true] at ht
  rw [isEntryOf, ← Bool.not_eq_true, Bool.and_eq_true]
  rintro ⟨-, hu⟩
  exact h (Graph.sameIdentity_trans (Graph.sameIdentity_symm ht.2) hu)

@[simp] theorem value?_empty (t : TypeId) : (empty (α := α)).value? g hashOf t = none :=
  rfl

theorem value?_alter (hash : g.HashesAlike hashOf) (m : IdentityMap α) (key t : TypeId)
    (f : Option α → α) :
    (m.alter g hashOf key f).value? g hashOf t =
      if g.isSameAs key t then some (f (m.value? g hashOf key)) else m.value? g hashOf t := by
  simp only [value?, find?, alter]
  cases hkey : m.entries.find? (isEntryOf g (hashOf key) key) with
  | none =>
      by_cases h : g.isSameAs key t = true
      · rw [if_pos h, ← isEntryOf_congr hash h]
        simp [hkey, isEntryOf]
      · have hnew : isEntryOf g (hashOf t) t ⟨hashOf key, key, f none⟩ = false := by
          have hkey' : isEntryOf g (hashOf key) key ⟨hashOf key, key, f none⟩ = true := by
            simp [isEntryOf]
          rw [Graph.isSameAs_comm] at h
          exact not_isEntryOf h hkey' _
        rw [if_neg h]
        simp [hnew]
  | some entry =>
      -- an entry keeps its hash and its key, so the search stops where it did before
      have hkept : ∀ u, isEntryOf g (hashOf u) u ∘ (fun entry =>
          if isEntryOf g (hashOf key) key entry then { entry with value := f (some entry.value) }
          else entry) = isEntryOf g (hashOf u) u := by
        intro u
        funext e
        simp only [Function.comp_apply]
        split <;> rfl
      simp only [List.find?_map, hkept]
      by_cases h : g.isSameAs key t = true
      · rw [if_pos h, ← isEntryOf_congr hash h, hkey]
        simp [List.find?_some hkey]
      · rw [if_neg h]
        cases ht : m.entries.find? (isEntryOf g (hashOf t) t) with
        | none => rfl
        | some e =>
            have hother := not_isEntryOf h (List.find?_some ht) (hashOf key)
            simp [hother]

end IdentityMap

end AssemblyGraph
