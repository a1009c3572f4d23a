import AssemblyGraph.Proofs.Identity.FullName
import AssemblyGraph.Proofs.Identity.Loop

/-!
What a hash tells.

The hash of a type is the exclusive or of the hashes of the simple names on its chain, so it
does not show in which order they stand, and two types with one name cancel each other. What is
left is the parity of the number of times that each name occurs, and nothing but that: where two
chains differ in the parity of some name, some hash of simple names tells them apart.
-/

namespace AssemblyGraph

/-- The exclusive or of the hashes of some names. -/
def mixNames (hashName : String → UInt64) (names : List String) : UInt64 :=
  names.foldl (fun hash name => hash ^^^ hashName name) 0

/-! ### Names that are mixed -/

section

variable {hashName : String → UInt64} {names names' : List String} {name : String}

theorem mixNames_perm (h : names.Perm names') :
    mixNames hashName names = mixNames hashName names' :=
  h.foldl_eq 0

theorem mixNames_concat :
    mixNames hashName (names ++ [name]) = mixNames hashName names ^^^ hashName name :=
  List.foldl_append

theorem mixNames_cons :
    mixNames hashName (name :: names) = mixNames hashName names ^^^ hashName name :=
  (mixNames_perm (List.perm_append_singleton name names).symm).trans mixNames_concat

theorem mixNames_append :
    mixNames hashName (names ++ names') = mixNames hashName names ^^^ mixNames hashName names' := by
  induction names with
  | nil => exact UInt64.zero_xor.symm
  | cons name names ih =>
      rw [List.cons_append, mixNames_cons, ih, mixNames_cons, UInt64.xor_assoc, UInt64.xor_assoc,
        UInt64.xor_comm (hashName name)]

/-- By induction on the number of names: the first one occurs once more, and the two cancel. -/
theorem mixNames_eq_zero (even : ∀ name, names.count name % 2 = 0) :
    mixNames hashName names = 0 := by
  induction hlength : names.length using Nat.strong_induction_on generalizing names with
  | h length ih =>
      cases names with
      | nil => rfl
      | cons name rest =>
          have hagain : name ∈ rest := by
            have hname := even name
            rw [List.count_cons_self] at hname
            exact List.count_pos_iff.mp (by omega)
          have hperm := (List.perm_cons_erase hagain).cons name
          have hrest : ∀ other, (rest.erase name).count other % 2 = 0 := by
            intro other
            have hother := even other
            rw [hperm.count_eq, List.count_cons, List.count_cons] at hother
            omega
          have hshorter : (rest.erase name).length < length := by
            rw [← hlength, hperm.length_eq, List.length_cons, List.length_cons]
            omega
          rw [mixNames_perm hperm, mixNames_cons, mixNames_cons, ih _ hshorter hrest rfl,
            UInt64.xor_assoc, UInt64.xor_self, UInt64.xor_zero]

/-- A hash that is one for a single name, and zero for all others, counts that name modulo two. -/
theorem mixNames_single :
    mixNames (fun other => if other = name then 1 else 0) names =
      if names.count name % 2 = 0 then 0 else 1 := by
  induction names with
  | nil => rfl
  | cons other names ih =>
      rw [mixNames_cons, ih, List.count_cons]
      by_cases hname : other = name
      · rcases Nat.mod_two_eq_zero_or_one (names.count name) with h | h
        · simp [hname, h, Nat.add_mod]
        · simp [hname, h, Nat.add_mod]
      · simp [hname]

theorem mixNames_single_eq_zero_iff :
    mixNames (fun other => if other = name then 1 else 0) names = 0 ↔
      names.count name % 2 = 0 := by
  rw [mixNames_single]
  split
  · exact iff_of_true rfl ‹_›
  · exact iff_of_false (by decide) ‹_›

/-- Names are mixed alike by every hash exactly if every name occurs in them with one parity. -/
theorem mixNames_eq_iff (names names' : List String) :
    (∀ hashName, mixNames hashName names = mixNames hashName names') ↔
      ∀ name, names.count name % 2 = names'.count name % 2 := by
  constructor
  · intro h name
    have heven : names.count name % 2 = 0 ↔ names'.count name % 2 = 0 := by
      rw [← mixNames_single_eq_zero_iff, h, mixNames_single_eq_zero_iff]
    omega
  · intro h hashName
    have heven : mixNames hashName (names ++ names') = 0 :=
      mixNames_eq_zero fun name => by
        rw [List.count_append]
        have hname := h name
        omega
    rwa [mixNames_append, UInt64.xor_eq_zero_iff] at heven

end

namespace Graph

/-! ### Names on a chain -/

/-- How often a simple name occurs on the chain of a type. -/
def nameCount (g : Graph) (t : TypeId) (name : String) : Nat :=
  ((g.ancestry t).map (·.name)).count name

variable {g : Graph} {t u e : TypeId} {d : TypeDecl}

theorem identityHash_eq_mixNames (hashName : String → UInt64) :
    g.identityHash hashName (some t) = mixNames hashName ((g.ancestry t).map (·.name)) := by
  rw [identityHash, mixNames, List.foldl_map]

theorem identityHash_enclosing (hashName : String → UInt64) (ends : g.Ends (some t))
    (ht : g.type? t = some d) (henclosing : g.enclosing? t = some e) :
    g.identityHash hashName (some t) = g.identityHash hashName (some e) ^^^ hashName d.name := by
  rw [identityHash_eq_mixNames, identityHash_eq_mixNames, ancestry_concat ends ht henclosing,
    List.map_append]
  exact mixNames_concat

/-- In every graph, whatever has been released from it, the hash of a type is told by how often,
up to multiples of two, each simple name occurs on its chain. Two types hash equally under every
hash of simple names exactly if every name occurs with one parity on both of their chains, in
whatever order the chains have it; and a type hashes to zero, as an absent one does, under every
hash of simple names exactly if every name occurs an even number of times. The hash of a nested
type is that of its living enclosing type, mixed with the hash of its name. All this is said of
the hash that a walk without a bound finds, and it finds one exactly where the chain ends. -/
theorem identityHash_parity (g : Graph) :
    (∀ t u, (∀ hashName, g.identityHash hashName (some t) = g.identityHash hashName (some u)) ↔
      ∀ name, g.nameCount t name % 2 = g.nameCount u name % 2) ∧
    (∀ t, (∀ hashName, g.identityHash hashName (some t) = g.identityHash hashName none) ↔
      ∀ name, g.nameCount t name % 2 = 0) ∧
    (∀ hashName, g.identityHash hashName none = 0) ∧
    (∀ hashName t d e, g.Ends (some t) → g.type? t = some d → g.enclosing? t = some e →
      g.identityHash hashName (some t) = g.identityHash hashName (some e) ^^^ hashName d.name) ∧
    ∀ hashName a hash, (∃ n, Returns (g.hashPass hashName) n (0, a) hash) ↔
      g.Ends a ∧ g.identityHash hashName a = hash := by
  refine ⟨fun t u => ?_, fun t => ?_, fun hashName => rfl, fun hashName t d e => ?_,
    fun hashName a hash => returns_hashPass_iff⟩
  · simp only [identityHash_eq_mixNames]
    exact mixNames_eq_iff _ _
  · simp only [identityHash_eq_mixNames]
    exact mixNames_eq_iff _ []
  · exact identityHash_enclosing hashName

/-- Types `A/B` and `B/A` from different namespaces, a type `A/A`, and a type `B` whose enclosing
type is gone. -/
def renested : Graph where
  types := #[
    some { token := ⟨0x02000001⟩, namespaceName := "N", name := "A", flags := 0,
           origin := .module "Lib.dll" },
    some { token := ⟨0x02000002⟩, namespaceName := "", name := "B", flags := 2,
           origin := .module "Lib.dll", enclosing? := some ⟨0⟩ },
    some { token := ⟨0x02000003⟩, namespaceName := "M", name := "B", flags := 0,
           origin := .module "Lib.dll", genericParams := [⟨⟨0x2a000001⟩, 0, "T"⟩] },
    some { token := ⟨0x02000004⟩, namespaceName := "", name := "A", flags := 2,
           origin := .module "Lib.dll", enclosing? := some ⟨2⟩ },
    some { token := ⟨0x02000005⟩, namespaceName := "", name := "A", flags := 2,
           origin := .module "Lib.dll", enclosing? := some ⟨0⟩ },
    none,
    some { token := ⟨0x02000007⟩, namespaceName := "", name := "B", flags := 2,
           origin := .module "Lib.dll", enclosing? := some ⟨5⟩ }]
  methods := #[]

/-- The first two hash equally, and so do the third one and no type at all. The last one stands
for its simple name alone. -/
theorem identityHash_of_renested :
    (∀ hashName, renested.identityHash hashName (some ⟨1⟩) =
      renested.identityHash hashName (some ⟨3⟩)) ∧
    (∀ hashName, renested.identityHash hashName (some ⟨4⟩) = 0) ∧
    (∀ hashName, renested.identityHash hashName (some ⟨1⟩) =
      renested.identityHash hashName (some ⟨0⟩) ^^^ hashName "B") ∧
    ∀ hashName, renested.identityHash hashName (some ⟨6⟩) =
      renested.identityHash hashName (some ⟨2⟩) := by
  obtain ⟨hparity, hzero, hnone, hnested, -⟩ := identityHash_parity renested
  refine ⟨(hparity _ _).mpr fun name => ?_, fun hashName => ?_, fun hashName => ?_,
    (hparity _ _).mpr fun name => ?_⟩
  · have hswap : ((renested.ancestry ⟨1⟩).map (·.name)).Perm
        ((renested.ancestry ⟨3⟩).map (·.name)) := by decide +kernel
    rw [nameCount, nameCount, hswap.count_eq]
  · have hnames : (renested.ancestry ⟨4⟩).map (·.name) = ["A", "A"] := by decide +kernel
    refine ((hzero ⟨4⟩).mpr (fun name => ?_) hashName).trans (hnone hashName)
    rw [nameCount, hnames, List.count_cons, List.count_singleton]
    split
    · rfl
    · rfl
  · exact hnested hashName ⟨1⟩ _ ⟨0⟩ ⟨3, by decide +kernel⟩ rfl (by decide +kernel)
  · have hnames : (renested.ancestry ⟨6⟩).map (·.name) = (renested.ancestry ⟨2⟩).map (·.name) := by
      decide +kernel
    rw [nameCount, nameCount, hnames]

end Graph

end AssemblyGraph
