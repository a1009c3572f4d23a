import AssemblyGraph.Identity

/-!
Chains of enclosing types, and what the identity of a type is made of.

`Graph.chain` lists the living types that a walk outwards visits, the innermost
one first. Everything that walks a chain is a function of this list: two
links are the same exactly when their chains have equal shapes, and a hash
mixes the names along the chain. Whatever is known of lists of shapes is
then known of identity, however many ancestors have been released.
-/

namespace AssemblyGraph.Graph

/-- The living types on the chain from a link outwards, the innermost one
first. At most `bound` types are visited. -/
def chain (g : Graph) : Nat → Option TypeId → List TypeDecl
  | 0, _ => []
  | bound + 1, link =>
      match link.bind g.type? with
      | none => []
      | some d => d :: chain g bound d.enclosing?

/-- What the types on a chain add to its identity. -/
def chainShapes (g : Graph) (bound : Nat) (link : Option TypeId) : List IdentityShape :=
  (g.chain bound link).map TypeDecl.identityShape

theorem chain_of_dead {g : Graph} {link : Option TypeId} (h : link.bind g.type? = none)
    (bound : Nat) : g.chain bound link = [] := by
  cases bound with
  | zero => rfl
  | succ bound => rw [chain, h]

@[simp] theorem chain_none (g : Graph) (bound : Nat) : g.chain bound none = [] :=
  chain_of_dead rfl bound

theorem chain_succ_of_alive {g : Graph} {link : Option TypeId} {d : TypeDecl}
    (h : link.bind g.type? = some d) (bound : Nat) :
    g.chain (bound + 1) link = d :: g.chain bound d.enclosing? := by
  rw [chain, h]

/-- A longer walk begins with the shorter one. -/
theorem take_chain (g : Graph) (m n : Nat) (link : Option TypeId) :
    (g.chain (m + n) link).take m = g.chain m link := by
  induction m generalizing link with
  | zero => rfl
  | succ m ih =>
      rw [Nat.succ_add]
      cases h : link.bind g.type? with
      | none => rw [chain_of_dead h, chain_of_dead h, List.take_nil]
      | some d => rw [chain_succ_of_alive h, chain_succ_of_alive h, List.take_succ_cons, ih]

theorem take_chainShapes (g : Graph) (m n : Nat) (link : Option TypeId) :
    (g.chainShapes (m + n) link).take m = g.chainShapes m link := by
  rw [chainShapes, ← List.map_take, take_chain, chainShapes]

theorem ancestryOnto_eq (g : Graph) (bound : Nat) (link : Option TypeId)
    (inner : List TypeDecl) :
    g.ancestryOnto bound link inner = (g.chain bound link).reverse ++ inner := by
  induction bound generalizing link inner with
  | zero => rfl
  | succ bound ih =>
      rw [ancestryOnto]
      cases h : link.bind g.type? with
      | none => rw [chain_of_dead h]; rfl
      | some d =>
          rw [chain_succ_of_alive h, List.reverse_cons, List.append_assoc]
          exact ih d.enclosing? (d :: inner)

theorem ancestry_eq (g : Graph) (t : TypeId) :
    g.ancestry t = (g.chain g.types.size (some t)).reverse := by
  rw [ancestry, ancestryOnto_eq, List.append_nil]

/-- The walk in step compares the shapes along both chains. The shortcut for one
and the same type and the stop at a type that is not nested skip only what is
equal anyway. -/
theorem sameChain_iff (g : Graph) (bound : Nat) (a b : Option TypeId) :
    g.sameChain bound a b = true ↔ g.chainShapes bound a = g.chainShapes bound b := by
  induction bound generalizing a b with
  | zero => simp [sameChain, chainShapes, chain]
  | succ bound ih =>
      rw [sameChain]
      by_cases hab : a = b
      · simp [hab]
      rw [if_neg hab]
      cases ha : a.bind g.type? with
      | none =>
          cases hb : b.bind g.type? with
          | none => simp [chainShapes, chain_of_dead ha, chain_of_dead hb]
          | some y => simp [chainShapes, chain_of_dead ha, chain_succ_of_alive hb]
      | some x =>
          cases hb : b.bind g.type? with
          | none => simp [chainShapes, chain_succ_of_alive ha, chain_of_dead hb]
          | some y =>
              simp only [chainShapes, chain_succ_of_alive ha, chain_succ_of_alive hb,
                List.map_cons, List.cons.injEq, Bool.and_eq_true, beq_iff_eq, Bool.or_eq_true,
                Bool.not_eq_true', ih]
              refine and_congr_right fun hshape => ?_
              -- types of one shape that are not nested have no enclosing types to differ in
              refine ⟨fun h => h.elim (fun hx => ?_) id, .inr⟩
              have hy : y.isNested = false := (congrArg IdentityShape.isNested hshape).symm.trans hx
              rw [TypeDecl.isNested, Option.isSome_eq_false_iff, Option.isNone_iff_eq_none] at hx hy
              rw [hx, hy]

/-- Two links are the same exactly when their chains have equal shapes. -/
theorem sameIdentity_iff {g : Graph} {a b : Option TypeId} :
    g.sameIdentity a b = true ↔
      g.chainShapes (g.types.size + 1) a = g.chainShapes (g.types.size + 1) b :=
  g.sameChain_iff _ a b

@[simp] theorem sameIdentity_refl (g : Graph) (a : Option TypeId) :
    g.sameIdentity a a = true :=
  sameIdentity_iff.mpr rfl

theorem sameIdentity_symm {g : Graph} {a b : Option TypeId} (h : g.sameIdentity a b = true) :
    g.sameIdentity b a = true :=
  sameIdentity_iff.mpr (sameIdentity_iff.mp h).symm

theorem sameIdentity_trans {g : Graph} {a b c : Option TypeId}
    (hab : g.sameIdentity a b = true) (hbc : g.sameIdentity b c = true) :
    g.sameIdentity a c = true :=
  sameIdentity_iff.mpr ((sameIdentity_iff.mp hab).trans (sameIdentity_iff.mp hbc))

theorem sameIdentity_comm (g : Graph) (a b : Option TypeId) :
    g.sameIdentity a b = g.sameIdentity b a :=
  Bool.eq_iff_iff.mpr ⟨sameIdentity_symm, sameIdentity_symm⟩

/-- What is the same as one of two equal links is the same as the other. -/
theorem sameIdentity_congr {g : Graph} {a b : Option TypeId} (hab : g.sameIdentity a b = true)
    (c : Option TypeId) : g.sameIdentity c a = g.sameIdentity c b :=
  Bool.eq_iff_iff.mpr ⟨fun h => sameIdentity_trans h hab,
    fun h => sameIdentity_trans h (sameIdentity_symm hab)⟩

theorem follow?_eq_none_iff {g : Graph} {link : Option TypeId} :
    g.follow? link = none ↔ link.bind g.type? = none := by
  cases link with
  | none => simp [follow?]
  | some t => cases h : g.type? t <;> simp [follow?, isAlive, Option.filter, h]

/-- An absent type is the same only as a link without a living target. -/
theorem sameIdentity_none_iff {g : Graph} {a : Option TypeId} :
    g.sameIdentity none a = true ↔ g.follow? a = none := by
  rw [sameIdentity_iff, follow?_eq_none_iff, chainShapes, chain_none]
  cases h : a.bind g.type? with
  | none => simp [chainShapes, chain_of_dead h]
  | some d => simp [chainShapes, chain_succ_of_alive h]

/-- A hash takes in the names along the chain and nothing else. -/
theorem identityHash_eq (g : Graph) (hashName : String → UInt64) (a : Option TypeId) :
    g.identityHash hashName a =
      ((g.chainShapes g.types.size a).map (·.name)).foldr
        (fun name hash => hash ^^^ hashName name) 0 := by
  have hnames : (g.chainShapes g.types.size a).map (·.name) =
      (g.chain g.types.size a).map (·.name) := by
    rw [chainShapes, List.map_map]
    rfl
  rw [hnames, List.foldr_map]
  cases a with
  | none => rw [chain_none]; rfl
  | some t => rw [identityHash, ancestry_eq, List.foldl_reverse]

/-- The shapes decide the hash: a walk that compares equal is at least as long
as the one that is hashed. -/
theorem identityHash_eq_of_sameIdentity {g : Graph} {a b : Option TypeId}
    (h : g.sameIdentity a b = true) (hashName : String → UInt64) :
    g.identityHash hashName a = g.identityHash hashName b := by
  have hshapes : g.chainShapes g.types.size a = g.chainShapes g.types.size b := by
    rw [← take_chainShapes g g.types.size 1 a, ← take_chainShapes g g.types.size 1 b,
      sameIdentity_iff.mp h]
  rw [identityHash_eq, identityHash_eq, hshapes]

/-- In every graph, whatever has been released from it, being the same is an
equivalence of optional types, in which an absent type has a class of its own. What
decides it are the shapes along the chains of living types. Types that are the same
hash equally under every hash of simple names. -/
theorem sameIdentity_equivalence (g : Graph) :
    Equivalence (fun a b => g.sameIdentity a b = true) ∧
      (∀ a, g.sameIdentity none a = true ↔ g.follow? a = none) ∧
      (∀ a b, g.sameIdentity a b = true ↔
        g.chainShapes (g.types.size + 1) a = g.chainShapes (g.types.size + 1) b) ∧
      ∀ (hashName : String → UInt64) (a b : Option TypeId), g.sameIdentity a b = true →
        g.identityHash hashName a = g.identityHash hashName b := by
  refine ⟨⟨g.sameIdentity_refl, sameIdentity_symm, sameIdentity_trans⟩, ?_, ?_, ?_⟩
  · intro a
    exact sameIdentity_none_iff
  · intro a b
    exact sameIdentity_iff
  · intro hashName a b h
    exact identityHash_eq_of_sameIdentity h hashName

end AssemblyGraph.Graph
