import AssemblyGraph.Proofs.Graph.PathName
import AssemblyGraph.Proofs.Identity.Recursion

/-!
Walks without a bound.

Hashes, comparisons and full names are told by loops that go on from a type to its enclosing
type for as long as there is a living one, and that have no bound of their own. Where the chain
of a type ends, the loop returns, and it returns what the walk of bounded length has. Where
types enclose each other in a circle, the loop of a hash does not return.
-/

namespace AssemblyGraph

/-- From a state, a loop returns a result after a number of passes that go on. A pass goes on
with the next state, or it is the last one and returns. -/
inductive Returns {σ ρ : Type} (pass : σ → σ ⊕ ρ) : Nat → σ → ρ → Prop
  | now {s : σ} {r : ρ} (returns : pass s = .inr r) : Returns pass 0 s r
  | later {n : Nat} {s s' : σ} {r : ρ} (goesOn : pass s = .inl s') (rest : Returns pass n s' r) :
      Returns pass (n + 1) s r

/-- A loop returns at most once. -/
theorem Returns.unique {σ ρ : Type} {pass : σ → σ ⊕ ρ} {n m : Nat} {s : σ} {r r' : ρ}
    (h : Returns pass n s r) (h' : Returns pass m s r') : n = m ∧ r = r' := by
  induction h generalizing m with
  | now returns =>
      cases h' with
      | now returns' => exact ⟨rfl, Sum.inr.inj (returns.symm.trans returns')⟩
      | later goesOn' => cases returns.symm.trans goesOn'
  | later goesOn _ ih =>
      cases h' with
      | now returns' => cases goesOn.symm.trans returns'
      | later goesOn' rest' =>
          obtain rfl := Sum.inl.inj (goesOn.symm.trans goesOn')
          obtain ⟨rfl, rfl⟩ := ih rest'
          exact ⟨rfl, rfl⟩

namespace Graph

section

variable (g : Graph)

/-- A pass of the loop that hashes a type takes one name in. -/
def hashPass (hashName : String → UInt64) :
    UInt64 × Option TypeId → (UInt64 × Option TypeId) ⊕ UInt64
  | (hash, current) =>
      match current.bind g.type? with
      | none => .inr hash
      | some d => .inl (hash ^^^ hashName d.name, g.follow? d.enclosing?)

/-- A pass of the loop that compares two types compares what each adds to its identity, and
goes on with their enclosing types if it has to. -/
def comparePass : Option TypeId × Option TypeId → (Option TypeId × Option TypeId) ⊕ Bool
  | (a, b) =>
      match a.bind g.type?, b.bind g.type? with
      | none, none => .inr true
      | some x, some y =>
          if a = b then .inr true
          else if x.identityShape ≠ y.identityShape then .inr false
          else if x.isNested then .inl (g.follow? x.enclosing?, g.follow? y.enclosing?)
          else .inr true
      | _, _ => .inr false

/-- A pass of the loop that tells a full name takes one more name, and the namespace of the type
that is the outermost one so far. -/
def namePass : List String × String × Option TypeId →
    (List String × String × Option TypeId) ⊕ String
  | (names, namespaceName, current) =>
      match current.bind g.type? with
      | none => .inr (qualified namespaceName ("/".intercalate names.reverse))
      | some d => .inl (names ++ [d.name], d.namespaceName, g.follow? d.enclosing?)

end

variable {g : Graph} {a b : Option TypeId} {t : TypeId} {d : TypeDecl} {n : Nat}

/-! ### Hashes -/

/-- Hashes are mixed alike in whatever order they come. -/
instance rightCommutative_xor {α : Type} (hashOf : α → UInt64) :
    RightCommutative fun (hash : UInt64) (x : α) => hash ^^^ hashOf x :=
  ⟨fun hash x y => by
    rw [UInt64.xor_assoc, UInt64.xor_comm (hashOf x), ← UInt64.xor_assoc]⟩

/-- By induction on the length of a walk that comes to its end. -/
theorem returns_hashPass (hashName : String → UInt64) (hash : UInt64)
    (ended : (g.chain n a).length < n) :
    Returns (g.hashPass hashName) (g.chain n a).length (hash, a)
      ((g.chain n a).foldl (fun hash d => hash ^^^ hashName d.name) hash) := by
  induction n generalizing a hash with
  | zero => omega
  | succ n ih =>
      cases ha : a.bind g.type? with
      | none =>
          rw [chain_of_dead ha]
          exact .now (by rw [hashPass, ha]; rfl)
      | some d =>
          rw [chain_succ_of_alive ha, List.length_cons] at ended ⊢
          have hrest := ih (a := g.follow? d.enclosing?) (hash ^^^ hashName d.name)
          rw [chain_follow?] at hrest
          exact .later (by rw [hashPass, ha]) (hrest (Nat.lt_of_succ_lt_succ ended))

theorem ends_of_returns_hashPass {hashName : String → UInt64} {hash result : UInt64}
    (h : Returns (g.hashPass hashName) n (hash, a) result) : g.Ends a := by
  suffices (g.chain (n + 1) a).length < n + 1 from ⟨n + 1, this⟩
  generalize hs : (hash, a) = s at h
  induction h generalizing hash a with
  | now returns =>
      subst hs
      cases ha : a.bind g.type? with
      | none =>
          rw [chain_of_dead ha]
          exact Nat.zero_lt_one
      | some d =>
          rw [hashPass, ha] at returns
          cases returns
  | later goesOn _ ih =>
      subst hs
      cases ha : a.bind g.type? with
      | none =>
          rw [hashPass, ha] at goesOn
          cases goesOn
      | some d =>
          rw [hashPass, ha] at goesOn
          have hrest := ih (Sum.inl.inj goesOn)
          rw [chain_follow?] at hrest
          rw [chain_succ_of_alive ha, List.length_cons]
          exact Nat.succ_lt_succ hrest

/-- A walk that ends passes by all the names that a hash takes in. -/
theorem identityHash_of_ended (hashName : String → UInt64) (ended : (g.chain n a).length < n) :
    g.identityHash hashName a =
      (g.chain n a).foldl (fun hash d => hash ^^^ hashName d.name) 0 := by
  cases a with
  | none =>
      rw [chain_none]
      rfl
  | some t =>
      rw [identityHash, ancestry_eq, chain_size_of_ended ended]
      exact (List.reverse_perm _).foldl_eq 0

/-- The loop of a hash returns exactly if the chain ends, and then it returns the hash. -/
theorem returns_hashPass_iff {hashName : String → UInt64} {hash : UInt64} :
    (∃ n, Returns (g.hashPass hashName) n (0, a) hash) ↔
      g.Ends a ∧ g.identityHash hashName a = hash := by
  constructor
  · rintro ⟨n, h⟩
    obtain ⟨m, ended⟩ := ends_of_returns_hashPass h
    have hreturns := returns_hashPass hashName 0 ended
    rw [← identityHash_of_ended hashName ended] at hreturns
    exact ⟨⟨m, ended⟩, (hreturns.unique h).2⟩
  · rintro ⟨⟨n, ended⟩, rfl⟩
    rw [identityHash_of_ended hashName ended]
    exact ⟨_, returns_hashPass hashName 0 ended⟩

/-! ### Comparisons -/

theorem sameIdentity_of_dead (ha : a.bind g.type? = none) :
    g.sameIdentity a b = (b.bind g.type?).isNone := by
  rw [← sameIdentity_follow?, follow?_eq_none_iff.mpr ha, Bool.eq_iff_iff, sameIdentity_none_iff,
    follow?_follow?, follow?_eq_none_iff, Option.isNone_iff_eq_none]

/-- A pass of the comparison returns whether the two types are the same, or it goes on with their
enclosing types, which are then the same exactly if they are. It goes on only from two types. -/
theorem comparePass_cases (g : Graph) (a b : Option TypeId) :
    g.comparePass (a, b) = .inr (g.sameIdentity a b) ∨
      ∃ t u x y, a = some t ∧ b = some u ∧ t ≠ u ∧ g.type? t = some x ∧ g.type? u = some y ∧
        g.comparePass (a, b) = .inl (g.follow? x.enclosing?, g.follow? y.enclosing?) ∧
        g.sameIdentity a b =
          g.sameIdentity (g.follow? x.enclosing?) (g.follow? y.enclosing?) := by
  cases ha : a.bind g.type? with
  | none =>
      rw [sameIdentity_of_dead ha, comparePass, ha]
      cases b.bind g.type? with
      | none => exact .inl rfl
      | some y => exact .inl rfl
  | some x =>
      cases hb : b.bind g.type? with
      | none =>
          rw [sameIdentity_comm, sameIdentity_of_dead hb, comparePass, ha, hb]
          exact .inl rfl
      | some y =>
          by_cases hab : a = b
          · rw [comparePass, ha, hb, hab, sameIdentity_refl]
            exact .inl (if_pos rfl)
          obtain ⟨t, rfl, hx⟩ := Option.bind_eq_some_iff.mp ha
          obtain ⟨u, rfl, hy⟩ := Option.bind_eq_some_iff.mp hb
          have hsame := sameIdentity_some_iff hx hy
          rw [enclosing?_of_alive hx, enclosing?_of_alive hy, TypeDecl.agreesWith_iff] at hsame
          simp only [comparePass, ha, hb, if_neg hab]
          by_cases hshape : x.identityShape = y.identityShape
          · rw [if_neg (not_not.mpr hshape)]
            by_cases hnested : x.isNested = true
            · have henclosing : g.sameIdentity (some t) (some u) =
                  g.sameIdentity (g.follow? x.enclosing?) (g.follow? y.enclosing?) :=
                Bool.eq_iff_iff.mpr (hsame.trans
                  ⟨fun h => h.2 hnested, fun h => ⟨hshape, fun _ => h⟩⟩)
              exact .inr ⟨t, u, x, y, rfl, rfl, fun htu => hab (congrArg some htu), hx, hy,
                if_pos hnested, henclosing⟩
            · rw [if_neg hnested, hsame.mpr ⟨hshape, fun h => absurd h hnested⟩]
              exact .inl rfl
          · rw [if_pos hshape, Bool.eq_false_iff.mpr fun h => hshape (hsame.mp h).1]
            exact .inl rfl

/-- By induction on the length of a walk that comes to its end. Each pass that goes on has a
living type on either side. -/
theorem exists_returns_comparePass
    (ended : (g.chain n a).length < n ∨ (g.chain n b).length < n) :
    ∃ passes ≤ min (g.chain n a).length (g.chain n b).length,
      Returns g.comparePass passes (a, b) (g.sameIdentity a b) := by
  induction n generalizing a b with
  | zero => omega
  | succ n ih =>
      rcases g.comparePass_cases a b with hreturns | ⟨t, u, x, y, rfl, rfl, -, hx, hy, hon, hsame⟩
      · exact ⟨0, Nat.zero_le _, .now hreturns⟩
      · have hlink : (some t).bind g.type? = some x := hx
        have hlink' : (some u).bind g.type? = some y := hy
        rw [chain_succ_of_alive hlink, chain_succ_of_alive hlink', List.length_cons,
          List.length_cons] at ended ⊢
        have hrest := ih (a := g.follow? x.enclosing?) (b := g.follow? y.enclosing?)
        rw [chain_follow?, chain_follow?] at hrest
        obtain ⟨passes, hpasses, hreturns⟩ := hrest (by omega)
        rw [hsame]
        exact ⟨passes + 1, by omega, .later hon hreturns⟩

/-! ### Full names -/

/-- By induction on the length of a walk that comes to its end. The types that were visited
before it are given with the innermost one first. -/
theorem returns_namePass (inner : List TypeDecl) (outermost : TypeDecl)
    (ended : (g.chain n a).length < n) :
    Returns g.namePass (g.chain n a).length
      ((inner ++ [outermost]).map (·.name), outermost.namespaceName, a)
      (pathName (inner ++ outermost :: g.chain n a).reverse) := by
  induction n generalizing a inner outermost with
  | zero => omega
  | succ n ih =>
      cases ha : a.bind g.type? with
      | none =>
          have hname : pathName (inner ++ [outermost]).reverse =
              qualified outermost.namespaceName
                ("/".intercalate ((inner ++ [outermost]).map (·.name)).reverse) := by
            rw [← List.map_reverse, List.reverse_append]
            rfl
          rw [chain_of_dead ha, hname]
          exact .now (by rw [namePass, ha])
      | some d =>
          rw [chain_succ_of_alive ha, List.length_cons] at ended ⊢
          have hrest := ih (a := g.follow? d.enclosing?) (inner ++ [outermost]) d
          rw [chain_follow?, List.map_append, List.append_assoc] at hrest
          exact .later (by rw [namePass, ha]; rfl) (hrest (Nat.lt_of_succ_lt_succ ended))

/-- The loop of a full name starts from the type itself. -/
theorem returns_fullName (ht : g.type? t = some d)
    (ended : (g.chain n (g.enclosing? t)).length < n) :
    Returns g.namePass (g.chain n (g.enclosing? t)).length
      ([d.name], d.namespaceName, g.enclosing? t) (g.fullName t) := by
  have hlink : (some t).bind g.type? = some d := ht
  have hchain : g.chain (n + 1) (some t) = d :: g.chain n (g.enclosing? t) := by
    rw [chain_succ_of_alive hlink, enclosing?_of_alive ht, chain_follow?]
  have hended : (g.chain (n + 1) (some t)).length < n + 1 := by
    rw [hchain, List.length_cons]
    exact Nat.succ_lt_succ ended
  rw [fullName, ancestry_eq, chain_size_of_ended hended, hchain]
  exact returns_namePass [] d ended

end Graph

end AssemblyGraph
