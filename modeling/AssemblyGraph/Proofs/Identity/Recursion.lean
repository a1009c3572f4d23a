import AssemblyGraph.Proofs.Identity.Walk

/-!
Identity by recursion on the enclosing types.

`Graph.Compares` says what it is for two optional types to be the same by recursion,
and when the recursion comes to an answer. The walk in step, which stops early at one
and the same type, gives that answer wherever there is one. It does so for what the
types on the two chains add to their identity, and for nothing else that a graph holds.
-/

namespace AssemblyGraph

/-- Two declarations are both nested or both not, and have equal namespaces, names and
numbers of generic parameters. -/
structure TypeDecl.AgreesWith (x y : TypeDecl) : Prop where
  isNested : x.isNested = y.isNested
  namespaceName : x.namespaceName = y.namespaceName
  name : x.name = y.name
  genericParams : x.genericParams.length = y.genericParams.length

theorem TypeDecl.agreesWith_iff {x y : TypeDecl} :
    x.AgreesWith y ↔ x.identityShape = y.identityShape := by
  rw [identityShape, identityShape, IdentityShape.mk.injEq]
  constructor
  · intro h
    exact ⟨h.isNested, h.namespaceName, h.name, h.genericParams⟩
  · rintro ⟨hnested, hnamespace, hname, hparams⟩
    exact ⟨hnested, hnamespace, hname, hparams⟩

namespace Graph

/-- Two optional types compared by recursion, and the answer. Types that are gone count as
absent. Where types enclose each other in a circle there may be no answer. -/
inductive Compares (g : Graph) : Option TypeId → Option TypeId → Bool → Prop
  | absent : Compares g none none true
  | absentLeft (u : TypeId) : Compares g none (some u) false
  | absentRight (t : TypeId) : Compares g (some t) none false
  | unlike {t u : TypeId} {x y : TypeDecl} (ht : g.type? t = some x) (hu : g.type? u = some y)
      (unlike : ¬ x.AgreesWith y) : Compares g (some t) (some u) false
  | topLevel {t u : TypeId} {x y : TypeDecl} (ht : g.type? t = some x) (hu : g.type? u = some y)
      (agree : x.AgreesWith y) (top : x.isNested = false) : Compares g (some t) (some u) true
  | nested {t u : TypeId} {x y : TypeDecl} {answer : Bool} (ht : g.type? t = some x)
      (hu : g.type? u = some y) (agree : x.AgreesWith y) (nested : x.isNested = true)
      (enclosing : Compares g (g.enclosing? t) (g.enclosing? u) answer) :
      Compares g (some t) (some u) answer

variable {g : Graph} {a b : Option TypeId} {t u : TypeId} {x y : TypeDecl}

/-! ### Following links -/

theorem enclosing?_of_alive (ht : g.type? t = some x) :
    g.enclosing? t = g.follow? x.enclosing? := by
  rw [enclosing?, ht]
  rfl

@[simp] theorem follow?_follow? (g : Graph) (a : Option TypeId) :
    g.follow? (g.follow? a) = g.follow? a := by
  simp [follow?, Option.filter_filter]

/-- A walk that starts at a link goes to its target if that is alive, and is empty otherwise. -/
theorem chain_follow? (g : Graph) (n : Nat) (a : Option TypeId) :
    g.chain n (g.follow? a) = g.chain n a := by
  cases hfollow : g.follow? a with
  | none => rw [chain_of_dead rfl, chain_of_dead (follow?_eq_none_iff.mp hfollow)]
  | some t => rw [(follow?_eq_some_iff.mp hfollow).1]

theorem chainShapes_follow? (g : Graph) (n : Nat) (a : Option TypeId) :
    g.chainShapes n (g.follow? a) = g.chainShapes n a := by
  rw [chainShapes, chain_follow?, chainShapes]

theorem sameIdentity_follow? (g : Graph) (a b : Option TypeId) :
    g.sameIdentity (g.follow? a) (g.follow? b) = g.sameIdentity a b :=
  sameIdentity_eq_of_chainShapes (fun n => chainShapes_follow? g n a)
    fun n => chainShapes_follow? g n b

/-! ### The equations of the recursion -/

theorem sameIdentity_none_some (hu : g.type? u = some y) :
    g.sameIdentity none (some u) = false := by
  have hfollow : g.follow? (some u) = some u :=
    follow?_eq_some_iff.mpr ⟨rfl, isAlive_iff.mpr ⟨y, hu⟩⟩
  rw [← Bool.not_eq_true, sameIdentity_none_iff, hfollow]
  exact Option.some_ne_none u

/-- In every graph, also where types enclose each other in a circle, identity meets the
equation that defines it by recursion. -/
theorem sameIdentity_some_iff (ht : g.type? t = some x) (hu : g.type? u = some y) :
    g.sameIdentity (some t) (some u) = true ↔
      x.AgreesWith y ∧
        (x.isNested = true → g.sameIdentity (g.enclosing? t) (g.enclosing? u) = true) := by
  have hx : (some t).bind g.type? = some x := ht
  have hy : (some u).bind g.type? = some y := hu
  have hwalks : g.sameIdentity (some t) (some u) = true ↔
      x.AgreesWith y ∧ g.sameIdentity x.enclosing? y.enclosing? = true := by
    rw [sameIdentity_iff_forall, sameIdentity_iff_forall, TypeDecl.agreesWith_iff]
    constructor
    · intro h
      have hsplit := fun n => h (n + 1)
      simp only [chainShapes_succ_of_alive hx, chainShapes_succ_of_alive hy,
        List.cons.injEq] at hsplit
      exact ⟨(hsplit 0).1, fun n => (hsplit n).2⟩
    · rintro ⟨hshape, hrest⟩ n
      cases n with
      | zero => rfl
      | succ n => rw [chainShapes_succ_of_alive hx, chainShapes_succ_of_alive hy, hshape, hrest n]
  rw [hwalks, enclosing?_of_alive ht, enclosing?_of_alive hu, sameIdentity_follow?]
  refine and_congr_right fun agree => ⟨fun h _ => h, fun h => ?_⟩
  cases hnested : x.isNested with
  | true => exact h hnested
  | false =>
      -- types of the top level have no links to enclosing types
      have hnested' : y.isNested = false := agree.isNested.symm.trans hnested
      rw [TypeDecl.isNested, Option.isSome_eq_false_iff, Option.isNone_iff_eq_none]
        at hnested hnested'
      rw [hnested, hnested']
      exact g.sameIdentity_refl none

/-! ### Answers of the recursion -/

/-- By induction on the recursion. -/
theorem Compares.sameIdentity_eq {answer : Bool} (h : g.Compares a b answer)
    (ha : g.follow? a = a) (hb : g.follow? b = b) : g.sameIdentity a b = answer := by
  have halive : ∀ {t}, g.follow? (some t) = some t → ∃ d, g.type? t = some d :=
    fun h => isAlive_iff.mp (follow?_eq_some_iff.mp h).2
  induction h with
  | absent => exact g.sameIdentity_refl none
  | absentLeft u =>
      obtain ⟨y, hu⟩ := halive hb
      exact sameIdentity_none_some hu
  | absentRight t =>
      obtain ⟨x, ht⟩ := halive ha
      rw [sameIdentity_comm]
      exact sameIdentity_none_some ht
  | unlike ht hu unlike =>
      rw [← Bool.not_eq_true, sameIdentity_some_iff ht hu]
      exact fun h => unlike h.1
  | topLevel ht hu agree top =>
      refine (sameIdentity_some_iff ht hu).mpr ⟨agree, fun hnested => ?_⟩
      rw [top] at hnested
      cases hnested
  | nested ht hu agree nested _ ih =>
      have henclosing := ih (g.follow?_follow? _) (g.follow?_follow? _)
      rw [← henclosing, Bool.eq_iff_iff, sameIdentity_some_iff ht hu]
      exact ⟨fun h => h.2 nested, fun h => ⟨agree, fun _ => h⟩⟩

/-- By induction on the length of a walk that comes to its end. -/
theorem exists_compares {n : Nat}
    (h : (g.chain n a).length < n ∨ (g.chain n b).length < n) :
    ∃ answer, g.Compares (g.follow? a) (g.follow? b) answer := by
  induction n generalizing a b with
  | zero => omega
  | succ n ih =>
      cases hfa : g.follow? a with
      | none =>
          cases hfb : g.follow? b with
          | none => exact ⟨true, .absent⟩
          | some u => exact ⟨false, .absentLeft u⟩
      | some t =>
          cases hfb : g.follow? b with
          | none => exact ⟨false, .absentRight t⟩
          | some u =>
              obtain ⟨rfl, ht⟩ := follow?_eq_some_iff.mp hfa
              obtain ⟨rfl, hu⟩ := follow?_eq_some_iff.mp hfb
              obtain ⟨x, hx⟩ := isAlive_iff.mp ht
              obtain ⟨y, hy⟩ := isAlive_iff.mp hu
              by_cases agree : x.AgreesWith y
              · cases hnested : x.isNested with
                | false => exact ⟨true, .topLevel hx hy agree hnested⟩
                | true =>
                    have hx' : (some t).bind g.type? = some x := hx
                    have hy' : (some u).bind g.type? = some y := hy
                    rw [chain_succ_of_alive hx', chain_succ_of_alive hy', List.length_cons,
                      List.length_cons] at h
                    obtain ⟨answer, hcompares⟩ := ih (h.imp Nat.lt_of_succ_lt_succ
                      Nat.lt_of_succ_lt_succ)
                    rw [← enclosing?_of_alive hx, ← enclosing?_of_alive hy] at hcompares
                    exact ⟨answer, .nested hx hy agree hnested hcompares⟩
              · exact ⟨false, .unlike hx hy agree⟩

/-- In every graph, whatever has been released from it, two optional types are the same as
the recursion on their enclosing types has it, and the recursion has an answer if the
chain of one of the two ends. Identity meets the equation of the recursion also where
neither chain ends. It depends on the two chains of shapes only, in whatever graphs they
are found, and no nested type is the same as one that is not nested, even if its
enclosing type is gone. -/
theorem sameIdentity_recursive (g : Graph) :
    (∀ a b answer, g.Compares (g.follow? a) (g.follow? b) answer →
      g.sameIdentity a b = answer) ∧
    (∀ a b, g.Ends a ∨ g.Ends b → ∃ answer, g.Compares (g.follow? a) (g.follow? b) answer) ∧
    (∀ t u x y, g.type? t = some x → g.type? u = some y →
      (g.sameIdentity (some t) (some u) = true ↔ x.AgreesWith y ∧
        (x.isNested = true → g.sameIdentity (g.enclosing? t) (g.enclosing? u) = true))) ∧
    (∀ (g' : Graph) (a b a' b' : Option TypeId),
      (∀ n, g.chainShapes n a = g'.chainShapes n a') →
      (∀ n, g.chainShapes n b = g'.chainShapes n b') →
      g.sameIdentity a b = g'.sameIdentity a' b') ∧
    ∀ t u x y, g.type? t = some x → g.type? u = some y → x.isNested ≠ y.isNested →
      g.sameIdentity (some t) (some u) = false := by
  refine ⟨?_, ?_, ?_, ?_, ?_⟩
  · intro a b answer h
    rw [← sameIdentity_follow?]
    exact h.sameIdentity_eq (g.follow?_follow? a) (g.follow?_follow? b)
  · rintro a b (⟨n, hn⟩ | ⟨n, hn⟩)
    · exact exists_compares (.inl hn)
    · exact exists_compares (.inr hn)
  · intro t u x y ht hu
    exact sameIdentity_some_iff ht hu
  · intro g' a b a' b' ha hb
    exact sameIdentity_eq_of_chainShapes ha hb
  · intro t u x y ht hu hnested
    rw [← Bool.not_eq_true, sameIdentity_some_iff ht hu]
    exact fun h => hnested h.1.isNested

end Graph

end AssemblyGraph
