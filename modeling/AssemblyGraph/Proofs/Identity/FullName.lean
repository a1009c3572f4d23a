import AssemblyGraph.Proofs.Graph.PathName
import AssemblyGraph.Proofs.Identity.Recursion

/-!
Full names and identity.

Both are read off the chain of a type: identity compares what each of its types adds,
and the full name takes in the simple names and the outermost namespace. So types that
are the same have one full name. For the way back the full name has to be legible: the
chain has to reach the top level, and the separators may not occur where they would be
mistaken for one another. Then types with one full name differ at most in their numbers
of generic parameters.
-/

namespace AssemblyGraph.Graph

variable {g : Graph} {t u e : TypeId} {d : TypeDecl}

/-! ### Chains read from the outside -/

/-- The chain of a type is alive up to a type of the top level. -/
inductive Whole (g : Graph) : TypeId → Prop
  | topLevel {t : TypeId} {d : TypeDecl} (ht : g.type? t = some d) (top : d.enclosing? = none) :
      Whole g t
  | nested {t e : TypeId} {d : TypeDecl} (ht : g.type? t = some d) (link : d.enclosing? = some e)
      (outer : Whole g e) : Whole g t

theorem Whole.exists_chain (h : g.Whole t) :
    ∃ n outermost, (g.chain n (some t)).length < n ∧
      (g.chain n (some t)).getLast? = some outermost ∧ outermost.enclosing? = none := by
  induction h with
  | @topLevel t d ht top =>
      have hlink : (some t).bind g.type? = some d := ht
      refine ⟨2, d, ?_, ?_, top⟩ <;> rw [chain_succ_of_alive hlink, top, chain_none]
      · exact Nat.lt_succ_self 1
      · rfl
  | @nested t e d ht link _ ih =>
      have hlink : (some t).bind g.type? = some d := ht
      obtain ⟨n, outermost, hended, hlast, htop⟩ := ih
      refine ⟨n + 1, outermost, ?_, ?_, htop⟩ <;> rw [chain_succ_of_alive hlink, link]
      · exact Nat.succ_lt_succ hended
      · rw [List.getLast?_cons, hlast]
        rfl

theorem Whole.ends (h : g.Whole t) : g.Ends (some t) := by
  obtain ⟨n, -, hended, -, -⟩ := h.exists_chain
  exact ⟨n, hended⟩

theorem Whole.exists_ancestry (h : g.Whole t) :
    ∃ outermost inner, g.ancestry t = outermost :: inner ∧ outermost.enclosing? = none := by
  obtain ⟨n, outermost, hended, hlast, htop⟩ := h.exists_chain
  have hhead : (g.ancestry t).head? = some outermost := by
    rw [ancestry_eq, chain_size_of_ended hended, List.head?_reverse, hlast]
  obtain ⟨inner, hinner⟩ := List.head?_eq_some_iff.mp hhead
  exact ⟨outermost, inner, hinner, htop⟩

theorem whole_of_getLast? {n : Nat} (hlast : (g.chain n (some t)).getLast? = some d)
    (top : d.enclosing? = none) : g.Whole t := by
  induction n generalizing t with
  | zero => cases hlast
  | succ n ih =>
      cases ht : g.type? t with
      | none =>
          have hlink : (some t).bind g.type? = none := ht
          rw [chain_of_dead hlink] at hlast
          cases hlast
      | some x =>
          have hlink : (some t).bind g.type? = some x := ht
          rw [chain_succ_of_alive hlink] at hlast
          cases hnext : x.enclosing? with
          | none => exact .topLevel ht hnext
          | some e =>
              rw [hnext, List.getLast?_cons] at hlast
              refine .nested ht hnext (ih ?_)
              cases hinner : (g.chain n (some e)).getLast? with
              | some y =>
                  rw [hinner] at hlast
                  exact hlast
              | none =>
                  -- the walk would stop at a type that has a link outwards
                  rw [hinner, Option.getD_none] at hlast
                  cases hlast
                  rw [hnext] at top
                  cases top

/-- A chain is whole exactly if its outermost living type belongs to the top level. -/
theorem whole_iff :
    g.Whole t ↔ (g.ancestry t).head?.map (·.enclosing?.isNone) = some true := by
  constructor
  · intro h
    obtain ⟨outermost, inner, hancestry, htop⟩ := h.exists_ancestry
    rw [hancestry, List.head?_cons, Option.map_some, htop, Option.isNone_none]
  · intro h
    obtain ⟨outermost, hhead, htop⟩ := Option.map_eq_some_iff.mp h
    rw [ancestry_eq, List.head?_reverse] at hhead
    exact whole_of_getLast? hhead (Option.isNone_iff_eq_none.mp htop)

instance (g : Graph) (t : TypeId) : Decidable (g.Whole t) :=
  decidable_of_iff _ whole_iff.symm

/-- All but the last type that a walk visits are nested. -/
theorem isNested_of_mem_dropLast_chain {n : Nat} {link : Option TypeId}
    (h : d ∈ (g.chain n link).dropLast) : d.isNested = true := by
  induction n generalizing link with
  | zero => cases h
  | succ n ih =>
      cases hlink : link.bind g.type? with
      | none =>
          rw [chain_of_dead hlink] at h
          cases h
      | some x =>
          rw [chain_succ_of_alive hlink] at h
          cases hrest : g.chain n x.enclosing? with
          | nil =>
              rw [hrest] at h
              cases h
          | cons y rest =>
              rw [List.dropLast_cons_of_ne_nil (hrest ▸ List.cons_ne_nil y rest)] at h
              rcases List.mem_cons.mp h with rfl | h
              · cases hnext : d.enclosing? with
                | none =>
                    rw [hnext, chain_none] at hrest
                    cases hrest
                | some e => rw [TypeDecl.isNested, hnext, Option.isSome_some]
              · exact ih h

theorem isNested_of_mem_tail (h : d ∈ (g.ancestry t).tail) : d.isNested = true := by
  rw [ancestry_eq, List.tail_reverse, List.mem_reverse] at h
  exact isNested_of_mem_dropLast_chain h

/-- A living type is the last one on its chain. -/
theorem exists_ancestry_concat (ht : g.type? t = some d) :
    ∃ outer, g.ancestry t = outer ++ [d] := by
  have hlink : (some t).bind g.type? = some d := ht
  have hlt : t.index < g.types.size := by
    obtain ⟨hlt, -⟩ := Array.getElem?_eq_some_iff.mp (Option.join_eq_some_iff.mp ht)
    exact hlt
  obtain ⟨n, hn⟩ := Nat.exists_eq_succ_of_ne_zero (Nat.ne_zero_of_lt hlt)
  refine ⟨(g.chain n d.enclosing?).reverse, ?_⟩
  rw [ancestry_eq, hn, Nat.succ_eq_add_one, chain_succ_of_alive hlink, List.reverse_cons]

/-- A type stands at the end of the chain of its enclosing type. -/
theorem ancestry_concat (ends : g.Ends (some t)) (ht : g.type? t = some d)
    (henclosing : g.enclosing? t = some e) : g.ancestry t = g.ancestry e ++ [d] := by
  obtain ⟨n, hended⟩ := ends
  obtain ⟨n, rfl⟩ := Nat.exists_eq_succ_of_ne_zero (Nat.ne_zero_of_lt hended)
  have hlink : (some t).bind g.type? = some d := ht
  rw [enclosing?_of_alive ht] at henclosing
  have hchain : g.chain (n + 1) (some t) = d :: g.chain n (some e) := by
    rw [chain_succ_of_alive hlink, (follow?_eq_some_iff.mp henclosing).1]
  have houter : (g.chain n (some e)).length < n := by
    rw [Nat.succ_eq_add_one, hchain, List.length_cons] at hended
    exact Nat.lt_of_succ_lt_succ hended
  rw [ancestry_eq, ancestry_eq, chain_size_of_ended hended, chain_size_of_ended houter,
    Nat.succ_eq_add_one, hchain, List.reverse_cons]

/-- Types are the same exactly when their chains have equal shapes. -/
theorem sameIdentity_iff_ancestry :
    g.sameIdentity (some t) (some u) = true ↔
      (g.ancestry t).map TypeDecl.identityShape = (g.ancestry u).map TypeDecl.identityShape := by
  rw [ancestry_eq, ancestry_eq, List.map_reverse, List.map_reverse, List.reverse_inj,
    sameIdentity_iff_forall]
  exact ⟨fun h => h g.types.size, chainShapes_eq_of_size⟩

/-! ### Reading a full name -/

/-- The full name of a type can be read in one way. -/
@[mk_iff] structure Legible (g : Graph) (t : TypeId) : Prop where
  whole : g.Whole t
  names : ∀ d ∈ g.ancestry t, '/' ∉ d.name.toList
  outermost : ∀ d ∈ (g.ancestry t).head?,
    '.' ∉ d.name.toList ∧ '/' ∉ d.namespaceName.toList
  inner : ∀ d ∈ (g.ancestry t).tail, d.namespaceName = ""

instance (g : Graph) (t : TypeId) : Decidable (g.Legible t) :=
  decidable_of_iff _ (g.legible_iff t).symm

/-- The numbers of generic parameters agree wherever both chains have a type, counted from
the outermost one. -/
def SameArities (xs ys : List TypeDecl) : Prop :=
  ∀ level ∈ xs.zip ys, level.1.arity = level.2.arity

instance (xs ys : List TypeDecl) : Decidable (SameArities xs ys) :=
  inferInstanceAs (Decidable (∀ level ∈ xs.zip ys, level.1.arity = level.2.arity))

theorem Legible.slash_not_mem_segments (h : g.Legible t) :
    ∀ s ∈ segments (g.ancestry t), '/' ∉ s.toList := by
  obtain ⟨outermost, inner, hancestry, -⟩ := h.whole.exists_ancestry
  have hnames := h.names
  have houtermost := h.outermost
  rw [hancestry] at hnames houtermost ⊢
  intro s hs
  rcases List.mem_cons.mp hs with rfl | hs
  · exact not_mem_qualified (by decide) (houtermost outermost rfl).2
      (hnames outermost (List.mem_cons_self ..))
  · obtain ⟨x, hx, rfl⟩ := List.mem_map.mp hs
    exact hnames x (List.mem_cons_of_mem outermost hx)

/-- Of a nested type on a legible chain, identity takes in the simple name and the number
of generic parameters. -/
def ShownByName (d : TypeDecl) : Prop :=
  d.identityShape = ⟨true, "", d.name, d.arity⟩

theorem Legible.shownByName (h : g.Legible t) : ∀ d ∈ (g.ancestry t).tail, ShownByName d := by
  intro d hd
  rw [ShownByName, TypeDecl.identityShape, isNested_of_mem_tail hd, h.inner d hd]

theorem map_identityShape_of_names {xs ys : List TypeDecl} (hxs : ∀ d ∈ xs, ShownByName d)
    (hys : ∀ d ∈ ys, ShownByName d) (names : xs.map (·.name) = ys.map (·.name))
    (arities : SameArities xs ys) :
    xs.map TypeDecl.identityShape = ys.map TypeDecl.identityShape := by
  induction xs generalizing ys with
  | nil => rw [List.map_eq_nil_iff.mp names.symm]
  | cons x xs ih =>
      cases ys with
      | nil => cases names
      | cons y ys =>
          obtain ⟨hx, hxs⟩ := List.forall_mem_cons.mp hxs
          obtain ⟨hy, hys⟩ := List.forall_mem_cons.mp hys
          obtain ⟨hname, hnames⟩ : x.name = y.name ∧ xs.map (·.name) = ys.map (·.name) :=
            List.cons.inj names
          obtain ⟨harity, harities⟩ : x.arity = y.arity ∧ SameArities xs ys :=
            List.forall_mem_cons.mp arities
          have hshape : x.identityShape = y.identityShape := by
            rw [hx, hy, hname, harity]
          rw [List.map_cons, List.map_cons, hshape, ih hxs hys hnames harities]

/-- Equal full names that are legible come from chains with equal names, level by level. -/
theorem sameIdentity_of_fullName (ht : g.Legible t) (hu : g.Legible u)
    (arities : SameArities (g.ancestry t) (g.ancestry u)) (h : g.fullName t = g.fullName u) :
    g.sameIdentity (some t) (some u) = true := by
  obtain ⟨x, xs, hx, htopX⟩ := ht.whole.exists_ancestry
  obtain ⟨y, ys, hy, htopY⟩ := hu.whole.exists_ancestry
  have hslash := ht.slash_not_mem_segments
  have hslash' := hu.slash_not_mem_segments
  have hdot := (ht.outermost x (by rw [hx]; rfl)).1
  have hdot' := (hu.outermost y (by rw [hy]; rfl)).1
  have hinner : ∀ d ∈ xs, ShownByName d := by simpa only [hx, List.tail_cons] using ht.shownByName
  have hinner' : ∀ d ∈ ys, ShownByName d := by simpa only [hy, List.tail_cons] using hu.shownByName
  rw [fullName, fullName, pathName_eq, pathName_eq] at h
  rw [sameIdentity_iff_ancestry]
  rw [hx] at h arities hslash ⊢
  rw [hy] at h arities hslash' ⊢
  obtain ⟨hqualified, hnames⟩ := List.cons.inj
    (intercalate_slash_inj hslash hslash' (List.cons_ne_nil _ _) (List.cons_ne_nil _ _) h)
  obtain ⟨hnamespace, hname⟩ := qualified_inj hdot hdot' hqualified
  obtain ⟨harity, harities⟩ : x.arity = y.arity ∧ SameArities xs ys :=
    List.forall_mem_cons.mp arities
  have houtermost : x.identityShape = y.identityShape := by
    rw [TypeDecl.identityShape, TypeDecl.identityShape, TypeDecl.isNested, TypeDecl.isNested,
      htopX, htopY, hnamespace, hname, harity]
  rw [List.map_cons, List.map_cons, houtermost,
    map_identityShape_of_names hinner hinner' hnames harities]

/-- In every graph, whatever has been released from it: types that are the same have one
full name; the full name of a nested type, if there is an end to its chain, is that of its
living enclosing type with a slash and the simple name behind it; and types with one
full name that is legible are the same unless their numbers of generic parameters differ
somewhere on their chains. -/
theorem fullName_identity (g : Graph) :
    (∀ t u, g.sameIdentity (some t) (some u) = true → g.fullName t = g.fullName u) ∧
    (∀ t e d, g.Ends (some t) → g.type? t = some d → g.enclosing? t = some e →
      g.fullName t = g.fullName e ++ "/" ++ d.name) ∧
    ∀ t u, g.Legible t → g.Legible u → SameArities (g.ancestry t) (g.ancestry u) →
      g.fullName t = g.fullName u → g.sameIdentity (some t) (some u) = true := by
  refine ⟨?_, ?_, ?_⟩
  · intro t u h
    have hnames := congrArg (List.map fun shape => (shape.name, shape.namespaceName))
      (sameIdentity_iff_ancestry.mp h)
    rw [List.map_map, List.map_map] at hnames
    exact pathName_congr hnames
  · intro t e d ends ht henclosing
    obtain ⟨x, he⟩ := isAlive_iff.mp (follow?_eq_some_iff.mp henclosing).2
    obtain ⟨outer, houter⟩ := exists_ancestry_concat he
    have hne : g.ancestry e ≠ [] := by
      rw [houter]
      exact List.concat_ne_nil _ _
    rw [fullName, ancestry_concat ends ht henclosing, pathName_concat hne, fullName]
  · intro t u ht hu arities h
    exact sameIdentity_of_fullName ht hu arities h

/-- A type `N.M.Outer` with a nested type `Inner`, read from two modules. -/
def readTwice : Graph where
  types := #[
    some { token := ⟨0x02000001⟩, namespaceName := "N.M", name := "Outer", flags := 0,
           origin := .module "Lib.dll" },
    some { token := ⟨0x02000002⟩, namespaceName := "", name := "Inner", flags := 2,
           origin := .module "Lib.dll", enclosing? := some ⟨0⟩ },
    some { token := ⟨0x02000005⟩, namespaceName := "N.M", name := "Outer", flags := 1,
           origin := .module "Ref.dll" },
    some { token := ⟨0x02000004⟩, namespaceName := "", name := "Inner", flags := 0,
           origin := .module "Ref.dll", enclosing? := some ⟨2⟩ }]
  methods := #[]

/-- The two readings are found to be the same by the full name of the nested type. -/
theorem fullName_of_readTwice :
    readTwice.fullName ⟨1⟩ = "N.M.Outer/Inner" ∧
    readTwice.fullName ⟨1⟩ = readTwice.fullName ⟨0⟩ ++ "/" ++ "Inner" ∧
    readTwice.sameIdentity (some ⟨1⟩) (some ⟨3⟩) = true ∧
    readTwice.fullName ⟨0⟩ = readTwice.fullName ⟨2⟩ := by
  obtain ⟨hsame, hnested, hlegible⟩ := fullName_identity readTwice
  refine ⟨by decide +kernel, ?_, ?_, ?_⟩
  · exact hnested ⟨1⟩ ⟨0⟩ _ ⟨3, by decide +kernel⟩ rfl (by decide +kernel)
  · exact hlegible ⟨1⟩ ⟨3⟩ (by decide +kernel) (by decide +kernel) (by decide +kernel)
      (by decide +kernel)
  · exact hsame ⟨0⟩ ⟨2⟩ (by decide +kernel)

end AssemblyGraph.Graph
