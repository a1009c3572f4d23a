import AssemblyGraph.Proofs.Identity.Loop
import AssemblyGraph.Proofs.Identity.Members
import AssemblyGraph.Proofs.Registry.Creation

/-!
Forests of enclosing types.

Where no type encloses itself through living types, the walk outwards from a type visits each
living type at most once. It comes to an end, and what goes along it returns after no more passes
than there are living types.

What is built on a forest is a forest. A type that is there keeps its enclosing type, and one that
is new is nested in a type with an earlier place. In particular a link to a type that is gone does
not lead to any type later, so a chain that has been cut stays cut.
-/

namespace AssemblyGraph.Graph

open Relation

/-- A type is nested in a living one. -/
def NestedIn (g : Graph) (t e : TypeId) : Prop :=
  g.enclosing? t = some e

/-- No type is nested in itself, directly or through others. -/
def IsForest (g : Graph) : Prop :=
  ∀ t, ¬ TransGen g.NestedIn t t

/-- The living types that a walk outwards from a link visits, in their order. At most `bound` are
visited. -/
def walk (g : Graph) : Nat → Option TypeId → List TypeId
  | 0, _ => []
  | bound + 1, link =>
      match g.follow? link with
      | none => []
      | some t => t :: walk g bound (g.enclosing? t)

/-- The living types of a graph. -/
def living (g : Graph) : List TypeId :=
  ((List.range g.types.size).map TypeId.mk).filter g.isAlive

variable {g g' g'' : Graph} {t u e : TypeId} {a b : Option TypeId} {d : TypeDecl} {n : Nat}

/-! ### Nested types -/

theorem nestedIn_iff :
    g.NestedIn t e ↔ ∃ d, g.type? t = some d ∧ d.enclosing? = some e ∧ g.isAlive e := by
  rw [NestedIn, enclosing?, follow?_eq_some_iff, Option.bind_eq_some_iff]
  constructor
  · rintro ⟨⟨d, hd, he⟩, halive⟩
    exact ⟨d, hd, he, halive⟩
  · rintro ⟨d, hd, he, halive⟩
    exact ⟨⟨d, hd, he⟩, halive⟩

theorem NestedIn.index_lt (h : g.NestedIn t e) : e.index < g.types.size := by
  obtain ⟨-, -, -, halive⟩ := nestedIn_iff.mp h
  exact index_lt_of_alive halive

theorem index_lt_of_transGen (h : TransGen g.NestedIn t u) : u.index < g.types.size := by
  obtain ⟨v, -, hlast⟩ := TransGen.tail'_iff.mp h
  exact hlast.index_lt

theorem onChain_of_reflTransGen (alive : g.isAlive t) (h : ReflTransGen g.NestedIn t u) :
    g.OnChain t u := by
  induction h with
  | refl => exact .self alive
  | tail _ hlast ih => exact .enclosing ih hlast

/-! ### Walks -/

theorem walk_of_dead (h : g.follow? a = none) (n : Nat) : g.walk n a = [] := by
  cases n with
  | zero => rfl
  | succ n => rw [walk, h]

theorem walk_succ_of_follow (h : g.follow? a = some t) (n : Nat) :
    g.walk (n + 1) a = t :: g.walk n (g.enclosing? t) := by
  rw [walk, h]

theorem follow?_of_alive (ht : g.type? t = some d) : g.follow? (some t) = some t :=
  follow?_eq_some_iff.mpr ⟨rfl, isAlive_iff.mpr ⟨d, ht⟩⟩

/-- A walk visits the types that the chain consists of. -/
theorem length_walk (g : Graph) (n : Nat) (a : Option TypeId) :
    (g.walk n a).length = (g.chain n a).length := by
  induction n generalizing a with
  | zero => rfl
  | succ n ih =>
      cases hfollow : g.follow? a with
      | none => rw [walk_of_dead hfollow, chain_of_dead (follow?_eq_none_iff.mp hfollow)]; rfl
      | some t =>
          obtain ⟨rfl, halive⟩ := follow?_eq_some_iff.mp hfollow
          obtain ⟨d, hd⟩ := isAlive_iff.mp halive
          have hlink : (some t).bind g.type? = some d := hd
          rw [walk_succ_of_follow hfollow, chain_succ_of_alive hlink, List.length_cons,
            List.length_cons, ih, enclosing?_of_alive hd, chain_follow?]

/-- By induction on the length of the walk. -/
theorem exists_of_mem_walk (h : u ∈ g.walk n a) :
    g.isAlive u ∧ ∃ t, g.follow? a = some t ∧ ReflTransGen g.NestedIn t u := by
  induction n generalizing a with
  | zero => cases h
  | succ n ih =>
      cases hfollow : g.follow? a with
      | none =>
          rw [walk_of_dead hfollow] at h
          cases h
      | some t =>
          rw [walk_succ_of_follow hfollow] at h
          rcases List.mem_cons.mp h with rfl | hrest
          · exact ⟨(follow?_eq_some_iff.mp hfollow).2, u, rfl, .refl⟩
          · obtain ⟨halive, e, he, hpath⟩ := ih hrest
            have henclosing : g.NestedIn t e := (g.follow?_follow? _).symm.trans he
            exact ⟨halive, t, rfl, .head henclosing hpath⟩

theorem isAlive_of_mem_walk (h : u ∈ g.walk n a) : g.isAlive u :=
  (exists_of_mem_walk h).1

/-! ### Living types -/

theorem mem_living_iff : t ∈ g.living ↔ g.isAlive t := by
  rw [living, List.mem_filter, List.mem_map]
  refine and_iff_right_of_imp fun halive => ?_
  exact ⟨t.index, List.mem_range.mpr (index_lt_of_alive halive), rfl⟩

theorem length_living (g : Graph) : g.living.length = g.aliveCount := by
  have hplaces : (List.range g.types.size).map (fun i => g.type? ⟨i⟩) = g.types.toList := by
    refine List.ext_getElem (by simp) fun i hi hi' => ?_
    have hsize : i < g.types.size := by simpa using hi
    simp [type?, Array.getElem?_eq_getElem hsize]
  rw [living, ← List.countP_eq_length_filter, List.countP_map, aliveCount, ← Array.countP_toList,
    ← hplaces, List.countP_map]
  rfl

theorem length_le_aliveCount {types : List TypeId} (nodup : types.Nodup)
    (alive : ∀ t ∈ types, g.isAlive t) : types.length ≤ g.aliveCount := by
  rw [← length_living]
  exact nodup.length_le_of_subset fun t ht => mem_living_iff.mpr (alive t ht)

/-- As many types as there are living ones are all of them. -/
theorem mem_of_aliveCount_le {types : List TypeId} (nodup : types.Nodup)
    (alive : ∀ t ∈ types, g.isAlive t) (full : g.aliveCount ≤ types.length)
    (ht : g.isAlive t) : t ∈ types := by
  by_contra hnot
  have hmore : (t :: types).length ≤ g.aliveCount :=
    length_le_aliveCount (List.nodup_cons.mpr ⟨hnot, nodup⟩)
      (List.forall_mem_cons.mpr ⟨ht, alive⟩)
  rw [List.length_cons] at hmore
  omega

/-! ### Walks in a forest -/

/-- By induction on the length of the walk. -/
theorem nodup_walk (forest : g.IsForest) (n : Nat) (a : Option TypeId) : (g.walk n a).Nodup := by
  induction n generalizing a with
  | zero => exact List.nodup_nil
  | succ n ih =>
      cases hfollow : g.follow? a with
      | none =>
          rw [walk_of_dead hfollow]
          exact List.nodup_nil
      | some t =>
          rw [walk_succ_of_follow hfollow, List.nodup_cons]
          refine ⟨fun hagain => ?_, ih _⟩
          obtain ⟨-, e, he, hpath⟩ := exists_of_mem_walk hagain
          have henclosing : g.NestedIn t e := (g.follow?_follow? _).symm.trans he
          exact forest t (.head' henclosing hpath)

theorem length_walk_le (forest : g.IsForest) (n : Nat) (a : Option TypeId) :
    (g.walk n a).length ≤ g.aliveCount :=
  length_le_aliveCount (nodup_walk forest n a) fun _ => isAlive_of_mem_walk

/-- A walk that may visit more types than there are comes to its end. -/
theorem length_chain_lt (forest : g.IsForest) (a : Option TypeId) :
    (g.chain (g.aliveCount + 1) a).length < g.aliveCount + 1 := by
  rw [← length_walk]
  exact Nat.lt_succ_of_le (length_walk_le forest _ a)

/-- Of two types at least one is not on the chain of the other. -/
theorem min_length_walk_lt (forest : g.IsForest) (ht : g.isAlive t) (hu : g.isAlive u)
    (ne : t ≠ u) (n : Nat) :
    min (g.walk n (some t)).length (g.walk n (some u)).length < g.aliveCount := by
  have hpath : ∀ {x y}, g.isAlive x → g.isAlive y → x ≠ y →
      g.aliveCount ≤ (g.walk n (some x)).length → TransGen g.NestedIn x y := by
    intro x y hx hy hne hfull
    have hmem : y ∈ g.walk n (some x) :=
      mem_of_aliveCount_le (nodup_walk forest n _) (fun _ => isAlive_of_mem_walk) hfull hy
    obtain ⟨-, z, hz, hpath⟩ := exists_of_mem_walk hmem
    obtain ⟨⟨⟩, -⟩ := follow?_eq_some_iff.mp hz
    exact (reflTransGen_iff_eq_or_transGen.mp hpath).resolve_left hne.symm
  by_contra hnot
  have htu := hpath ht hu ne (by omega)
  have hut := hpath hu ht ne.symm (by omega)
  exact forest t (htu.trans hut)

/-! ### Loops in a forest -/

theorem exists_returns_hashPass (forest : g.IsForest) (hashName : String → UInt64)
    (a : Option TypeId) :
    ∃ passes ≤ g.aliveCount,
      Returns (g.hashPass hashName) passes (0, a) (g.identityHash hashName a) := by
  have hended := length_chain_lt forest a
  rw [identityHash_of_ended hashName hended]
  exact ⟨_, Nat.le_of_lt_succ hended, returns_hashPass hashName 0 hended⟩

/-- A comparison only goes on from two types that are not one, and then one of the chains leaves
a living type out. -/
theorem exists_returns_comparePass_of_forest (forest : g.IsForest) (a b : Option TypeId) :
    ∃ passes ≤ g.aliveCount - 1, Returns g.comparePass passes (a, b) (g.sameIdentity a b) := by
  rcases g.comparePass_cases a b with hreturns | ⟨t, u, x, y, rfl, rfl, hne, hx, hy, -⟩
  · exact ⟨0, Nat.zero_le _, .now hreturns⟩
  · have hshort := min_length_walk_lt forest (isAlive_iff.mpr ⟨x, hx⟩) (isAlive_iff.mpr ⟨y, hy⟩)
      hne (g.aliveCount + 1)
    rw [length_walk, length_walk] at hshort
    obtain ⟨passes, hle, hreturns⟩ :=
      exists_returns_comparePass (b := some u) (.inl (length_chain_lt forest (some t)))
    exact ⟨passes, by omega, hreturns⟩

theorem exists_returns_namePass (forest : g.IsForest) (ht : g.type? t = some d) :
    ∃ passes ≤ g.aliveCount - 1,
      Returns g.namePass passes ([d.name], d.namespaceName, g.enclosing? t) (g.fullName t) := by
  have hended := length_chain_lt forest (g.enclosing? t)
  have hwalk := length_walk_le forest (g.aliveCount + 1 + 1) (some t)
  rw [walk_succ_of_follow (follow?_of_alive ht), List.length_cons, length_walk] at hwalk
  exact ⟨_, Nat.le_sub_one_of_lt hwalk, returns_fullName ht hended⟩

/-! ### Graphs that are built on a forest -/

/-- Every type of the later graph was there before, nested as it is now, or it is new and is nested
in a type that has an earlier place. -/
structure KeepsNesting (g g' : Graph) : Prop where
  size : g.types.size ≤ g'.types.size
  type : ∀ t d', g'.type? t = some d' →
    (∃ d, g.type? t = some d ∧ d'.enclosing? = d.enclosing?) ∨
    (g.types.size ≤ t.index ∧ ∀ e, d'.enclosing? = some e → e.index < t.index)

theorem BuildsOn.keepsNesting (h : g.BuildsOn g') : g.KeepsNesting g' where
  size := h.size
  type t d' hd' := by
    rcases h.type t d' hd' with ⟨d, hd, henclosing, -⟩ | ⟨hnew, -, hlink⟩
    · exact .inl ⟨d, hd, henclosing⟩
    · exact .inr ⟨hnew, hlink⟩

theorem KeepsNesting.trans (h : g.KeepsNesting g') (h' : g'.KeepsNesting g'') :
    g.KeepsNesting g'' where
  size := Nat.le_trans h.size h'.size
  type t d'' hd'' := by
    rcases h'.type t d'' hd'' with ⟨d', hd', henclosing'⟩ | ⟨hnew, hlink⟩
    · rcases h.type t d' hd' with ⟨d, hd, henclosing⟩ | ⟨hnew, hlink⟩
      · exact .inl ⟨d, hd, henclosing'.trans henclosing⟩
      · exact .inr ⟨hnew, fun e he => hlink e (henclosing' ▸ he)⟩
    · exact .inr ⟨Nat.le_trans h.size hnew, hlink⟩

theorem keepsNesting_attach (g : Graph) (t : TypeId) (record : AttributeRecord) :
    g.KeepsNesting (g.attach t record) where
  size := Nat.le_of_eq (g.size_modifyType t _).symm
  type u d' hd' := by
    rw [attach, type?_modifyType] at hd'
    split at hd'
    · obtain ⟨d, hd, rfl⟩ := Option.map_eq_some_iff.mp hd'
      exact .inl ⟨d, hd, rfl⟩
    · exact .inl ⟨d', hd', rfl⟩

theorem keepsNesting_flatFrame : FlatFrame KeepsNesting where
  of_types h := (BuildsOn.of_eq h).keepsNesting
  trans := .trans
  addType g _ blank top := (g.buildsOn_addType blank.bare (by simp [top])).keepsNesting
  pushMethod g t m := (g.buildsOn_pushMethod t m).keepsNesting
  retain g owned := (g.buildsOn_retain owned).keepsNesting

/-- No type that was gone has come back, so a type is nested in one that it was nested in before,
or it is new. -/
theorem KeepsNesting.nestedIn_cases (h : g.KeepsNesting g') (grounded : g.Grounded)
    (nested : g'.NestedIn t e) :
    g.NestedIn t e ∨ (g.types.size ≤ t.index ∧ e.index < t.index) := by
  obtain ⟨d', hd', he, halive⟩ := nestedIn_iff.mp nested
  rcases h.type t d' hd' with ⟨d, hd, henclosing⟩ | ⟨hnew, hlink⟩
  · have he' : d.enclosing? = some e := henclosing.symm.trans he
    obtain ⟨x', hx'⟩ := isAlive_iff.mp halive
    rcases h.type e x' hx' with ⟨x, hx, -⟩ | ⟨hnew, -⟩
    · exact .inl (nestedIn_iff.mpr ⟨d, hd, he', isAlive_iff.mpr ⟨x, hx⟩⟩)
    · exact absurd (grounded t d e hd he') (Nat.not_lt.mpr hnew)
  · exact .inr ⟨hnew, hlink e he⟩

/-- A way outwards leads on from a type that was there as it did before, and from a new one to
types with earlier places. -/
theorem KeepsNesting.path_cases (h : g.KeepsNesting g') (grounded : g.Grounded)
    (path : TransGen g'.NestedIn t u) :
    TransGen g.NestedIn t u ∨ (g.types.size ≤ t.index ∧ u.index < t.index) := by
  induction path with
  | single hfirst => exact (h.nestedIn_cases grounded hfirst).imp_left .single
  | tail _ hlast ih =>
      rcases h.nestedIn_cases grounded hlast with hold | ⟨hnew, hlt⟩
      · rcases ih with hpath | ⟨hnew, -⟩
        · exact .inl (hpath.tail hold)
        · exact .inr ⟨hnew, Nat.lt_of_lt_of_le hold.index_lt hnew⟩
      · rcases ih with hpath | ⟨hnew', hlt'⟩
        · exact absurd (index_lt_of_transGen hpath) (Nat.not_lt.mpr hnew)
        · exact .inr ⟨hnew', Nat.lt_trans hlt hlt'⟩

theorem KeepsNesting.isForest (h : g.KeepsNesting g') (grounded : g.Grounded)
    (forest : g.IsForest) : g'.IsForest := by
  intro t hcycle
  rcases h.path_cases grounded hcycle with hold | ⟨-, hlt⟩
  · exact forest t hold
  · exact Nat.lt_irrefl _ hlt

end AssemblyGraph.Graph
