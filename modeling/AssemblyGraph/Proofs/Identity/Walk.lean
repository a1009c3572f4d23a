import AssemblyGraph.Proofs.Identity.Chain
import Mathlib.Data.Finset.Card

/-!
Walks of every length.

Two links are compared by walks that are bounded by the number of types. That is
enough, also where types enclose each other in a circle and a walk has no end: walks
of growing length tell more and more links apart, and there are not more classes of
links than links. So a length at which no new links are told apart is reached within
the bound, and from there on longer walks tell nothing new. For the same reason a walk
that ends does so within the bound.
-/

namespace AssemblyGraph.Graph

variable {g : Graph} {a b : Option TypeId}

/-- The walk outwards from a link comes to an end. -/
def Ends (g : Graph) (link : Option TypeId) : Prop :=
  ∃ n, (g.chain n link).length < n

/-! ### Shapes along a walk -/

theorem chainShapes_of_dead (h : a.bind g.type? = none) (n : Nat) : g.chainShapes n a = [] := by
  rw [chainShapes, chain_of_dead h, List.map_nil]

theorem chainShapes_succ_of_alive {d : TypeDecl} (h : a.bind g.type? = some d) (n : Nat) :
    g.chainShapes (n + 1) a = d.identityShape :: g.chainShapes n d.enclosing? := by
  rw [chainShapes, chain_succ_of_alive h, List.map_cons, chainShapes]

/-- One more step compares what stands first and the walks from there. -/
theorem chainShapes_succ_eq_iff {n : Nat} :
    g.chainShapes (n + 1) a = g.chainShapes (n + 1) b ↔
      (a.bind g.type? = none ∧ b.bind g.type? = none) ∨
      ∃ x y, a.bind g.type? = some x ∧ b.bind g.type? = some y ∧
        x.identityShape = y.identityShape ∧
        g.chainShapes n x.enclosing? = g.chainShapes n y.enclosing? := by
  cases ha : a.bind g.type? with
  | none =>
      cases hb : b.bind g.type? with
      | none => simp [chainShapes_of_dead ha, chainShapes_of_dead hb]
      | some y => simp [chainShapes_of_dead ha, chainShapes_succ_of_alive hb]
  | some x =>
      cases hb : b.bind g.type? with
      | none => simp [chainShapes_succ_of_alive ha, chainShapes_of_dead hb]
      | some y => simp [chainShapes_succ_of_alive ha, chainShapes_succ_of_alive hb]

/-- Walks that are alike are alike when they are cut. -/
theorem chainShapes_eq_of_le {m n : Nat} (hle : m ≤ n)
    (h : g.chainShapes n a = g.chainShapes n b) : g.chainShapes m a = g.chainShapes m b := by
  obtain ⟨k, rfl⟩ := Nat.exists_eq_add_of_le hle
  rw [← take_chainShapes g m k a, ← take_chainShapes g m k b, h]

/-! ### A length that tells no new links apart -/

/-- Walks that are one step longer tell no more links apart. -/
def TellsNoMore (g : Graph) (n : Nat) : Prop :=
  ∀ a b, g.chainShapes n a = g.chainShapes n b → g.chainShapes (n + 1) a = g.chainShapes (n + 1) b

theorem TellsNoMore.succ {n : Nat} (h : g.TellsNoMore n) : g.TellsNoMore (n + 1) := by
  intro a b hab
  rcases chainShapes_succ_eq_iff.mp hab with hdead | ⟨x, y, hx, hy, hshape, hrest⟩
  · exact chainShapes_succ_eq_iff.mpr (.inl hdead)
  · exact chainShapes_succ_eq_iff.mpr (.inr ⟨x, y, hx, hy, hshape, h _ _ hrest⟩)

theorem TellsNoMore.add {n : Nat} (h : g.TellsNoMore n) (k : Nat) : g.TellsNoMore (n + k) := by
  induction k with
  | zero => exact h
  | succ k ih => exact ih.succ

theorem TellsNoMore.eq_add {n : Nat} (h : g.TellsNoMore n)
    (hab : g.chainShapes n a = g.chainShapes n b) (k : Nat) :
    g.chainShapes (n + k) a = g.chainShapes (n + k) b := by
  induction k with
  | zero => exact hab
  | succ k ih => exact h.add k a b ih

/-- The links that a walk can start from: none, and one for each place of the graph. -/
def places (g : Graph) : Finset (Option TypeId) :=
  insert none ((Finset.range g.types.size).image fun i => some ⟨i⟩)

theorem card_places_le (g : Graph) : g.places.card ≤ g.types.size + 1 := by
  calc
    g.places.card
        ≤ ((Finset.range g.types.size).image fun i => some (TypeId.mk i)).card + 1 :=
      Finset.card_insert_le _ _
    _ ≤ (Finset.range g.types.size).card + 1 := Nat.add_le_add_right Finset.card_image_le 1
    _ = g.types.size + 1 := by rw [Finset.card_range]

/-- A link that leads out of the graph is like no link. -/
theorem exists_place (g : Graph) (a : Option TypeId) :
    ∃ p ∈ g.places, ∀ n, g.chainShapes n a = g.chainShapes n p := by
  cases h : a.bind g.type? with
  | none =>
      refine ⟨none, Finset.mem_insert_self _ _, fun n => ?_⟩
      rw [chainShapes_of_dead h, chainShapes_of_dead rfl]
  | some d =>
      obtain ⟨t, rfl, hd⟩ := Option.bind_eq_some_iff.mp h
      have hlt : t.index < g.types.size := by
        obtain ⟨hlt, -⟩ := Array.getElem?_eq_some_iff.mp (Option.join_eq_some_iff.mp hd)
        exact hlt
      exact ⟨some t, Finset.mem_insert_of_mem (Finset.mem_image.mpr
        ⟨t.index, Finset.mem_range.mpr hlt, rfl⟩), fun n => rfl⟩

/-- The classes of links that walks of a length tell apart. -/
def walkClasses (g : Graph) (n : Nat) : Finset (List IdentityShape) :=
  g.places.image (g.chainShapes n)

theorem card_walkClasses_le (g : Graph) (n : Nat) :
    (g.walkClasses n).card ≤ g.types.size + 1 :=
  Finset.card_image_le.trans g.card_places_le

/-- A length after which new links are told apart has fewer classes than the next one. -/
theorem card_walkClasses_lt {n : Nat} (h : ¬ g.TellsNoMore n) :
    (g.walkClasses n).card < (g.walkClasses (n + 1)).card := by
  have himage : g.walkClasses n = (g.walkClasses (n + 1)).image (List.take n) := by
    rw [walkClasses, walkClasses, Finset.image_image]
    exact Finset.image_congr fun a _ => (take_chainShapes g n 1 a).symm
  refine Nat.lt_of_le_of_ne (himage ▸ Finset.card_image_le) fun hcard => h fun a b hab => ?_
  -- as many classes as before: each of the longer walks is known by its beginning
  have hinjective := Finset.card_image_iff.mp (himage ▸ hcard)
  obtain ⟨p, hp, ha⟩ := g.exists_place a
  obtain ⟨q, hq, hb⟩ := g.exists_place b
  rw [ha, hb] at hab ⊢
  refine hinjective (Finset.mem_image_of_mem _ hp) (Finset.mem_image_of_mem _ hq) ?_
  show (g.chainShapes (n + 1) p).take n = (g.chainShapes (n + 1) q).take n
  rw [take_chainShapes, take_chainShapes, hab]

/-- There are not enough links for every length up to the bound to have more classes than
the one before. -/
theorem exists_tellsNoMore (g : Graph) : ∃ n ≤ g.types.size, g.TellsNoMore n := by
  by_contra hnone
  have hgrow : ∀ n ≤ g.types.size + 1, n + 1 ≤ (g.walkClasses n).card := by
    intro n
    induction n with
    | zero =>
        intro _
        exact Finset.card_pos.mpr ⟨_, Finset.mem_image_of_mem _ (Finset.mem_insert_self none _)⟩
    | succ n ih =>
        intro hn
        have hlt := card_walkClasses_lt fun h => hnone ⟨n, Nat.le_of_succ_le_succ hn, h⟩
        exact Nat.succ_le_of_lt (Nat.lt_of_le_of_lt (ih (Nat.le_of_succ_le hn)) hlt)
  have hcard := hgrow _ (Nat.le_refl _)
  have hle := g.card_walkClasses_le (g.types.size + 1)
  omega

/-! ### What the bound decides -/

/-- What walks as long as there are types do not tell apart, no walk does. -/
theorem chainShapes_eq_of_size (h : g.chainShapes g.types.size a = g.chainShapes g.types.size b)
    (n : Nat) : g.chainShapes n a = g.chainShapes n b := by
  obtain ⟨m, hm, hstable⟩ := g.exists_tellsNoMore
  have hlong := hstable.eq_add (chainShapes_eq_of_le hm h) n
  exact chainShapes_eq_of_le (Nat.le_add_left n m) hlong

/-- Two links are the same exactly when walks of every length find equal shapes. -/
theorem sameIdentity_iff_forall :
    g.sameIdentity a b = true ↔ ∀ n, g.chainShapes n a = g.chainShapes n b := by
  rw [sameIdentity_iff]
  constructor
  · intro h n
    exact chainShapes_eq_of_size (chainShapes_eq_of_le (Nat.le_succ _) h) n
  · intro h
    exact h _

/-! ### Walks that end -/

/-- Once a walk has ended, longer walks find nothing more. -/
theorem chain_eq_of_ended {n m : Nat} (ended : (g.chain n a).length < n) (hle : n ≤ m) :
    g.chain m a = g.chain n a := by
  obtain ⟨k, rfl⟩ := Nat.exists_eq_add_of_le hle
  have htake := take_chain g n k a
  have hlength : (g.chain (n + k) a).length < n := by
    rw [← htake, List.length_take] at ended
    omega
  rw [← htake, List.take_of_length_le (Nat.le_of_lt hlength)]

/-- A walk that ends passes types from which there are all the shorter walks to go. -/
theorem exists_place_of_ended {n k : Nat} (hk : (g.chain n a).length = k) (ended : k < n) :
    ∀ j ≤ k, ∃ p ∈ g.places, (g.chain n p).length = j := by
  induction k generalizing a with
  | zero =>
      intro j hj
      exact ⟨none, Finset.mem_insert_self _ _, by rw [chain_none]; simp; omega⟩
  | succ k ih =>
      intro j hj
      rcases Nat.lt_or_eq_of_le hj with hlt | rfl
      · obtain ⟨n, rfl⟩ := Nat.exists_eq_succ_of_ne_zero (Nat.ne_zero_of_lt ended)
        cases hd : a.bind g.type? with
        | none =>
            rw [chain_of_dead hd] at hk
            cases hk
        | some d =>
            rw [Nat.succ_eq_add_one, chain_succ_of_alive hd, List.length_cons,
              Nat.add_right_cancel_iff] at hk
            have hended : (g.chain n d.enclosing?).length < n := by omega
            have hlonger : (g.chain (n + 1) d.enclosing?).length = k := by
              rw [chain_eq_of_ended hended (Nat.le_succ n), hk]
            exact ih hlonger (by omega) j (Nat.le_of_lt_succ hlt)
      · obtain ⟨p, hp, hshapes⟩ := g.exists_place a
        refine ⟨p, hp, ?_⟩
        have hlength := congrArg List.length (hshapes n)
        rw [chainShapes, chainShapes, List.length_map, List.length_map] at hlength
        rw [← hlength, hk]

/-- A walk that ends passes no type twice, so it is not longer than there are types. -/
theorem length_le_size_of_ended {n : Nat} (ended : (g.chain n a).length < n) :
    (g.chain n a).length ≤ g.types.size := by
  have hrange : Finset.range ((g.chain n a).length + 1) ⊆
      g.places.image fun p => (g.chain n p).length := by
    intro j hj
    obtain ⟨p, hp, hlength⟩ :=
      exists_place_of_ended rfl ended j (Nat.le_of_lt_succ (Finset.mem_range.mp hj))
    exact Finset.mem_image.mpr ⟨p, hp, hlength⟩
  have hcard := (Finset.card_le_card hrange).trans Finset.card_image_le
  have hplaces := g.card_places_le
  rw [Finset.card_range] at hcard
  omega

/-- The bound of a walk does not cut it short if it ends at all. -/
theorem chain_size_of_ended {n : Nat} (ended : (g.chain n a).length < n) :
    g.chain g.types.size a = g.chain n a := by
  rcases Nat.le_total n g.types.size with hle | hle
  · exact chain_eq_of_ended ended hle
  · obtain ⟨k, hk⟩ := Nat.exists_eq_add_of_le hle
    have htake := take_chain g g.types.size k a
    rw [← hk, List.take_of_length_le (length_le_size_of_ended ended)] at htake
    exact htake.symm

/-! ### Walks in two graphs -/

/-- Equal walks make the same answer, in whatever graphs they are made. -/
theorem sameIdentity_eq_of_chainShapes {g' : Graph} {a' b' : Option TypeId}
    (ha : ∀ n, g.chainShapes n a = g'.chainShapes n a')
    (hb : ∀ n, g.chainShapes n b = g'.chainShapes n b') :
    g.sameIdentity a b = g'.sameIdentity a' b' := by
  refine Bool.eq_iff_iff.mpr ?_
  rw [sameIdentity_iff_forall, sameIdentity_iff_forall]
  exact forall_congr' fun n => by rw [ha n, hb n]

end AssemblyGraph.Graph
