import AssemblyGraph.Proofs.Graph.Lifetime

/-!
The types that are created in other types.

When a type has been registered as a nested one, its enclosing type lists it, and nothing else
writes into that list. The link back is part of what the type is made with. So the lists of a
graph restate the nestings that have been made, in their order, as long as every enclosing type
was there when its nesting was made; and a living type that has been nested so is still linked
to the same type, because such a link is set at most once.
-/

namespace AssemblyGraph

/-- A type that was created in another one. -/
structure Nesting where
  enclosing : TypeId
  type : TypeId

/-- The types that were created in a type, in their order. -/
def Nesting.within (t : TypeId) (log : List Nesting) : List TypeId :=
  (log.filter (·.enclosing = t)).map (·.type)

/-- The nesting that an attempt to create a type in another one has made. -/
def Creation.nestings (c : Creation) (enclosing : TypeId) : List Nesting :=
  match c.result with
  | .ok t => [⟨enclosing, t⟩]
  | .error _ => []

namespace Nesting

variable {log log' : List Nesting} {t : TypeId}

theorem within_append : within t (log ++ log') = within t log ++ within t log' := by
  rw [within, List.filter_append, List.map_append, within, within]

theorem within_eq_nil (h : ∀ x ∈ log, x.enclosing ≠ t) : within t log = [] := by
  rw [within, List.map_eq_nil_iff, List.filter_eq_nil_iff]
  exact fun x hx => by simpa using h x hx

theorem mem_within {u : TypeId} : u ∈ within t log ↔ (⟨t, u⟩ : Nesting) ∈ log := by
  simp only [within, List.mem_map, List.mem_filter, decide_eq_true_eq]
  constructor
  · rintro ⟨x, ⟨hx, rfl⟩, rfl⟩
    exact hx
  · exact fun h => ⟨⟨t, u⟩, ⟨h, rfl⟩, rfl⟩

theorem within_singleton (e u : TypeId) : within t [⟨e, u⟩] = if t = e then [u] else [] := by
  by_cases h : t = e
  · simp [within, h]
  · rw [if_neg h]
    exact within_eq_nil (by simpa using Ne.symm h)

end Nesting

/-- The types that a living type lists as nested in it. -/
def Graph.nested? (g : Graph) (t : TypeId) : Option (List TypeId) :=
  (g.type? t).map (·.nested)

namespace Graph

/-- What becomes of a graph when some nestings are made, each of a new type in one that was made
before it. Every list is what it was, followed by the types that were created in its type. -/
structure Nests (log : List Nesting) (g g' : Graph) : Prop where
  continues : g.Continues g'
  lists : ∀ t nested, g'.nested? t = some nested →
    nested = (g.nested? t).getD [] ++ Nesting.within t log
  enclosing : ∀ x ∈ log, x.enclosing.index < g'.types.size
  type : ∀ x ∈ log, g.types.size ≤ x.type.index ∧ x.type.index < g'.types.size
  distinct : (log.map Nesting.type).Nodup
  linked : ∀ x ∈ log, ∀ d, g'.type? x.type = some d →
    d.enclosing? = some x.enclosing ∧ d.namespaceName = ""

variable {g g' g'' : Graph} {log log' : List Nesting} {t : TypeId}

theorem nested?_eq_none (h : g.types.size ≤ t.index) : g.nested? t = none := by
  rw [nested?, Option.map_eq_none_iff, type?, Array.getElem?_eq_none h]
  rfl

theorem Nests.lists_nil (h : g.Nests [] g') {nested : List TypeId}
    (hnested : g'.nested? t = some nested) : nested = (g.nested? t).getD [] :=
  (h.lists t nested hnested).trans (List.append_nil _)

/-- A change by which no nesting is made, and which no list shows. -/
theorem Nests.of_lists (continues : g.Continues g')
    (lists : ∀ t nested, g'.nested? t = some nested → nested = (g.nested? t).getD []) :
    g.Nests [] g' where
  continues := continues
  lists t nested h := (lists t nested h).trans (List.append_nil _).symm
  enclosing := nofun
  type := nofun
  distinct := List.nodup_nil
  linked := nofun

theorem Nests.of_types (h : g'.types = g.types) : g.Nests [] g' := by
  refine .of_lists (.of_eq h) fun t nested hnested => ?_
  have hsame : g'.nested? t = g.nested? t := by rw [nested?, nested?, type?, type?, h]
  rw [← hsame, hnested, Option.getD_some]

theorem Nests.refl (g : Graph) : g.Nests [] g :=
  .of_types rfl

theorem Nests.lists_trans (h : g.Nests log g') (h' : g'.Nests log' g'') (t : TypeId)
    (nested : List TypeId) (hnested : g''.nested? t = some nested) :
    nested = (g.nested? t).getD [] ++ Nesting.within t (log ++ log') := by
  rw [h'.lists t nested hnested, Nesting.within_append, ← List.append_assoc]
  refine congrArg (· ++ _) ?_
  cases hlist : g'.nested? t with
  | some nested' => exact h.lists t nested' hlist
  | none =>
      -- the type was not there yet, so no nesting has named it
      have hnew : g'.types.size ≤ t.index := by
        refine Nat.not_lt.mp fun hknown => ?_
        have hdead := h'.continues.dead hknown (Option.map_eq_none_iff.mp hlist)
        rw [nested?, hdead] at hnested
        cases hnested
      have hunnamed : Nesting.within t log = [] :=
        Nesting.within_eq_nil fun x hx heq => by
          have hlt := h.enclosing x hx
          rw [heq] at hlt
          omega
      rw [nested?_eq_none (Nat.le_trans h.continues.size hnew), hunnamed]
      rfl

theorem Nests.trans (h : g.Nests log g') (h' : g'.Nests log' g'') :
    g.Nests (log ++ log') g'' where
  continues := h.continues.trans h'.continues
  lists := h.lists_trans h'
  enclosing x hx := by
    rcases List.mem_append.mp hx with hx | hx
    · exact Nat.lt_of_lt_of_le (h.enclosing x hx) h'.continues.size
    · exact h'.enclosing x hx
  type x hx := by
    rcases List.mem_append.mp hx with hx | hx
    · exact ⟨(h.type x hx).1, Nat.lt_of_lt_of_le (h.type x hx).2 h'.continues.size⟩
    · exact ⟨Nat.le_trans h.continues.size (h'.type x hx).1, (h'.type x hx).2⟩
  distinct := by
    rw [List.map_append, List.nodup_append]
    refine ⟨h.distinct, h'.distinct, ?_⟩
    simp only [List.mem_map, forall_exists_index, and_imp]
    rintro _ x hx rfl _ y hy rfl heq
    have hlt := (h.type x hx).2
    have hle := (h'.type y hy).1
    rw [heq] at hlt
    omega
  linked x hx d'' hd'' := by
    rcases List.mem_append.mp hx with hx | hx
    · rcases h'.continues.type x.type d'' hd'' with ⟨d', hd', hgrows, -⟩ | ⟨hnew, -⟩
      · obtain ⟨henclosing, hnamespace⟩ := h.linked x hx d' hd'
        exact ⟨hgrows.enclosing? _ henclosing, hgrows.namespaceName.trans hnamespace⟩
      · exact absurd (h.type x hx).2 (Nat.not_lt.mpr hnew)
    · exact h'.linked x hx d'' hd''

/-! ### The operations on a graph -/

variable (g)

/-- A new type lists nothing. -/
theorem nests_addType {d : TypeDecl} (unlinked : d.definition? = none) (flat : d.nested = []) :
    g.Nests [] (g.addType d).1 := by
  refine .of_lists (g.continues_addType unlinked) fun t nested hnested => ?_
  by_cases ht : t = (g.addType d).2
  · rw [ht, nested?, type?_addType_self, Option.map_some, flat, Option.some_inj] at hnested
    rw [ht, nested?, g.type?_new d, ← hnested]
    rfl
  · rw [nested?, g.type?_addType_of_ne d ht, ← nested?] at hnested
    rw [hnested, Option.getD_some]

/-- A change of something else than the list. -/
theorem nested?_modifyType (t : TypeId) {f : TypeDecl → TypeDecl}
    (same : ∀ d : TypeDecl, (f d).nested = d.nested) (u : TypeId) :
    (g.modifyType t f).nested? u = g.nested? u := by
  rw [nested?, type?_modifyType]
  split
  · rw [Option.map_map, nested?]
    exact congrFun (congrArg Option.map (funext same)) _
  · rfl

theorem Nests.modifyType {f : TypeDecl → TypeDecl} (continues : g.Continues (g.modifyType t f))
    (same : ∀ d : TypeDecl, (f d).nested = d.nested) : g.Nests [] (g.modifyType t f) := by
  refine .of_lists continues fun u nested hnested => ?_
  rw [g.nested?_modifyType t same] at hnested
  rw [hnested, Option.getD_some]

theorem nested?_setEnclosing {t e : TypeId} {g' : Graph} (h : g.setEnclosing t e = .ok g')
    (u : TypeId) : g'.nested? u = g.nested? u := by
  rcases g.setEnclosing_cases h with ⟨-, rfl⟩ | ⟨-, -, -, rfl⟩
  · rfl
  · exact g.nested?_modifyType t (fun _ => by rfl) u

theorem nests_setEnclosing {t e : TypeId} {g' : Graph} (h : g.setEnclosing t e = .ok g') :
    g.Nests [] g' := by
  refine .of_lists (g.continues_setEnclosing h) fun u nested hnested => ?_
  rw [g.nested?_setEnclosing h] at hnested
  rw [hnested, Option.getD_some]

theorem nests_setDefinition {t definition : TypeId} {g' : Graph}
    (h : g.setDefinition t definition = .ok g') : g.Nests [] g' := by
  have hcontinues := g.continues_setDefinition h
  rcases g.setDefinition_cases h with ⟨-, rfl⟩ | ⟨-, -, -, -, rfl⟩
  · exact .refl g'
  · exact .modifyType g hcontinues fun _ => by rfl

theorem nests_flatFrame : FlatFrame (Nests []) where
  of_types := .of_types
  trans := .trans
  addType g _ blank _ := g.nests_addType blank.unlinked blank.flat
  pushMethod g t m := .modifyType g (g.continues_pushMethod t m) fun _ => by rfl
  retain g owned := by
    refine .of_lists (g.continues_retain owned) fun t nested hnested => ?_
    rw [nested?, type?_retain] at hnested
    split at hnested
    · rw [nested?, hnested, Option.getD_some]
    · cases hnested

theorem nested?_pushNested (e t u : TypeId) : (g.pushNested e t).nested? u =
    if u = e then (g.nested? u).map (· ++ [t]) else g.nested? u := by
  rw [nested?, pushNested, type?_modifyType]
  split
  · rw [nested?, Option.map_map, Option.map_map]
    rfl
  · rfl

/-- The enclosing type lists the new one, which is made with the link back to it. -/
theorem nests_pushNested {e : TypeId} (known : e.index < g.types.size) {d : TypeDecl}
    (unlinked : d.definition? = none) (flat : d.nested = []) (linked : d.enclosing? = some e)
    (global : d.namespaceName = "") :
    g.Nests [⟨e, (g.addType d).2⟩] ((g.addType d).1.pushNested e (g.addType d).2) := by
  have hadd := g.nests_addType unlinked flat
  have hpush := (g.addType d).1.continues_pushNested e (g.addType d).2
  have hsize : (g.addType d).2.index < (g.addType d).1.types.size :=
    index_lt_of_alive (isAlive_iff.mpr ⟨d, g.type?_addType_self d⟩)
  constructor
  case continues => exact hadd.continues.trans hpush
  case lists =>
    intro u nested hnested
    rw [Nesting.within_singleton]
    rw [nested?_pushNested] at hnested
    split at hnested
    · rename_i hu
      obtain ⟨before, hbefore, rfl⟩ := Option.map_eq_some_iff.mp hnested
      rw [if_pos hu, hadd.lists_nil hbefore]
    · rename_i hu
      rw [if_neg hu, List.append_nil]
      exact hadd.lists_nil hnested
  case enclosing =>
    rintro x hx
    obtain rfl := List.mem_singleton.mp hx
    exact Nat.lt_of_lt_of_le known (hadd.continues.trans hpush).size
  case type =>
    rintro x hx
    obtain rfl := List.mem_singleton.mp hx
    exact ⟨Nat.le_refl _, Nat.lt_of_lt_of_le hsize hpush.size⟩
  case distinct => exact List.pairwise_singleton _ _
  case linked =>
    rintro x hx d' hd'
    obtain rfl := List.mem_singleton.mp hx
    obtain ⟨d'', hd'', hgrows⟩ :=
      keepsTypes_pushNested _ e (g.addType d).2 _ _ (g.type?_addType_self d)
    obtain rfl := Option.some_inj.mp (hd'.symm.trans hd'')
    exact ⟨hgrows.enclosing? e linked, hgrows.namespaceName.trans global⟩

end Graph

/-- An attempt to create a type in another one makes the nesting that it succeeds with. -/
theorem Registry.nests_createNested (r : Registry) (g : Graph) {e : TypeId}
    (known : e.index < g.types.size) (name : String) (flags : UInt32) :
    g.Nests ((r.createNested g e name flags).nestings e) (r.createNested g e name flags).graph := by
  rcases r.createNested_cases g e name flags with ⟨-, h⟩ | ⟨-, h⟩
  · rw [h]
    exact .refl g
  · rw [h]
    exact g.nests_pushNested known rfl rfl rfl rfl

end AssemblyGraph
