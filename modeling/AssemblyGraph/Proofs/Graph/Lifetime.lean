import AssemblyGraph.Proofs.Registry.Creation

/-!
What becomes of the places of a graph.

A place is given out once. Later it holds the type that it was given out for, as that type
has grown, or it is empty; and once it is empty it stays so. A type is made without a
definition, and only a reference is linked to one, so no other type ever has one.
-/

namespace AssemblyGraph

/-- Only a reference is linked to a definition. -/
def TypeDecl.LinksAsReference (d : TypeDecl) : Prop :=
  ∀ x, d.definition? = some x → d.isReference = true

namespace Graph

/-- Every type of the later graph was there before and has grown, or its place is new. -/
structure Continues (g g' : Graph) : Prop where
  size : g.types.size ≤ g'.types.size
  type : ∀ t d', g'.type? t = some d' →
    (∃ d, g.type? t = some d ∧ d.Grows d' ∧ (d.LinksAsReference → d'.LinksAsReference)) ∨
    (g.types.size ≤ t.index ∧ d'.LinksAsReference)

variable {g g' g'' : Graph} {t : TypeId} {d : TypeDecl}

theorem Continues.of_eq (h : g'.types = g.types) : g.Continues g' where
  size := Nat.le_of_eq (congrArg Array.size h.symm)
  type t d' hd' := by
    rw [type?, h] at hd'
    exact .inl ⟨d', hd', .refl d', id⟩

theorem Continues.refl (g : Graph) : g.Continues g :=
  .of_eq rfl

theorem Continues.trans (h : g.Continues g') (h' : g'.Continues g'') : g.Continues g'' where
  size := Nat.le_trans h.size h'.size
  type t d'' hd'' := by
    rcases h'.type t d'' hd'' with ⟨d', hd', hgrows', hlinks'⟩ | ⟨hnew, hlinks'⟩
    · rcases h.type t d' hd' with ⟨d, hd, hgrows, hlinks⟩ | ⟨hnew, hlinks⟩
      · exact .inl ⟨d, hd, hgrows.trans hgrows', hlinks' ∘ hlinks⟩
      · exact .inr ⟨hnew, hlinks' hlinks⟩
    · exact .inr ⟨Nat.le_trans h.size hnew, hlinks'⟩

/-! ### What was there -/

/-- A type that is gone stays gone. -/
theorem Continues.dead (h : g.Continues g') (known : t.index < g.types.size)
    (dead : g.type? t = none) : g'.type? t = none := by
  cases ht : g'.type? t with
  | none => rfl
  | some d' =>
      rcases h.type t d' ht with ⟨d, hd, -⟩ | ⟨hnew, -⟩
      · rw [dead] at hd
        cases hd
      · exact absurd known (Nat.not_lt.mpr hnew)

/-- A type that was alive has grown, or it is gone. -/
theorem Continues.grows (h : g.Continues g') (hd : g.type? t = some d) :
    g'.type? t = none ∨ ∃ d', g'.type? t = some d' ∧ d.Grows d' := by
  cases ht : g'.type? t with
  | none => exact .inl rfl
  | some d' =>
      rcases h.type t d' ht with ⟨e, he, hgrows, -⟩ | ⟨hnew, -⟩
      · obtain rfl := Option.some_inj.mp (hd.symm.trans he)
        exact .inr ⟨d', rfl, hgrows⟩
      · have hknown := index_lt_of_alive (isAlive_iff.mpr ⟨d, hd⟩)
        exact absurd hknown (Nat.not_lt.mpr hnew)

/-! ### The operations on a graph -/

section

variable (g : Graph)

theorem continues_addType {d : TypeDecl} (bare : d.definition? = none) :
    g.Continues (g.addType d).1 where
  size := (g.keepsFacets_addType d).size
  type t d' hd' := by
    by_cases ht : t = (g.addType d).2
    · rw [ht, type?_addType_self] at hd'
      obtain rfl := Option.some_inj.mp hd'
      refine .inr ⟨Nat.le_of_eq (congrArg TypeId.index ht.symm), fun x hx => ?_⟩
      rw [bare] at hx
      cases hx
    · rw [g.type?_addType_of_ne d ht] at hd'
      exact .inl ⟨d', hd', .refl d', id⟩

/-- A change by which a type grows, and which links it to no definition. -/
theorem continues_modifyType (t : TypeId) {f : TypeDecl → TypeDecl}
    (keeps : g.KeepsTypes (g.modifyType t f))
    (links : ∀ d, g.type? t = some d → (f d).definition? = d.definition? ∨ d.isReference = true) :
    g.Continues (g.modifyType t f) where
  size := Nat.le_of_eq (g.size_modifyType t f).symm
  type u d' hd' := by
    have hchanged := (g.type?_modifyType t u f).symm.trans hd'
    cases hd : g.type? u with
    | none =>
        rw [hd, Option.map_none, ite_self] at hchanged
        cases hchanged
    | some d =>
        obtain ⟨e, he, hgrows⟩ := keeps u d hd
        obtain rfl := Option.some_inj.mp (hd'.symm.trans he)
        refine .inl ⟨d, rfl, hgrows, fun hlinks x hx => ?_⟩
        have hreference : d'.isReference = d.isReference := by
          rw [TypeDecl.isReference, TypeDecl.isReference, hgrows.token]
        rw [hreference]
        rw [hd, Option.map_some] at hchanged
        split at hchanged
        · rename_i hut
          obtain rfl := Option.some_inj.mp hchanged
          rcases links d (hut ▸ hd) with hsame | hlinked
          · exact hlinks x (hsame ▸ hx)
          · exact hlinked
        · obtain rfl := Option.some_inj.mp hchanged
          exact hlinks x hx

theorem continues_pushNested (enclosing t : TypeId) : g.Continues (g.pushNested enclosing t) :=
  g.continues_modifyType enclosing (g.keepsTypes_pushNested enclosing t) fun _ _ => .inl rfl

theorem continues_pushMethod (t : TypeId) (m : MethodId) : g.Continues (g.pushMethod t m) :=
  g.continues_modifyType t (g.keepsTypes_pushMethod t m) fun _ _ => .inl rfl

theorem continues_pushGenericParam (t : TypeId) (p : GenericParam) :
    g.Continues (g.pushGenericParam t p) :=
  g.continues_modifyType t (g.keepsTypes_pushGenericParam t p) fun _ _ => .inl rfl

theorem continues_attach (t : TypeId) (record : AttributeRecord) :
    g.Continues (g.attach t record) :=
  g.continues_modifyType t (g.keepsTypes_attach t record) fun _ _ => .inl rfl

theorem continues_setEnclosing {t e : TypeId} {nested : Graph}
    (h : g.setEnclosing t e = .ok nested) : g.Continues nested := by
  have hkeeps := g.keepsTypes_setEnclosing h
  rcases g.setEnclosing_cases h with ⟨-, rfl⟩ | ⟨-, -, -, rfl⟩
  · exact .refl nested
  · exact g.continues_modifyType t hkeeps fun _ _ => .inl rfl

theorem continues_setDefinition {t definition : TypeId} {linked : Graph}
    (h : g.setDefinition t definition = .ok linked) : g.Continues linked := by
  have hkeeps := g.keepsTypes_setDefinition h
  rcases g.setDefinition_cases h with ⟨-, rfl⟩ | ⟨d, hd, href, -, rfl⟩
  · exact .refl linked
  · refine g.continues_modifyType t hkeeps fun e he => .inr ?_
    obtain rfl := Option.some_inj.mp (hd.symm.trans he)
    exact href

theorem continues_retain (owned : List TypeId) : g.Continues (g.retain owned) where
  size := Nat.le_of_eq (g.size_retain owned).symm
  type t d' hd' := by
    rw [type?_retain] at hd'
    split at hd'
    · exact .inl ⟨d', hd', .refl d', id⟩
    · cases hd'

end

theorem continues_frame : Frame Continues where
  of_types := .of_eq
  trans := .trans
  addType g _ fresh := g.continues_addType fresh.unlinked
  pushMethod := continues_pushMethod
  pushNested := continues_pushNested
  retain := continues_retain

end Graph

end AssemblyGraph
