import AssemblyGraph.Proofs.Matching.Script

/-!
Types that show a surface.

A list of types shows a surface when each of them has the shape that is said of
its place and is nested in the type at the place that is said. Two lists that
show one surface are the same type by type, because the walks outwards from two
types at one place go through the same places. What a call of a script does to
the types that were created is what it does to the surface, and a call for other
types does nothing to them.
-/

namespace AssemblyGraph

namespace Graph

/-- The types of a list are as a surface says. -/
structure Shows (g : Graph) (made : List TypeId) (types : List SurfaceType) : Prop where
  length : made.length = types.length
  facet : ∀ {i : Nat} {t : TypeId} {x : SurfaceType}, made[i]? = some t → types[i]? = some x →
    ∃ link, g.facet? t = some (x.shape, link) ∧
      Option.Rel (fun j u => made[j]? = some u) x.enclosing? link

section Shows

variable {g g' : Graph} {made made' : List TypeId} {types : List SurfaceType} {t u : TypeId}

theorem chainShapes_of_facet? {shape : IdentityShape} {link : Option TypeId}
    (h : g.facet? t = some (shape, link)) (bound : Nat) :
    g.chainShapes (bound + 1) (some t) = shape :: g.chainShapes bound link := by
  obtain ⟨d, hd, hfacet⟩ := Option.map_eq_some_iff.mp h
  obtain ⟨rfl, rfl⟩ := Prod.mk.inj hfacet
  have halive : (some t).bind g.type? = some d := hd
  rw [chainShapes, chain_succ_of_alive halive, List.map_cons, ← chainShapes]

/-- By induction on the length of the walk: the enclosing types are at one place again. -/
theorem Shows.chainShapes_eq (h : g.Shows made types) (h' : g.Shows made' types) (bound : Nat)
    {i : Nat} (ht : made[i]? = some t) (hu : made'[i]? = some u) :
    g.chainShapes bound (some t) = g.chainShapes bound (some u) := by
  induction bound generalizing i t u with
  | zero => rfl
  | succ bound ih =>
      have hlt : i < types.length := h.length ▸ (List.getElem?_eq_some_iff.mp ht).1
      have hx := List.getElem?_eq_getElem hlt
      obtain ⟨link, hfacet, hlink⟩ := h.facet ht hx
      obtain ⟨link', hfacet', hlink'⟩ := h'.facet hu hx
      rw [chainShapes_of_facet? hfacet, chainShapes_of_facet? hfacet']
      refine congrArg _ ?_
      generalize types[i].enclosing? = enclosing? at hlink hlink'
      cases hlink with
      | none =>
          cases hlink'
          rfl
      | some hj =>
          cases hlink' with
          | some hj' => exact ih hj hj'

/-- The types at one place of a surface are the same. -/
theorem Shows.same (h : g.Shows made types) (h' : g.Shows made' types) {i : Nat}
    (ht : made[i]? = some t) (hu : made'[i]? = some u) :
    g.sameIdentity (some t) (some u) = true :=
  sameIdentity_iff.mpr (h.chainShapes_eq h' _ ht hu)

theorem shows_nil (g : Graph) : g.Shows [] [] :=
  ⟨rfl, nofun⟩

theorem Shows.frame (h : g.Shows made types) (hframe : ∀ t ∈ made, g'.facet? t = g.facet? t) :
    g'.Shows made types := by
  refine ⟨h.length, fun ht hx => ?_⟩
  rw [hframe _ (List.mem_of_getElem? ht)]
  exact h.facet ht hx

/-- One more type, with one more place on the surface. -/
theorem Shows.concat (h : g.Shows made types) (hframe : ∀ t ∈ made, g'.facet? t = g.facet? t)
    {x : SurfaceType} {link : Option TypeId} (ht : g'.facet? t = some (x.shape, link))
    (hlink : Option.Rel (fun j u => made[j]? = some u) x.enclosing? link) :
    g'.Shows (made ++ [t]) (types ++ [x]) := by
  have hgrow : ∀ {enclosing? link},
      Option.Rel (fun (j : Nat) u => made[j]? = some u) enclosing? link →
      Option.Rel (fun (j : Nat) u => (made ++ [t])[j]? = some u) enclosing? link := by
    rintro _ _ (⟨hj⟩ | _)
    · exact .some (by rw [List.getElem?_append_left (List.getElem?_eq_some_iff.mp hj).1, hj])
    · exact .none
  refine ⟨by simp [h.length], fun {i t' x'} ht' hx' => ?_⟩
  rcases Nat.lt_or_ge i made.length with hlt | hge
  · rw [List.getElem?_append_left hlt] at ht'
    rw [List.getElem?_append_left (h.length ▸ hlt)] at hx'
    obtain ⟨link', hfacet, hlink'⟩ := (h.frame hframe).facet ht' hx'
    exact ⟨link', hfacet, hgrow hlink'⟩
  · have hi : i = made.length := by
      have hlt := (List.getElem?_eq_some_iff.mp ht').1
      rw [List.length_append, List.length_singleton] at hlt
      omega
    rw [hi, List.getElem?_concat_length] at ht'
    rw [hi, h.length, List.getElem?_concat_length] at hx'
    obtain rfl := Option.some_inj.mp ht'
    obtain rfl := Option.some_inj.mp hx'
    exact ⟨link, ht, hgrow hlink⟩

/-- One more generic parameter for the type at a place. -/
theorem Shows.widen (h : g.Shows made types) (nodup : made.Nodup) {owner : Nat}
    (ht : made[owner]? = some t) (hfacet : ∀ u, g'.facet? u =
      if u = t then (g.facet? u).map fun x => (Surface.widen x.1, x.2) else g.facet? u) :
    g'.Shows made
      (types.modify owner fun x => { x with shape := Surface.widen x.shape }) := by
  refine ⟨by rw [List.length_modify, h.length], fun {i u x} hu hx => ?_⟩
  rw [List.getElem?_modify] at hx
  obtain ⟨x', hx', rfl⟩ := Option.map_eq_some_iff.mp hx
  obtain ⟨link, hfacet', hlink⟩ := h.facet hu hx'
  refine ⟨link, ?_, ?_⟩
  · rw [hfacet]
    by_cases howner : owner = i
    · subst howner
      obtain rfl := Option.some_inj.mp (hu.symm.trans ht)
      simp [hfacet']
    · have hne : u ≠ t := by
        rintro rfl
        have hlt := (List.getElem?_eq_some_iff.mp ht).1
        exact howner ((List.getElem?_inj hlt nodup).mp (ht.trans hu.symm))
      simp [hne, howner, hfacet']
  · split <;> exact hlink

end Shows

end Graph

end AssemblyGraph
