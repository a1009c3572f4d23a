import AssemblyGraph.Proofs.Graph.Facet
import AssemblyGraph.Proofs.Graph.Release

/-!
Graphs whose links to enclosing types lead to places of their own.

An identity that has not been given out yet is no enclosing type of anything. This holds
of a graph that is built on one of which it holds: what is new in it is nested in types
that have earlier places, and what is not new keeps its enclosing type.
-/

namespace AssemblyGraph.Graph

/-- Every enclosing type has a place in the graph, though it may be gone. -/
def Grounded (g : Graph) : Prop :=
  ∀ t d e, g.type? t = some d → d.enclosing? = some e → e.index < g.types.size

/-- Every type of a graph was there before, with its enclosing type and the records that are
attached to it, or it is new, has no records and is nested in a type that has an earlier
place. -/
structure BuildsOn (g g' : Graph) : Prop where
  size : g.types.size ≤ g'.types.size
  type : ∀ t d', g'.type? t = some d' →
    (∃ d, g.type? t = some d ∧ d'.enclosing? = d.enclosing? ∧ d'.attributes = d.attributes) ∨
    (g.types.size ≤ t.index ∧ d'.attributes = [] ∧
      ∀ e, d'.enclosing? = some e → e.index < t.index)

variable {g g' g'' : Graph}

theorem Grounded.build (h : g.Grounded) (hbuild : g.BuildsOn g') : g'.Grounded := by
  intro t d' e hd' he
  rcases hbuild.type t d' hd' with ⟨d, hd, henclosing, -⟩ | ⟨-, -, hlink⟩
  · exact Nat.lt_of_lt_of_le (h t d e hd (henclosing ▸ he)) hbuild.size
  · exact Nat.lt_trans (hlink e he) (index_lt_of_alive (isAlive_iff.mpr ⟨d', hd'⟩))

theorem BuildsOn.mem_attachedTypes (h : g.BuildsOn g') {t : TypeId}
    (ht : t ∈ g'.attachedTypes) : t ∈ g.attachedTypes := by
  obtain ⟨u, d', record, hd', hrecord, hmem⟩ := mem_attachedTypes_iff.mp ht
  rcases h.type u d' hd' with ⟨d, hd, -, hattributes⟩ | ⟨-, hnone, -⟩
  · exact mem_attachedTypes_iff.mpr ⟨u, d, record, hd, hattributes ▸ hrecord, hmem⟩
  · rw [hnone] at hrecord
    cases hrecord

theorem BuildsOn.of_eq (h : g'.types = g.types) : g.BuildsOn g' where
  size := Nat.le_of_eq (congrArg Array.size h.symm)
  type t d' hd' := by
    rw [type?, h] at hd'
    exact .inl ⟨d', hd', rfl, rfl⟩

theorem BuildsOn.refl (g : Graph) : g.BuildsOn g :=
  .of_eq rfl

theorem BuildsOn.trans (h : g.BuildsOn g') (h' : g'.BuildsOn g'') : g.BuildsOn g'' where
  size := Nat.le_trans h.size h'.size
  type t d'' hd'' := by
    rcases h'.type t d'' hd'' with ⟨d', hd', henclosing', hattributes'⟩ | ⟨hnew, hrest⟩
    · rcases h.type t d' hd' with ⟨d, hd, henclosing, hattributes⟩ | ⟨hnew, hnone, hlink⟩
      · exact .inl ⟨d, hd, henclosing'.trans henclosing, hattributes'.trans hattributes⟩
      · exact .inr ⟨hnew, hattributes'.trans hnone, fun e he => hlink e (henclosing' ▸ he)⟩
    · exact .inr ⟨Nat.le_trans h.size hnew, hrest⟩

/-! ### The operations on a graph -/

section

variable (g : Graph)

theorem buildsOn_addType {d : TypeDecl} (bare : d.attributes = [])
    (link : ∀ e, d.enclosing? = some e → e.index < g.types.size) :
    g.BuildsOn (g.addType d).1 where
  size := (g.keepsFacets_addType d).size
  type t d' hd' := by
    by_cases ht : t = (g.addType d).2
    · rw [ht, type?_addType_self] at hd'
      obtain rfl := Option.some_inj.mp hd'
      rw [ht]
      exact .inr ⟨Nat.le_refl _, bare, link⟩
    · rw [g.type?_addType_of_ne d ht] at hd'
      exact .inl ⟨d', hd', rfl, rfl⟩

theorem buildsOn_modifyType (t : TypeId) {f : TypeDecl → TypeDecl}
    (enclosing? : ∀ d : TypeDecl, (f d).enclosing? = d.enclosing?)
    (attributes : ∀ d : TypeDecl, (f d).attributes = d.attributes) :
    g.BuildsOn (g.modifyType t f) where
  size := Nat.le_of_eq (g.size_modifyType t f).symm
  type u d' hd' := by
    rw [type?_modifyType] at hd'
    split at hd'
    · obtain ⟨d, hd, rfl⟩ := Option.map_eq_some_iff.mp hd'
      exact .inl ⟨d, hd, enclosing? d, attributes d⟩
    · exact .inl ⟨d', hd', rfl, rfl⟩

theorem buildsOn_pushNested (enclosing t : TypeId) : g.BuildsOn (g.pushNested enclosing t) :=
  g.buildsOn_modifyType enclosing (fun _ => by rfl) fun _ => by rfl

theorem buildsOn_pushMethod (t : TypeId) (m : MethodId) : g.BuildsOn (g.pushMethod t m) :=
  g.buildsOn_modifyType t (fun _ => by rfl) fun _ => by rfl

theorem buildsOn_pushGenericParam (t : TypeId) (p : GenericParam) :
    g.BuildsOn (g.pushGenericParam t p) :=
  g.buildsOn_modifyType t (fun _ => by rfl) fun _ => by rfl

theorem buildsOn_setDefinition {t definition : TypeId} {linked : Graph}
    (h : g.setDefinition t definition = .ok linked) : g.BuildsOn linked := by
  rcases g.setDefinition_cases h with ⟨-, rfl⟩ | ⟨d, -, -, -, rfl⟩
  · exact .refl linked
  · exact g.buildsOn_modifyType t (fun _ => by rfl) fun _ => by rfl

theorem buildsOn_retain (owned : List TypeId) : g.BuildsOn (g.retain owned) where
  size := Nat.le_of_eq (g.size_retain owned).symm
  type t d' hd' := by
    rw [type?_retain] at hd'
    split at hd'
    · exact .inl ⟨d', hd', rfl, rfl⟩
    · cases hd'

end

/-! ### Nesting a type and attaching a record -/

theorem Grounded.setEnclosing (h : g.Grounded) {t e : TypeId} (known : e.index < g.types.size)
    (set : g.setEnclosing t e = .ok g') : g'.Grounded := by
  rcases g.setEnclosing_cases set with ⟨-, rfl⟩ | ⟨-, -, -, rfl⟩
  · exact h
  · intro u d' e' hd' he'
    rw [type?_modifyType] at hd'
    rw [size_modifyType]
    split at hd'
    · obtain ⟨d, -, rfl⟩ := Option.map_eq_some_iff.mp hd'
      obtain rfl := Option.some_inj.mp he'
      exact known
    · exact h u d' e' hd' he'

theorem Grounded.attach (h : g.Grounded) (t : TypeId) (record : AttributeRecord) :
    (g.attach t record).Grounded := by
  intro u d' e hd' he
  rw [Graph.attach, type?_modifyType] at hd'
  rw [Graph.attach, size_modifyType]
  split at hd'
  · obtain ⟨d, hd, rfl⟩ := Option.map_eq_some_iff.mp hd'
    exact h u d e hd he
  · exact h u d' e hd' he

theorem mem_attachedTypes_setEnclosing {t e u : TypeId} (set : g.setEnclosing t e = .ok g')
    (h : u ∈ g'.attachedTypes) : u ∈ g.attachedTypes := by
  rcases g.setEnclosing_cases set with ⟨-, rfl⟩ | ⟨-, -, -, rfl⟩
  · exact h
  · obtain ⟨v, d', record, hd', hrecord, hmem⟩ := mem_attachedTypes_iff.mp h
    rw [type?_modifyType] at hd'
    split at hd'
    · obtain ⟨d, hd, rfl⟩ := Option.map_eq_some_iff.mp hd'
      exact mem_attachedTypes_iff.mpr ⟨v, d, record, hd, hrecord, hmem⟩
    · exact mem_attachedTypes_iff.mpr ⟨v, d', record, hd', hrecord, hmem⟩

theorem mem_attachedTypes_attach {t u : TypeId} {record : AttributeRecord}
    (h : u ∈ (g.attach t record).attachedTypes) :
    u ∈ g.attachedTypes ∨ u ∈ record.ownedTypes := by
  obtain ⟨v, d', record', hd', hrecord, hmem⟩ := mem_attachedTypes_iff.mp h
  rw [attach, type?_modifyType] at hd'
  split at hd'
  · obtain ⟨d, hd, rfl⟩ := Option.map_eq_some_iff.mp hd'
    rcases List.mem_append.mp hrecord with hold | hnew
    · exact .inl (mem_attachedTypes_iff.mpr ⟨v, d, record', hd, hold, hmem⟩)
    · obtain rfl := List.mem_singleton.mp hnew
      exact .inr hmem
  · exact .inl (mem_attachedTypes_iff.mpr ⟨v, d', record', hd', hrecord, hmem⟩)

end AssemblyGraph.Graph
