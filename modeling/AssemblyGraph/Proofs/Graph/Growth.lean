import AssemblyGraph.Graph.Links
import AssemblyGraph.Graph.Ownership

/-!
How a graph may change.

The header of a type is fixed when it is made, its two links are set at most
once, and its members are only ever appended to; the same goes for a method
and its declaring type. So whatever an operation does to a graph, a type that
lives on has grown. Types are lost only when they are released, and methods
are never lost.
-/

namespace AssemblyGraph

/-- What a declaration may become while its type lives. -/
structure TypeDecl.Grows (d d' : TypeDecl) : Prop where
  token : d'.token = d.token
  namespaceName : d'.namespaceName = d.namespaceName
  name : d'.name = d.name
  flags : d'.flags = d.flags
  origin : d'.origin = d.origin
  enclosing? : ∀ e, d.enclosing? = some e → d'.enclosing? = some e
  definition? : ∀ e, d.definition? = some e → d'.definition? = some e
  methods : d.methods <+: d'.methods
  nested : d.nested <+: d'.nested
  genericParams : d.genericParams <+: d'.genericParams
  attributes : d.attributes <+: d'.attributes

theorem TypeDecl.Grows.refl (d : TypeDecl) : d.Grows d := by
  constructor <;> simp

theorem TypeDecl.Grows.trans {d d' d'' : TypeDecl} (h : d.Grows d') (h' : d'.Grows d'') :
    d.Grows d'' where
  token := h'.token.trans h.token
  namespaceName := h'.namespaceName.trans h.namespaceName
  name := h'.name.trans h.name
  flags := h'.flags.trans h.flags
  origin := h'.origin.trans h.origin
  enclosing? e he := h'.enclosing? e (h.enclosing? e he)
  definition? e he := h'.definition? e (h.definition? e he)
  methods := h.methods.trans h'.methods
  nested := h.nested.trans h'.nested
  genericParams := h.genericParams.trans h'.genericParams
  attributes := h.attributes.trans h'.attributes

/-- What a method may become. -/
structure Method.Grows (m m' : Method) : Prop where
  token : m'.token = m.token
  name : m'.name = m.name
  access : m'.access = m.access
  modifiers : m'.modifiers = m.modifiers
  signature : m'.signature = m.signature
  declaringType? : ∀ t, m.declaringType? = some t → m'.declaringType? = some t

theorem Method.Grows.refl (m : Method) : m.Grows m :=
  ⟨rfl, rfl, rfl, rfl, rfl, fun _ h => h⟩

theorem Method.Grows.trans {m m' m'' : Method} (h : m.Grows m') (h' : m'.Grows m'') :
    m.Grows m'' :=
  ⟨h'.token.trans h.token, h'.name.trans h.name, h'.access.trans h.access,
    h'.modifiers.trans h.modifiers, h'.signature.trans h.signature,
    fun t ht => h'.declaringType? t (h.declaringType? t ht)⟩

namespace Graph

/-- Every type that is alive in one graph lives on in another. -/
def KeepsTypes (g g' : Graph) : Prop :=
  ∀ t d, g.type? t = some d → ∃ d', g'.type? t = some d' ∧ d.Grows d'

/-- Every method of one graph is in another. -/
def KeepsMethods (g g' : Graph) : Prop :=
  ∀ id m, g.method? id = some m → ∃ m', g'.method? id = some m' ∧ m.Grows m'

theorem KeepsTypes.refl (g : Graph) : g.KeepsTypes g :=
  fun _ d h => ⟨d, h, .refl d⟩

theorem KeepsTypes.trans {g g' g'' : Graph} (h : g.KeepsTypes g') (h' : g'.KeepsTypes g'') :
    g.KeepsTypes g'' := by
  intro t d hd
  obtain ⟨d', hd', hgrows⟩ := h t d hd
  obtain ⟨d'', hd'', hgrows'⟩ := h' t d' hd'
  exact ⟨d'', hd'', hgrows.trans hgrows'⟩

theorem KeepsMethods.of_eq {g g' : Graph} (h : g'.methods = g.methods) : g.KeepsMethods g' := by
  intro id m hm
  refine ⟨m, ?_, .refl m⟩
  rw [method?, h]
  exact hm

theorem KeepsMethods.trans {g g' g'' : Graph} (h : g.KeepsMethods g')
    (h' : g'.KeepsMethods g'') : g.KeepsMethods g'' := by
  intro id m hm
  obtain ⟨m', hm', hgrows⟩ := h id m hm
  obtain ⟨m'', hm'', hgrows'⟩ := h' id m' hm'
  exact ⟨m'', hm'', hgrows.trans hgrows'⟩

theorem KeepsMethods.grows {g g' : Graph} (h : g.KeepsMethods g') {entry entry' : MethodEntry}
    (held : g.methodWithId? entry.id = some entry)
    (held' : g'.methodWithId? entry'.id = some entry') (same : entry.id = entry'.id) :
    entry.method.Grows entry'.method := by
  obtain ⟨m, hm, hentry⟩ := Option.map_eq_some_iff.mp held
  obtain ⟨m', hm', hentry'⟩ := Option.map_eq_some_iff.mp held'
  obtain ⟨m'', hm'', hgrows⟩ := h entry.id m hm
  rw [same, hm'] at hm''
  obtain rfl := Option.some_inj.mp hm''
  rw [← hentry, ← hentry']
  exact hgrows

/-! ### The operations on a graph -/

variable (g : Graph)

/-- A new type has an identity that no type has had. -/
theorem type?_new (d : TypeDecl) : g.type? (g.addType d).2 = none := by
  simp [addType, type?]

theorem keepsTypes_addType (d : TypeDecl) : g.KeepsTypes (g.addType d).1 := by
  intro t e ht
  have hne : t ≠ (g.addType d).2 := by
    rintro rfl
    rw [g.type?_new d] at ht
    cases ht
  exact ⟨e, (g.type?_addType_of_ne d hne).trans ht, .refl e⟩

theorem keepsTypes_modifyType (t : TypeId) {f : TypeDecl → TypeDecl}
    (hf : ∀ d : TypeDecl, g.type? t = some d → d.Grows (f d)) :
    g.KeepsTypes (g.modifyType t f) := by
  intro u d hu
  rw [type?_modifyType, hu]
  by_cases h : u = t
  · exact ⟨f d, by simp [h], hf d (h ▸ hu)⟩
  · exact ⟨d, by simp [h], .refl d⟩

theorem keepsTypes_pushMethod (t : TypeId) (m : MethodId) :
    g.KeepsTypes (g.pushMethod t m) :=
  g.keepsTypes_modifyType t fun d _ =>
    { TypeDecl.Grows.refl d with methods := List.prefix_append d.methods [m] }

theorem keepsTypes_pushNested (enclosing t : TypeId) :
    g.KeepsTypes (g.pushNested enclosing t) :=
  g.keepsTypes_modifyType enclosing fun d _ =>
    { TypeDecl.Grows.refl d with nested := List.prefix_append d.nested [t] }

theorem keepsTypes_pushGenericParam (t : TypeId) (p : GenericParam) :
    g.KeepsTypes (g.pushGenericParam t p) :=
  g.keepsTypes_modifyType t fun d _ =>
    { TypeDecl.Grows.refl d with genericParams := List.prefix_append d.genericParams [p] }

theorem keepsTypes_attach (t : TypeId) (record : AttributeRecord) :
    g.KeepsTypes (g.attach t record) :=
  g.keepsTypes_modifyType t fun d _ =>
    { TypeDecl.Grows.refl d with attributes := List.prefix_append d.attributes [record] }

/-- A type is nested at most once: one that has an enclosing type is refused. -/
theorem setEnclosing_cases {t enclosing : TypeId} {g' : Graph}
    (h : g.setEnclosing t enclosing = .ok g') :
    (g.type? t = none ∧ g' = g) ∨
      ∃ d, g.type? t = some d ∧ d.enclosing? = none ∧
        g' = g.modifyType t fun d => { d with enclosing? := some enclosing } := by
  rw [setEnclosing] at h
  cases ht : g.type? t with
  | none =>
      simp only [ht] at h
      cases h
      exact .inl ⟨rfl, rfl⟩
  | some d =>
      simp only [ht] at h
      split at h
      · cases h
      · rename_i hfree
        cases h
        refine .inr ⟨d, rfl, ?_, rfl⟩
        rwa [TypeDecl.isNested, Option.not_isSome_iff_eq_none] at hfree

/-- A reference is linked at most once: one that has a definition is refused. -/
theorem setDefinition_cases {t definition : TypeId} {g' : Graph}
    (h : g.setDefinition t definition = .ok g') :
    (g.type? t = none ∧ g' = g) ∨
      ∃ d, g.type? t = some d ∧ d.isReference ∧ d.definition? = none ∧
        g' = g.modifyType t fun d => { d with definition? := some definition } := by
  rw [setDefinition] at h
  cases ht : g.type? t with
  | none =>
      simp only [ht] at h
      cases h
      exact .inl ⟨rfl, rfl⟩
  | some d =>
      simp only [ht] at h
      split at h
      · cases h
      rename_i href
      split at h
      · cases h
      · rename_i hfree
        cases h
        refine .inr ⟨d, rfl, by simpa using href, ?_, rfl⟩
        rwa [Option.not_isSome_iff_eq_none] at hfree

theorem keepsTypes_setEnclosing {t enclosing : TypeId} {g' : Graph}
    (h : g.setEnclosing t enclosing = .ok g') : g.KeepsTypes g' := by
  rcases g.setEnclosing_cases h with ⟨-, rfl⟩ | ⟨d, hd, hfree, rfl⟩
  · exact .refl g'
  · refine g.keepsTypes_modifyType t fun e he => ?_
    obtain rfl : d = e := Option.some_inj.mp (hd.symm.trans he)
    exact { TypeDecl.Grows.refl d with enclosing? := fun x hx => by simp [hfree] at hx }

theorem keepsTypes_setDefinition {t definition : TypeId} {g' : Graph}
    (h : g.setDefinition t definition = .ok g') : g.KeepsTypes g' := by
  rcases g.setDefinition_cases h with ⟨-, rfl⟩ | ⟨d, hd, -, hfree, rfl⟩
  · exact .refl g'
  · refine g.keepsTypes_modifyType t fun e he => ?_
    obtain rfl : d = e := Option.some_inj.mp (hd.symm.trans he)
    exact { TypeDecl.Grows.refl d with definition? := fun x hx => by simp [hfree] at hx }

theorem keepsMethods_addMethod (m : Method) : g.KeepsMethods (g.addMethod m).1 := by
  intro id m' hm'
  have hlt : id.index < g.methods.size := (Array.getElem?_eq_some_iff.mp hm').1
  refine ⟨m', ?_, .refl m'⟩
  rw [method?, addMethod, Array.getElem?_push_lt hlt]
  exact (Array.getElem?_eq_getElem hlt).symm.trans hm'

/-- A method keeps the declaring type that it has. -/
theorem keepsMethods_setDeclaringType (m : MethodId) (t : TypeId) :
    g.KeepsMethods (g.setDeclaringType m t) := by
  intro id m' hm'
  rw [method?] at hm'
  rw [method?, setDeclaringType, Array.getElem?_modify, hm']
  by_cases h : m.index = id.index
  · refine ⟨{ m' with declaringType? := m'.declaringType?.or (some t) }, by rw [if_pos h]; rfl,
      rfl, rfl, rfl, rfl, rfl, fun u hu => ?_⟩
    rw [hu]
    rfl
  · exact ⟨m', by rw [if_neg h], .refl m'⟩

end Graph

end AssemblyGraph
