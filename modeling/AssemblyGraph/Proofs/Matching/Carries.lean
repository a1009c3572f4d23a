import AssemblyGraph.Proofs.Matching.Surface
import AssemblyGraph.Session.View

/-!
Registries that carry a surface.

A registry under construction lists the types that it was given by a script, and
besides them perhaps extra ones. Its own calls extend what it carries; the calls
for the other registry change types of other lists only, so they leave it as it
is. Tokens are those of the surface as long as there are no extra types.
-/

namespace AssemblyGraph

/-! ### The declared types of a registry -/

namespace Registry

/-- A registry lists the given types and no others, apart from the primitive types. -/
structure Stocks (r : Registry) (g : Graph) (made : List TypeId) : Prop where
  keyed : r.Keyed g
  recorded : ∃ log, r.Records log
  declared : (r.declared g).Perm made
  defines : r.origin.isPrimitive = false

section Stocks

variable {r r' : Registry} {g g' : Graph} {made : List TypeId}

/-- What is declared is settled when a type is made. -/
theorem Keyed.declared_congr (h : r.Keyed g) (hg : g.KeepsTypes g') :
    r.declared g' = r.declared g := by
  refine List.filter_congr fun t ht => ?_
  obtain ⟨token, hget⟩ := mem_all_iff.mp ht
  obtain ⟨d, hd, -⟩ := h token t hget
  obtain ⟨d', hd', hgrows⟩ := hg t d hd
  rw [hd, hd', Option.any_some, Option.any_some, hgrows.origin]

theorem Stocks.frame (h : r.Stocks g made) (hg : g.KeepsTypes g') : r.Stocks g' made :=
  ⟨h.keyed.mono hg, h.recorded, h.keyed.declared_congr hg ▸ h.declared, h.defines⟩

theorem Stocks.congr (h : r.Stocks g made) (types : r'.types = r.types)
    (byFullName : r'.byFullName = r.byFullName) (origin : r'.origin = r.origin) :
    r'.Stocks g made := by
  obtain ⟨log, hlog⟩ := h.recorded
  refine ⟨fun token t ht => ?_, ⟨log, hlog.congr types byFullName⟩, ?_, ?_⟩
  · rw [types] at ht
    exact h.keyed token t ht
  · rw [Registry.declared, all, types]
    exact h.declared
  · rw [origin]
    exact h.defines

/-- A type that is alive and not primitive is declared from then on. -/
theorem Stocks.mem (h : r.Stocks g made) {t : TypeId} (ht : t ∈ made) :
    ∃ d, g.type? t = some d ∧ d.origin.isPrimitive = false := by
  have hmem := (List.mem_filter.mp (h.declared.mem_iff.mpr ht)).2
  cases hd : g.type? t with
  | none =>
      rw [hd] at hmem
      cases hmem
  | some d => exact ⟨d, rfl, by simpa [hd] using hmem⟩

theorem Makes.stocks {d : TypeDecl} {t : TypeId} {b : Built} (h : r.Makes g d t b)
    (hs : r.Stocks g made) (declares : d.origin.isPrimitive = false) :
    b.registry.Stocks b.graph (made ++ [t]) := by
  obtain ⟨fullName, hentered⟩ := h.entered
  obtain ⟨d', hd', htoken, horigin⟩ := h.decl
  obtain ⟨log, hlog⟩ := hs.recorded
  have hlog' : b.registry.Records (log ++ [⟨t, d.token, fullName⟩]) := by
    rw [hentered]
    exact hlog.enter (x := ⟨t, d.token, fullName⟩) h.free
  have hkeyed : b.registry.Keyed b.graph := by
    rw [hentered, ← htoken]
    exact (hs.keyed.mono h.keeps).enter hd' fullName
  have hall : b.registry.all.Perm (r.all ++ [t]) := by
    have hnew := hlog'.all_perm
    rw [List.map_append] at hnew
    exact hnew.trans (hlog.all_perm.symm.append_right _)
  refine ⟨hkeyed, ⟨_, hlog'⟩, ?_, ?_⟩
  · refine (hall.filter _).trans ?_
    rw [List.filter_append]
    have hold := hs.keyed.declared_congr h.keeps
    rw [Registry.declared] at hold
    rw [hold]
    have hnew : List.filter (fun u => (b.graph.type? u).any fun d => !d.origin.isPrimitive) [t] =
        [t] := by
      simp [hd', horigin, declares]
    rw [hnew]
    exact hs.declared.append_right _
  · rw [hentered]
    exact hs.defines

end Stocks

/-! ### New registries -/

/-- A new registry declares nothing. -/
theorem declared_create (g : Graph) (origin : Origin) :
    (create g origin).1.declared (create g origin).2 = [] := by
  have hall : ∀ t ∈ (create g origin).1.all,
      ∃ d, (create g origin).2.type? t = some d ∧ d.origin.isPrimitive = true := by
    refine create_induction g origin
      (P := fun r g => ∀ t ∈ r.all, ∃ d, g.type? t = some d ∧ d.origin.isPrimitive = true)
      (fun t ht => ?_) fun r g kind h t ht => ?_
    · obtain ⟨token, hget⟩ := mem_all_iff.mp ht
      simp [empty] at hget
    · rcases r.register_cases g (primitiveDecl kind) with ⟨-, hreg⟩ | ⟨-, hreg⟩
      · rw [hreg] at ht ⊢
        exact h t ht
      · rw [hreg] at ht ⊢
        obtain ⟨token, hget⟩ := mem_all_iff.mp ht
        rw [enter, OrderedMap.getElem?_insert] at hget
        split at hget
        · obtain rfl := Option.some_inj.mp hget
          exact ⟨_, g.type?_addType_self _, rfl⟩
        · obtain ⟨d, hd, hprimitive⟩ := h t (mem_all_iff.mpr ⟨token, hget⟩)
          obtain ⟨d', hd', hgrows⟩ := g.keepsTypes_addType (primitiveDecl kind) t d hd
          exact ⟨d', hd', by rw [hgrows.origin, hprimitive]⟩
  refine List.filter_eq_nil_iff.mpr fun t ht => ?_
  obtain ⟨d, hd, hprimitive⟩ := hall t ht
  simp [hd, hprimitive]

/-- A registry keeps its origin, and primitive types take no rows. -/
theorem settings_create (g : Graph) (origin : Origin) :
    (create g origin).1.origin = origin ∧ (create g origin).1.nextTypeDef = 1 ∧
      (create g origin).1.nextTypeRef = 1 := by
  refine create_induction g origin
    (P := fun r _ => r.origin = origin ∧ r.nextTypeDef = 1 ∧ r.nextTypeRef = 1)
    ⟨rfl, rfl, rfl⟩ fun r g kind h => ?_
  rcases r.register_cases g (primitiveDecl kind) with ⟨-, hreg⟩ | ⟨-, hreg⟩
  · rw [hreg]
    exact h
  · rw [hreg]
    exact h

theorem stocks_create (g : Graph) (name : String) :
    (create g (.module name)).1.Stocks (create g (.module name)).2 [] := by
  have horigin := (settings_create g (.module name)).1
  have hrecords := records_create g (.module name)
  refine ⟨(keyed_create g (.module name)).1, ⟨_, hrecords⟩, ?_, ?_⟩
  · rw [declared_create]
  · rw [horigin]
    rfl

end Registry

/-! ### Calls for a registry -/

/-- A graph has got some new types, and of the types that there were only some given ones have
changed in what identifies them. -/
structure Graph.Alters (g g' : Graph) (own new : List TypeId) : Prop where
  keeps : g.KeepsTypes g'
  dead : ∀ t ∈ new, g.type? t = none
  nodup : new.Nodup
  facet : ∀ t, t ∉ own → g.type? t ≠ none → g'.facet? t = g.facet? t

namespace Registry

/-- A registry lists the types of a script, which show its surface, and some extra types. If
there are none, its tokens and its counters are those of the surface. -/
structure Carries (r : Registry) (g : Graph) (made extras : List TypeId) (s : Surface) :
    Prop where
  shows : g.Shows made s.types
  stocks : r.Stocks g (made ++ extras)
  numbered : extras = [] → made.map g.token? = s.tokens.map some ∧
    r.nextTypeDef = s.nextTypeDef ∧ r.nextTypeRef = s.nextTypeRef

variable {r r' : Registry} {g g' : Graph} {made extras own new : List TypeId} {s s' : Surface}
  {d : TypeDecl} {t : TypeId} {b : Built}

theorem carries_create (g : Graph) (name : String) :
    (create g (.module name)).1.Carries (create g (.module name)).2 [] [] .empty where
  shows := Graph.shows_nil _
  stocks := stocks_create g name
  numbered _ := ⟨rfl, (settings_create g (.module name)).2⟩

theorem Stocks.ne_none (h : r.Stocks g made) (ht : t ∈ made) : g.type? t ≠ none := by
  obtain ⟨d, hd, -⟩ := h.mem ht
  rw [hd]
  exact nofun

theorem Stocks.tokens_eq (h : r.Stocks g (made ++ extras)) (hg : g.KeepsTypes g') :
    made.map g'.token? = made.map g.token? := by
  refine List.map_congr_left fun t ht => ?_
  obtain ⟨d, hd, -⟩ := h.mem (List.mem_append_left _ ht)
  obtain ⟨d', hd', hgrows⟩ := hg t d hd
  rw [Graph.token?, Graph.token?, hd, hd', Option.map_some, Option.map_some, hgrows.token]

/-- A call for types of other lists leaves a registry as it is. -/
theorem Carries.frame (h : r.Carries g made extras s) (ha : g.Alters g' own new)
    (disjoint : ∀ t ∈ made, t ∉ own) : r.Carries g' made extras s where
  shows := h.shows.frame fun t ht =>
    ha.facet t (disjoint t ht) (h.stocks.ne_none (List.mem_append_left _ ht))
  stocks := h.stocks.frame ha.keeps
  numbered hnone := by
    rw [h.stocks.tokens_eq ha.keeps]
    exact h.numbered hnone

theorem Makes.alters (h : r.Makes g d t b) (own : List TypeId) :
    g.Alters b.graph own b.made where
  keeps := h.keeps
  dead u hu := by
    rw [h.made, List.mem_singleton] at hu
    rw [hu]
    exact h.dead
  nodup := h.made ▸ List.nodup_singleton t
  facet u _ hu := by
    have hne : u ≠ t := by
      rintro rfl
      exact hu h.dead
    rw [h.facet, if_neg hne]

/-- A type of the script is created, as the surface says. -/
theorem Carries.make (h : r.Carries g made extras s) (hm : r'.Makes g d t b)
    (hs : r'.Stocks g (made ++ extras)) (declares : d.origin.isPrimitive = false)
    {x : SurfaceType} (shape : d.identityShape = x.shape)
    (link : Option.Rel (fun j u => made[j]? = some u) x.enclosing? d.enclosing?)
    (types : s'.types = s.types ++ [x])
    (numbered : r.nextTypeDef = s.nextTypeDef → r.nextTypeRef = s.nextTypeRef →
      s'.tokens = s.tokens ++ [d.token] ∧ r'.nextTypeDef = s'.nextTypeDef ∧
        r'.nextTypeRef = s'.nextTypeRef) :
    b.registry.Carries b.graph (made ++ b.made) extras s' := by
  have halters := hm.alters []
  rw [hm.made]
  refine ⟨?_, ?_, fun hnone => ?_⟩
  · rw [types]
    refine h.shows.concat (fun u hu => ?_) (by rw [hm.facet, if_pos rfl, shape]) link
    exact halters.facet u nofun (h.stocks.ne_none (List.mem_append_left _ hu))
  · have hstocks := hm.stocks hs declares
    refine { hstocks with declared := hstocks.declared.trans ?_ }
    rw [List.append_assoc, List.append_assoc]
    exact (List.perm_append_comm).append_left made
  · obtain ⟨htokens, hdef, href⟩ := h.numbered hnone
    obtain ⟨htokens', hdef', href'⟩ := numbered hdef href
    obtain ⟨d', hd', htoken, -⟩ := hm.decl
    obtain ⟨fullName, hentered⟩ := hm.entered
    refine ⟨?_, ?_, ?_⟩
    · rw [List.map_append, h.stocks.tokens_eq hm.keeps, htokens, htokens', List.map_append,
        List.map_singleton, List.map_singleton, Graph.token?, hd', Option.map_some, htoken]
    · rw [hentered]
      exact hdef'
    · rw [hentered]
      exact href'

/-- An extra type is created. -/
theorem Carries.makeExtra (h : r.Carries g made extras s) (hm : r'.Makes g d t b)
    (hs : r'.Stocks g (made ++ extras)) (declares : d.origin.isPrimitive = false) :
    b.registry.Carries b.graph made (extras ++ b.made) s := by
  have halters := hm.alters []
  refine ⟨(h.frame halters nofun).shows, ?_, fun hnone => ?_⟩
  · rw [hm.made, ← List.append_assoc]
    exact hm.stocks hs declares
  · rw [hm.made] at hnone
    simp at hnone

end Registry

namespace BuildCall

open Registry

variable {r : Registry} {g : Graph} {made extras : List TypeId} {s : Surface} {b : Built}

theorem alters_addGenericParam {own : List TypeId} {t : TypeId} (ht : t ∈ own) (name : String) :
    g.Alters (r.addGenericParam g t name).2.1 own [] where
  keeps := g.keepsTypes_pushGenericParam t _
  dead := nofun
  nodup := List.nodup_nil
  facet u hu _ := by
    have hne : u ≠ t := by
      rintro rfl
      exact hu ht
    exact (g.facet?_pushGenericParam t _ u).trans (if_neg hne)

/-- What a call of the script does to the types of a registry is what it does to the
surface. -/
theorem carries_of_run {call : BuildCall Nat Nat} (h : r.Carries g made extras s)
    (nodup : made.Nodup) (run : call.run (made[·]?) (made[·]?) r g = some b) :
    g.Alters b.graph made b.made ∧
      b.registry.Carries b.graph (made ++ b.made) extras (s.add call) := by
  cases call with
  | createType namespaceName name flags =>
      obtain ⟨t, hm⟩ := makes_of_register (r := r.skipTypeDef) run
      exact ⟨hm.alters made, h.make hm (h.stocks.congr rfl rfl rfl) h.stocks.defines rfl .none rfl
        fun hdef href => ⟨congrArg (fun row => s.tokens ++ [Token.inTable .typeDef row]) hdef.symm,
          congrArg (· + 1) hdef, href⟩⟩
  | createNested enclosing name flags =>
      obtain ⟨e, he, hmade⟩ := Option.bind_eq_some_iff.mp run
      obtain ⟨t, hm⟩ := makes_of_createNested hmade
      exact ⟨hm.alters made, h.make (x := ⟨⟨true, "", name, 0⟩, some enclosing⟩) hm
        (h.stocks.congr rfl rfl rfl) h.stocks.defines rfl (.some he) rfl
        fun hdef href => ⟨congrArg (fun row => s.tokens ++ [Token.inTable .typeDef row]) hdef.symm,
          congrArg (· + 1) hdef, href⟩⟩
  | createRef namespaceName name origin =>
      obtain ⟨t, hm⟩ :=
        makes_of_register (r := { r with nextTypeRef := r.nextTypeRef + 1 }) run
      exact ⟨hm.alters made, h.make hm (h.stocks.congr rfl rfl rfl) origin.2 rfl .none rfl
        fun hdef href => ⟨congrArg (fun row => s.tokens ++ [Token.inTable .typeRef row]) href.symm,
          hdef, congrArg (· + 1) href⟩⟩
  | addGenericParam owner name =>
      obtain ⟨t, ht, rfl⟩ := Option.map_eq_some_iff.mp run
      have halters := alters_addGenericParam (r := r) (g := g) (List.mem_of_getElem? ht) name
      refine ⟨halters, ?_⟩
      rw [List.append_nil]
      refine ⟨h.shows.widen nodup ht (g.facet?_pushGenericParam t _),
        (h.stocks.frame halters.keeps).congr rfl rfl rfl, fun hnone => ?_⟩
      rw [h.stocks.tokens_eq halters.keeps]
      exact h.numbered hnone

/-- An extra call leaves the types of the script as they are. -/
theorem carries_of_extra {Site : Type} {site? : Site → Option TypeId} {call : BuildCall Site Nat}
    (h : r.Carries g made extras s) (disjoint : ∀ t ∈ made, t ∉ extras)
    (run : call.run site? (extras[·]?) r g = some b) :
    g.Alters b.graph extras b.made ∧
      b.registry.Carries b.graph made (extras ++ b.made) s := by
  cases call with
  | createType namespaceName name flags =>
      obtain ⟨t, hm⟩ := makes_of_register (r := r.skipTypeDef) run
      exact ⟨hm.alters extras, h.makeExtra hm (h.stocks.congr rfl rfl rfl) h.stocks.defines⟩
  | createNested enclosing name flags =>
      obtain ⟨e, -, hmade⟩ := Option.bind_eq_some_iff.mp run
      obtain ⟨t, hm⟩ := makes_of_createNested hmade
      exact ⟨hm.alters extras, h.makeExtra hm (h.stocks.congr rfl rfl rfl) h.stocks.defines⟩
  | createRef namespaceName name origin =>
      obtain ⟨t, hm⟩ :=
        makes_of_register (r := { r with nextTypeRef := r.nextTypeRef + 1 }) run
      exact ⟨hm.alters extras, h.makeExtra hm (h.stocks.congr rfl rfl rfl) origin.2⟩
  | addGenericParam owner name =>
      obtain ⟨t, ht, rfl⟩ := Option.map_eq_some_iff.mp run
      have halters := alters_addGenericParam (r := r) (g := g) (List.mem_of_getElem? ht) name
      have hframe := h.frame halters disjoint
      refine ⟨halters, ?_⟩
      rw [List.append_nil]
      exact ⟨hframe.shows, hframe.stocks.congr rfl rfl rfl, hframe.numbered⟩

end BuildCall

end AssemblyGraph
