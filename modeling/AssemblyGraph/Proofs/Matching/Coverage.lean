import AssemblyGraph.Proofs.Matching.Registries
import AssemblyGraph.Proofs.Session.RegistryLog

/-!
What a matching covers.

The types of a registry are the primitive types, which it starts with, and those that commands
have registered in it since. A matching leaves types out by their origin and not by who has
registered them. So of the requested types it covers those, each once, that are not of primitive
origin, and all of them exactly if none is.
-/

namespace AssemblyGraph

/-- A type that is alive and comes from nowhere but the runtime. -/
def Graph.isPrimitive (g : Graph) (t : TypeId) : Bool :=
  (g.type? t).any (·.origin.isPrimitive)

theorem Graph.isPrimitive_iff {g : Graph} {t : TypeId} :
    g.isPrimitive t ↔ ∃ d, g.type? t = some d ∧ d.origin.isPrimitive := by
  rw [isPrimitive, Option.any_eq_true]

namespace Registry

/-- Every type of a new registry is of primitive origin. -/
theorem isPrimitive_of_create (g : Graph) (origin : Origin) {token : Token} {t : TypeId}
    (h : (create g origin).1.types[token]? = some t) : (create g origin).2.isPrimitive t := by
  refine create_induction g origin (P := fun r g' => ∀ (token : Token) (t : TypeId),
    r.types[token]? = some t → g'.isPrimitive t) (fun token t ht => ?_) ?_ token t h
  · simp [empty] at ht
  · intro r g' kind ih token t ht
    rcases r.register_cases g' (primitiveDecl kind) with ⟨-, hreg⟩ | ⟨-, hreg⟩
    · rw [hreg] at ht ⊢
      exact ih token t ht
    · rw [hreg] at ht ⊢
      rw [enter, OrderedMap.getElem?_insert] at ht
      split at ht
      · obtain rfl := Option.some_inj.mp ht
        exact Graph.isPrimitive_iff.mpr ⟨_, g'.type?_addType_self _, rfl⟩
      · obtain ⟨d, hd, hprimitive⟩ := Graph.isPrimitive_iff.mp (ih token t ht)
        obtain ⟨d', hd', hgrows⟩ := g'.keepsTypes_addType (primitiveDecl kind) t d hd
        exact Graph.isPrimitive_iff.mpr ⟨d', hd', hgrows.origin ▸ hprimitive⟩

/-- Registered types are alive, so those are listed as declared that are not of primitive
origin. -/
theorem Keyed.declared_eq {r : Registry} {g : Graph} (h : r.Keyed g) :
    r.declared g = r.all.filter (!g.isPrimitive ·) := by
  apply List.filter_congr
  intro t ht
  obtain ⟨token, htoken⟩ := mem_all_iff.mp ht
  obtain ⟨d, hd, -⟩ := h token t htoken
  rw [Graph.isPrimitive, hd, Option.any_some, Option.any_some]

end Registry

namespace Session

/-! ### Own types and requested types -/

/-- The types that the registry of a name has registered itself when it was made. -/
def ownTypes (reg : String) (commands : List Command) : List TypeId :=
  ((registrationsOf reg commands).take Primitive.all.length).map (·.type)

/-- The types that commands have registered in the registry of a name since it was made. -/
def requestedTypes (reg : String) (commands : List Command) : List TypeId :=
  ((registrationsOf reg commands).drop Primitive.all.length).map (·.type)

/-- What the registry of a name has taken in starts with its own types, which are of primitive
origin. -/
structure StartsPrimitive (reg : String) (s : Session) (log : List Registration) : Prop where
  keyed : s.Keyed
  logged : Logged reg s log
  primitive : ∀ r, s.registries[reg]? = some r →
    ∀ x ∈ log.take Primitive.all.length, s.graph.isPrimitive x.type

section Runs

variable {reg : String} {s s' : Session} {log : List Registration}

theorem Keyed.step (h : s.Keyed) (command : Command) : (s.step command).1.Keyed :=
  (step_moves s command).invariant Move.keyed h

/-- A type of primitive origin stays one as long as a registry holds it. -/
theorem isPrimitive_of_registered (hg : s.graph.Continues s'.graph) (keyed : s'.Keyed)
    {r : Registry} (bound : s'.registries[reg]? = some r) {token : Token} {t : TypeId}
    (registered : r.types[token]? = some t) (h : s.graph.isPrimitive t) :
    s'.graph.isPrimitive t := by
  obtain ⟨d, hd, hprimitive⟩ := Graph.isPrimitive_iff.mp h
  obtain ⟨d', hd', -⟩ := keyed reg r bound token t registered
  rcases hg.grows hd with hdead | ⟨e, he, hgrows⟩
  · rw [hdead] at hd'
    cases hd'
  · exact Graph.isPrimitive_iff.mpr ⟨e, he, hgrows.origin ▸ hprimitive⟩

theorem StartsPrimitive.step_of_lives (h : StartsPrimitive reg s log) {command : Command}
    (lives : ¬ command.endsRegistry reg) {r' : Registry}
    (bound : (s.step command).1.registries[reg]? = some r') :
    ∀ x ∈ (s.logStep reg log command).take Primitive.all.length,
      (s.step command).1.graph.isPrimitive x.type := by
  have hlogged := (h.logged.step command r' bound).1
  cases hr : s.registries[reg]? with
  | none =>
      rw [(tracks_step reg s lives).free hr] at bound
      cases bound
  | some r =>
      obtain ⟨-, first, hfirst⟩ := h.logged r hr
      have hlong : Primitive.all.length ≤ log.length :=
        Registry.length_primitivesFrom first Primitive.all ▸ hfirst.length_le
      rw [logStep_of_lives lives] at hlogged ⊢
      rw [List.take_append_of_le_length hlong]
      intro x hx
      have hget := hlogged.get?_of_mem (List.mem_append_left _ (List.mem_of_mem_take hx))
      exact isPrimitive_of_registered (step_moves s command).continues.1 (h.keyed.step command)
        bound hget (h.primitive r hr x hx)

theorem StartsPrimitive.newRegistry (h : StartsPrimitive reg s log) (origin : Origin)
    {r : Registry}
    (bound : (s.step (.newRegistry origin reg)).1.registries[reg]? = some r) :
    ∀ x ∈ (s.logStep reg log (.newRegistry origin reg)).take Primitive.all.length,
      (s.step (.newRegistry origin reg)).1.graph.isPrimitive x.type := by
  let made := Registry.create s.graph origin
  have hperform : (s.perform (.newRegistry origin reg)).1.graph = made.2 := rfl
  have hmade : made.1 = r := by
    rw [step, registries_settle] at bound
    exact Option.some_inj.mp (Std.TreeMap.getElem?_insert_self.symm.trans bound)
  intro x hx
  rw [logStep, if_pos rfl] at hx
  have hget : made.1.types[x.token]? = some x.type :=
    (Registry.records_create s.graph origin).get?_of_mem (List.mem_of_mem_take hx)
  have hnew : (s.perform (.newRegistry origin reg)).1.graph.isPrimitive x.type :=
    hperform ▸ Registry.isPrimitive_of_create s.graph origin hget
  have hsettle : (s.perform (.newRegistry origin reg)).1.graph.Continues
      (s.step (.newRegistry origin reg)).1.graph :=
    (settle_moves (s.perform (.newRegistry origin reg)).1).continues.1
  -- the registry keeps its types when what nothing owns is released
  exact isPrimitive_of_registered hsettle (h.keyed.step _) bound (hmade ▸ hget) hnew

theorem StartsPrimitive.step (h : StartsPrimitive reg s log) (command : Command) :
    StartsPrimitive reg (s.step command).1 (s.logStep reg log command) := by
  refine ⟨h.keyed.step command, h.logged.step command, fun r' bound => ?_⟩
  by_cases hlives : command.endsRegistry reg
  · cases command with
    | newRegistry origin bindTo =>
        obtain rfl : bindTo = reg := hlives
        exact h.newRegistry origin bound
    | drop kind name =>
        cases kind with
        | registry =>
            obtain rfl : name = reg := hlives
            rw [logStep, if_pos rfl]
            exact fun x hx => absurd hx List.not_mem_nil
        | _ => exact hlives.elim
    | _ => exact hlives.elim
  · exact h.step_of_lives hlives bound

theorem StartsPrimitive.run (h : StartsPrimitive reg s log) (commands : List Command) :
    StartsPrimitive reg (s.run commands) (logAfter reg s log commands) := by
  induction commands generalizing s log with
  | nil => exact h
  | cons command commands ih => exact ih (h.step command)

theorem startsPrimitive_run (reg : String) (commands : List Command) :
    StartsPrimitive reg (empty.run commands) (registrationsOf reg commands) := by
  refine StartsPrimitive.run (s := empty) ⟨keyed_of_reachable ⟨[], rfl⟩, logged_run reg [], ?_⟩
    commands
  intro r hr
  simp at hr

end Runs

/-! ### What a matching covers -/

/-- Some types, each listed once, are all of a registry but those that it has registered itself
and those that commands have registered with a primitive origin. -/
structure Covers (commands : List Command) (reg : String) (r : Registry) (covered : List TypeId) :
    Prop where
  registered : r.all.Perm (ownTypes reg commands ++ requestedTypes reg commands)
  own : (ownTypes reg commands).length = Primitive.all.length ∧
    ∀ t ∈ ownTypes reg commands, t ∉ covered
  requested : covered.Perm
    ((requestedTypes reg commands).filter (!(empty.run commands).graph.isPrimitive ·))
  once : covered.Nodup
  complete : covered.Perm (requestedTypes reg commands) ↔
    ∀ t ∈ requestedTypes reg commands, (empty.run commands).graph.isPrimitive t = false

theorem covers_of_perm {commands : List Command} {reg : String} {r : Registry}
    {covered : List TypeId} (bound : (empty.run commands).registries[reg]? = some r)
    (h : covered.Perm (r.declared (empty.run commands).graph)) :
    Covers commands reg r covered := by
  obtain ⟨hkeyed, hlogged, hprimitive⟩ := startsPrimitive_run reg commands
  obtain ⟨hrecords, first, hfirst⟩ := hlogged r bound
  have hregistered : r.all.Perm (ownTypes reg commands ++ requestedTypes reg commands) := by
    rw [ownTypes, requestedTypes, ← List.map_append, List.take_append_drop]
    exact hrecords.all_perm
  have hown : ∀ t ∈ ownTypes reg commands, (empty.run commands).graph.isPrimitive t := by
    intro t ht
    obtain ⟨x, hx, rfl⟩ := List.mem_map.mp ht
    exact hprimitive r bound x hx
  have hrequested : covered.Perm
      ((requestedTypes reg commands).filter (!(empty.run commands).graph.isPrimitive ·)) := by
    rw [(hkeyed reg r bound).declared_eq] at h
    refine h.trans ((hregistered.filter _).trans ?_)
    rw [List.filter_append, List.filter_eq_nil_iff.mpr fun t ht => by simp [hown t ht],
      List.nil_append]
  refine ⟨hregistered, ⟨?_, fun t ht hcovered => ?_⟩, hrequested, ?_, fun hall => ?_,
    fun hnone => ?_⟩
  · rw [ownTypes, List.length_map, List.length_take]
    exact Nat.min_eq_left (Registry.length_primitivesFrom first Primitive.all ▸ hfirst.length_le)
  · have hnot := (List.mem_filter.mp (hrequested.mem_iff.mp hcovered)).2
    simp [hown t ht] at hnot
  · exact h.nodup_iff.mpr ((hkeyed reg r bound).declared_ascending.imp Graph.TokenLT.ne)
  · intro t ht
    simpa using (List.mem_filter.mp (hrequested.mem_iff.mp (hall.mem_iff.mpr ht))).2
  · refine hrequested.trans ?_
    rw [List.filter_eq_self.mpr fun t ht => by simp [hnone t ht]]

/-- A matching of two registries covers, on each side, each requested type once that is not of
primitive origin, in a pair or among those that are left over, and nothing else. So it covers
every type that commands have registered exactly if they have registered none with a primitive
origin. -/
theorem matchTypes_covers (commands : List Command) {left right : String} {l r : Registry}
    (hl : (empty.run commands).registries[left]? = some l)
    (hr : (empty.run commands).registries[right]? = some r) (hashName : String → UInt64) :
    let found := (empty.run commands).graph.matchTypes hashName l r
    Covers commands left l (found.pairs.map (·.1) ++ found.unmatchedLeft) ∧
      Covers commands right r (found.pairs.map (·.2) ++ found.unmatchedRight) := by
  intro found
  obtain ⟨-, -, hrank, -⟩ := matchTypes_byRank ⟨commands, rfl⟩ hl hr hashName
  exact ⟨covers_of_perm hl hrank.left_perm, covers_of_perm hr hrank.right_perm⟩

/-- Two registries, the first of which is given a type and a reference whose source is said to
be a primitive one. -/
def primitiveReference : List Command :=
  [.newRegistry (.module "Lib.dll") "l", .newRegistry (.module "Lib.dll") "r",
    .createType "l" "N" "A" 0 (some "a"), .createRef "l" "System" "Int64" .primitive (some "i")]

theorem covers_of_primitiveReference :
    ∃ l r, (empty.run primitiveReference).registries["l"]? = some l ∧
      (empty.run primitiveReference).registries["r"]? = some r ∧
      let found := (empty.run primitiveReference).graph.matchTypes (fun _ => 0) l r
      Covers primitiveReference "l" l (found.pairs.map (·.1) ++ found.unmatchedLeft) ∧
        Covers primitiveReference "r" r (found.pairs.map (·.2) ++ found.unmatchedRight) := by
  have hleft : (empty.run primitiveReference).registries["l"]?.isSome := by decide +kernel
  have hright : (empty.run primitiveReference).registries["r"]?.isSome := by decide +kernel
  obtain ⟨l, hl⟩ := Option.isSome_iff_exists.mp hleft
  obtain ⟨r, hr⟩ := Option.isSome_iff_exists.mp hright
  exact ⟨l, r, hl, hr, matchTypes_covers primitiveReference hl hr _⟩

/-- Whatever commands have registered in one of two registries is matched or left over. -/
def CoversAllRequested (commands : List Command) : Prop :=
  ∀ (left right : String) (l r : Registry),
    (empty.run commands).registries[left]? = some l →
    (empty.run commands).registries[right]? = some r → ∀ hashName : String → UInt64,
    let found := (empty.run commands).graph.matchTypes hashName l r
    (∀ t ∈ requestedTypes left commands, t ∈ found.pairs.map (·.1) ++ found.unmatchedLeft) ∧
      ∀ t ∈ requestedTypes right commands, t ∈ found.pairs.map (·.2) ++ found.unmatchedRight

/-- The reference is requested, and it is neither matched nor left over. -/
theorem matchTypes_not_complete : ¬ CoversAllRequested primitiveReference := by
  intro h
  have hleft : (empty.run primitiveReference).registries["l"]?.isSome := by decide +kernel
  have hright : (empty.run primitiveReference).registries["r"]?.isSome := by decide +kernel
  have hrequested : (⟨13⟩ : TypeId) ∈ requestedTypes "l" primitiveReference := by decide +kernel
  have hmissing : ∀ (hl : (empty.run primitiveReference).registries["l"]?.isSome)
      (hr : (empty.run primitiveReference).registries["r"]?.isSome),
      let found := (empty.run primitiveReference).graph.matchTypes (fun _ => 0)
        ((empty.run primitiveReference).registries["l"]?.get hl)
        ((empty.run primitiveReference).registries["r"]?.get hr)
      (⟨13⟩ : TypeId) ∉ found.pairs.map (·.1) ++ found.unmatchedLeft := by
    decide +kernel
  exact hmissing hleft hright ((h "l" "r" _ _ (Option.some_get hleft).symm
    (Option.some_get hright).symm (fun _ => 0)).1 _ hrequested)

end Session

end AssemblyGraph
