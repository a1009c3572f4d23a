import AssemblyGraph.Proofs.Session.Keyed
import AssemblyGraph.Proofs.Session.Settled

/-!
What is owned is alive.

A command gets at a type through an owner of it or through a link to a living type, so
whatever is bound or attached owns living types, and only what nothing owns is released.
In a state between two commands the living types are then exactly the owned ones. And no
type is nested in one that is not there yet, so no type that a chain has ended at comes
to life later.
-/

namespace AssemblyGraph.Session

variable {s s' : Session} {rs : List Referral} {name : String}

/-- Every type that is owned is alive. -/
def OwnersAlive (s : Session) : Prop :=
  ∀ t ∈ s.ownedTypes, s.graph.isAlive t

theorem OwnersAlive.of_held (h : s.OwnersAlive) {t : TypeId} (held : s.Held t) :
    s.graph.isAlive t :=
  held.elim (h t) id

/-! ### What a move can bind or attach -/

theorem Move.types_cases (h : Move s rs s') {t : TypeId} (bound : s'.types[name]? = some t) :
    s.types[name]? = some t ∨ s.Held t := by
  cases h with
  | bindType name' held =>
      rcases OrderedMap.eq_or_getElem?_of_insert bound with rfl | hbefore
      · exact .inr held
      · exact .inl hbefore
  | unbind kind name' =>
      cases kind with
      | type => exact .inl (OrderedMap.getElem?_of_erase bound)
      | _ => exact .inl bound
  | _ => exact .inl bound

theorem Move.tables_cases (h : Move s rs s') {table : WellKnownTable}
    (bound : s'.tables[name]? = some table) :
    s.tables[name]? = some table ∨ ∀ t ∈ table.ownedTypes, s.Held t := by
  cases h with
  | bindTable name' held =>
      rcases OrderedMap.eq_or_getElem?_of_insert bound with rfl | hbefore
      · exact .inr held
      · exact .inl hbefore
  | unbind kind name' =>
      cases kind with
      | table => exact .inl (OrderedMap.getElem?_of_erase bound)
      | _ => exact .inl bound
  | _ => exact .inl bound

theorem Move.factories_cases (h : Move s rs s') {f : Factory}
    (bound : s'.factories[name]? = some f) :
    s.factories[name]? = some f ∨ ∀ t ∈ f.ownedTypes, s.Held t := by
  cases h with
  | bindFactory name' held =>
      rcases OrderedMap.eq_or_getElem?_of_insert bound with rfl | hbefore
      · exact .inr held
      · exact .inl hbefore
  | unbind kind name' =>
      cases kind with
      | factory => exact .inl (OrderedMap.getElem?_of_erase bound)
      | _ => exact .inl bound
  | _ => exact .inl bound

theorem Move.records_cases (h : Move s rs s') {record : AttributeRecord}
    (bound : s'.records[name]? = some record) :
    s.records[name]? = some record ∨ ∀ t ∈ record.ownedTypes, s.Held t := by
  cases h with
  | bindRecord name' held =>
      rcases OrderedMap.eq_or_getElem?_of_insert bound with rfl | hbefore
      · exact .inr held
      · exact .inl hbefore
  | unbind kind name' =>
      cases kind with
      | record => exact .inl (OrderedMap.getElem?_of_erase bound)
      | _ => exact .inl bound
  | _ => exact .inl bound

/-- A move builds on the graph, or it nests a type or attaches a record. -/
theorem Move.graph_cases (h : Move s rs s') (alive : s.OwnersAlive) :
    s.graph.BuildsOn s'.graph ∨
    (∃ t e, s.Held e ∧ s.graph.setEnclosing t e = .ok s'.graph) ∨
    ∃ t record, (∀ u ∈ record.ownedTypes, s.Held u) ∧ s'.graph = s.graph.attach t record := by
  have known : ∀ {e}, s.Held e → e.index < s.graph.types.size :=
    fun held => Graph.index_lt_of_alive (alive.of_held held)
  cases h with
  | addType header held =>
      exact .inl (s.graph.buildsOn_addType rfl fun e he => known (held e he))
  | pushMethod m => exact .inl (s.graph.buildsOn_pushMethod _ m)
  | setEnclosing _ held' set => exact .inr (.inl ⟨_, _, held', set⟩)
  | setDefinition _ _ set => exact .inl (s.graph.buildsOn_setDefinition set)
  | attach _ held' => exact .inr (.inr ⟨_, _, held', rfl⟩)
  | newRegistry name origin => exact .inl (Registry.buildsOn_create s.graph origin)
  | createType => exact .inl (Registry.buildsOn_register _ s.graph rfl nofun)
  | createNested _ held => exact .inl (Registry.buildsOn_createNested _ s.graph (known held) _ _)
  | createRef => exact .inl (Registry.buildsOn_register _ s.graph rfl nofun)
  | addGenericParam => exact .inl (s.graph.buildsOn_pushGenericParam _ _)
  | createMethod => exact .inl (Registry.buildsOn_createMethod _ s.graph _ _ _ _)
  | release => exact .inl (s.graph.buildsOn_retain _)
  | unbind kind => exact .inl (by cases kind <;> exact .refl s.graph)
  | _ => exact .inl (.of_eq rfl)

theorem Move.attached_cases (h : Move s rs s') (alive : s.OwnersAlive) {t : TypeId}
    (ht : t ∈ s'.graph.attachedTypes) : t ∈ s.graph.attachedTypes ∨ s.Held t := by
  rcases h.graph_cases alive with hbuild | ⟨u, e, -, set⟩ | ⟨u, record, held, hattach⟩
  · exact .inl (hbuild.mem_attachedTypes ht)
  · exact .inl (Graph.mem_attachedTypes_setEnclosing set ht)
  · rw [hattach] at ht
    exact (Graph.mem_attachedTypes_attach ht).imp_right (held t)

/-! ### What every run keeps -/

/-- What is owned after a move was held before it, or it is in a registry. -/
theorem Move.held_of_owned (h : Move s rs s') (alive : s.OwnersAlive) (keyed : s'.Keyed)
    {t : TypeId} (ht : s'.Owned t) : s.Held t ∨ s'.graph.isAlive t := by
  cases ht with
  | type bound => exact .inl ((h.types_cases bound).elim held_of_type id)
  | registry bound mem =>
      obtain ⟨token, htoken⟩ := Registry.mem_all_iff.mp mem
      obtain ⟨d, hd, -⟩ := keyed _ _ bound token t htoken
      exact .inr (Graph.isAlive_iff.mpr ⟨d, hd⟩)
  | table bound mem =>
      exact .inl ((h.tables_cases bound).elim (held_of_table · mem) (· t mem))
  | factory bound mem =>
      exact .inl ((h.factories_cases bound).elim (held_of_factory · mem) (· t mem))
  | record bound mem =>
      exact .inl ((h.records_cases bound).elim (held_of_record · mem) (· t mem))
  | attached mem => exact .inl ((h.attached_cases alive mem).elim (Owned.held <| .attached ·) id)

theorem Move.ownersAlive (h : Move s rs s') (alive : s.OwnersAlive) (keyed : s'.Keyed) :
    s'.OwnersAlive := by
  intro t ht
  rcases h.keepsTypes with hkeeps | rfl
  · rcases h.held_of_owned alive keyed (mem_ownedTypes_iff.mp ht) with held | halive
    · obtain ⟨d, hd⟩ := Graph.isAlive_iff.mp (alive.of_held held)
      obtain ⟨d', hd', -⟩ := hkeeps t d hd
      exact Graph.isAlive_iff.mpr ⟨d', hd'⟩
    · exact halive
  · -- a sweep takes owners away and adds none, and releases nothing that they own
    have howned := mem_ownedTypes_of_sweep ht
    obtain ⟨d, hd⟩ := Graph.isAlive_iff.mp (alive t howned)
    refine Graph.isAlive_iff.mpr ⟨d, ?_⟩
    exact (Graph.type?_retain s.graph s.ownedTypes t).trans ((if_pos howned).trans hd)

theorem Move.grounded (h : Move s rs s') (alive : s.OwnersAlive) (grounded : s.graph.Grounded) :
    s'.graph.Grounded := by
  rcases h.graph_cases alive with hbuild | ⟨t, e, held, set⟩ | ⟨t, record, -, hattach⟩
  · exact grounded.build hbuild
  · exact grounded.setEnclosing (Graph.index_lt_of_alive (alive.of_held held)) set
  · rw [hattach]
    exact grounded.attach t record

theorem sound_of_run (commands : List Command) :
    (empty.run commands).OwnersAlive ∧ (empty.run commands).graph.Grounded := by
  have hkept := (run_moves empty commands).invariant
    (P := fun s => s.Keyed ∧ s.OwnersAlive ∧ s.graph.Grounded)
    (fun hmove ⟨hkeyed, halive, hgrounded⟩ =>
      have hkeyed' := hmove.keyed hkeyed
      ⟨hkeyed', hmove.ownersAlive halive hkeyed', hmove.grounded halive hgrounded⟩)
    ⟨keyed_of_reachable ⟨[], rfl⟩, ?_, ?_⟩
  · exact hkept.2
  · intro t ht
    have hnone : (empty.ownedTypes : List TypeId) = [] := rfl
    rw [hnone] at ht
    cases ht
  · intro t d e hd
    simp at hd

/-- Between two commands the living types are the owned ones. -/
theorem isAlive_iff_owned (commands : List Command) (t : TypeId) :
    (empty.run commands).graph.isAlive t ↔ t ∈ (empty.run commands).ownedTypes :=
  ⟨settled_run commands t, (sound_of_run commands).1 t⟩

/-- What is owned after a command is alive. -/
theorem isAlive_of_step {commands : List Command} (hs : s = empty.run commands)
    {command : Command} {t : TypeId} (owned : (s.step command).1.Owned t) :
    (s.step command).1.graph.isAlive t := by
  have hrun : (s.step command).1 = empty.run (commands ++ [command]) := by
    rw [run_append, hs]
    rfl
  rw [hrun] at owned ⊢
  exact (sound_of_run _).1 t (mem_ownedTypes_iff.mpr owned)

end AssemblyGraph.Session
