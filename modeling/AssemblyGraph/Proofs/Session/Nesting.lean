import AssemblyGraph.Proofs.Registry.Nesting
import AssemblyGraph.Proofs.Session.Handles
import AssemblyGraph.Proofs.Session.Owners

/-!
The nestings that commands make.

Types are created in other types by a command of its own and by chains, through any registry. The
log of a run has one entry for each attempt that has succeeded. What the living types list, and
how the listed types are linked back, is told by this log alone: no other command writes into a
list, also not one that fails, that registers a type or that links a type to an enclosing one.
-/

namespace AssemblyGraph.Session

/-! ### Nestings -/

/-- The nesting that one link of a chain makes. -/
def linkNestings (s : Session) (place : ChainPlace) (name : String) (enclosing? : Option TypeId) :
    List Nesting :=
  match place with
  | .free .. => []
  | .registered reg _ => (s.registries[reg]?).elim [] fun r => enclosing?.elim [] fun e =>
      (r.createNested s.graph e name 0).nestings e

/-- The nestings of a chain, up to the first link that is refused. -/
def chainNestings (place : ChainPlace) (names : Array String) (bindTo : String) :
    Nat → Nat → Option TypeId → Session → List Nesting
  | 0, _, _, _ => []
  | left + 1, number, last?, s =>
      let name := names.getD (number % names.size) ""
      let link := s.createLink place number name last?
      s.linkNestings place name last? ++
        match link.2 with
        | .error _ => []
        | .ok t => chainNestings place names bindTo left (number + 1) (some t)
            ((link.1.bindType (some (bindTo ++ toString number)) t).releaseReplaced place)

/-- The nestings that a command makes. -/
def nestings (s : Session) : Command → List Nesting
  | .createNested reg enclosing name flags _ =>
      (s.registries[reg]?).elim [] fun r => (s.types[enclosing]?).elim [] fun e =>
        (r.createNested s.graph e name flags).nestings e
  | .chain times names enclosing? place bindTo =>
      enclosing?.elim (chainNestings place names.toArray bindTo times 0 none s)
        fun enclosing => (s.types[enclosing]?).elim []
          fun e => chainNestings place names.toArray bindTo times 0 (some e) s
  | _ => []

/-- The nestings that several commands make, in their order. -/
def nestingLog (s : Session) : List Command → List Nesting
  | [] => []
  | command :: commands => s.nestings command ++ (s.step command).1.nestingLog commands

/-! ### Commands -/

variable {s : Session} {log : List Nesting}

/-- What is bound to a name of a type has a place in the graph. -/
theorem OwnersAlive.index_lt_of_type (alive : s.OwnersAlive) {name : String} {t : TypeId}
    (bound : s.types[name]? = some t) : t.index < s.graph.types.size :=
  Graph.index_lt_of_alive (alive.of_held (held_of_type bound))

/-- A relation that everything that commands do to a graph is in, along with the nestings that
they make, but for the commands that change a type that is there. -/
structure NestingFrame (R : List Nesting → Graph → Graph → Prop) : Prop where
  flat : Graph.FlatFrame (R [])
  trans : ∀ {log log' : List Nesting} {g g' g'' : Graph}, R log g g' → R log' g' g'' →
    R (log ++ log') g g''
  size : ∀ {log : List Nesting} {g g' : Graph}, R log g g' → g.types.size ≤ g'.types.size
  addType : ∀ (g : Graph) {d : TypeDecl}, d.Blank →
    (∀ e, d.enclosing? = some e → e.index < g.types.size) → R [] g (g.addType d).1
  createNested : ∀ (r : Registry) (g : Graph) {e : TypeId}, e.index < g.types.size →
    ∀ (name : String) (flags : UInt32),
      R ((r.createNested g e name flags).nestings e) g (r.createNested g e name flags).graph

namespace NestingFrame

variable {R : List Nesting → Graph → Graph → Prop} (frame : NestingFrame R)
include frame

theorem refl (g : Graph) : R [] g g :=
  frame.flat.of_types rfl

theorem settle (s : Session) : R [] s.graph s.settle.graph :=
  frame_settle frame.flat s

theorem find {α : Type} {bindings : Bindings α} {name : String} {next : α → Outcome}
    (absent : bindings[name]? = none → log = [])
    (h : ∀ a, bindings[name]? = some a → R log s.graph (next a).1.graph) :
    R log s.graph (s.find bindings name next).1.graph := by
  rw [Session.find]
  cases ha : bindings[name]? with
  | none =>
      rw [absent ha]
      exact frame.refl s.graph
  | some a => exact h a ha

theorem createLink (s : Session) (place : ChainPlace) (number : Nat) (name : String)
    {enclosing? : Option TypeId} (known : ∀ e ∈ enclosing?, e.index < s.graph.types.size) :
    R (s.linkNestings place name enclosing?) s.graph
      (s.createLink place number name enclosing?).1.graph := by
  cases place with
  | free => exact frame.addType s.graph ⟨rfl, rfl, rfl⟩ known
  | registered reg namespaceName =>
      rw [linkNestings, Session.createLink]
      cases s.registries[reg]? with
      | none => exact frame.refl s.graph
      | some r =>
          cases enclosing? with
          | none => exact frame.flat.register _ s.graph ⟨rfl, rfl, rfl⟩ rfl
          | some e => exact frame.createNested r s.graph (known e rfl) name 0

/-- By induction on the number of links that are left. Each link is alive when the next one is
created in it. -/
theorem extendChain (place : ChainPlace) (names : Array String) (bindTo : String)
    (left number : Nat) {last? : Option TypeId} {s : Session}
    (known : ∀ e ∈ last?, e.index < s.graph.types.size) :
    R (chainNestings place names bindTo left number last? s) s.graph
      (extendChain place names bindTo left number last? s).1.graph := by
  induction left generalizing number last? s with
  | zero => exact frame.settle s
  | succ left ih =>
      let name := names.getD (number % names.size) ""
      have hlink := frame.createLink s place number name known
      have halive : ∀ t, (s.createLink place number name last?).2 = .ok t → _ :=
        fun _ => isAlive_of_createLink
      rw [Session.extendChain, chainNestings]
      cases hmade : s.createLink place number name last? with
      | mk s' result =>
          rw [hmade] at hlink halive
          cases result with
          | error fault =>
              rw [List.append_nil]
              exact hlink
          | ok t =>
              have hbound : R [] s'.graph ((s'.bindType (some (bindTo ++ toString number))
                  t).releaseReplaced place).graph := by
                cases place with
                | free => exact frame.flat.of_types rfl
                | registered => exact frame.settle (s'.bindType (some _) t)
              refine frame.trans hlink (frame.trans hbound (ih (number + 1) ?_))
              rintro e ⟨⟩
              exact Nat.lt_of_lt_of_le (Graph.index_lt_of_alive (halive t rfl)) (frame.size hbound)

theorem chain (alive : s.OwnersAlive) (times : Nat) (names : List String)
    (enclosing? : Option String) (place : ChainPlace) (bindTo : String) :
    R (s.nestings (.chain times names enclosing? place bindTo)) s.graph
      (s.chain times names enclosing? place bindTo).1.graph := by
  have hplace : ∀ last? : Option TypeId, (∀ e ∈ last?, e.index < s.graph.types.size) →
      R (chainNestings place names.toArray bindTo times 0 last? s) s.graph
        (s.findPlace place
          (Session.extendChain place names.toArray bindTo times 0 last?)).1.graph := by
    intro last? hknown
    have hchain := frame.extendChain place names.toArray bindTo times 0 hknown
    cases place with
    | free => exact hchain
    | registered reg namespaceName =>
        refine frame.find (fun hr => ?_) fun _ _ => hchain
        -- the first link already finds that there is no registry
        cases times with
        | zero => rfl
        | succ left =>
            rw [chainNestings, linkNestings, Session.createLink, hr]
            rfl
  cases enclosing? with
  | none => exact hplace none (by simp)
  | some enclosing =>
      refine frame.find (fun he => by simp [nestings, he]) fun e he => ?_
      simp only [nestings, he, Option.elim_some]
      refine hplace (some e) ?_
      rintro _ ⟨⟩
      exact alive.index_lt_of_type he

/-- What a command does to the graph is in a relation that its parts are in. The commands that
change a type that is there are left to the caller. -/
theorem perform (alive : s.OwnersAlive) (command : Command)
    (changes : command.changesType = true → R [] s.graph (s.perform command).1.graph) :
    R (s.nestings command) s.graph (s.perform command).1.graph := by
  cases command with
  | setEnclosing | setDefinition | addGenericParam | attach => exact changes rfl
  | createNested reg enclosing name flags bindTo? =>
      refine frame.find (fun hr => by simp [nestings, hr]) fun r hr =>
        frame.find (fun he => by simp [nestings, hr, he]) fun e he => ?_
      simp only [nestings, hr, he, Option.elim_some, graph_finishCreation]
      exact frame.createNested r s.graph (alive.index_lt_of_type he) name flags
  | chain times names enclosing? place bindTo =>
      exact frame.chain alive times names enclosing? place bindTo
  | _ => exact flatFrame_perform frame.flat s _ nofun nofun

theorem step (alive : s.OwnersAlive) (command : Command)
    (changes : command.changesType = true → R [] s.graph (s.perform command).1.graph) :
    R (s.nestings command) s.graph (s.step command).1.graph := by
  have hstep := frame.trans (frame.perform alive command changes)
    (frame.settle (s.perform command).1)
  rwa [List.append_nil] at hstep

end NestingFrame

theorem nests_frame : NestingFrame fun log g g' => g.Nests log g' where
  flat := Graph.nests_flatFrame
  trans := .trans
  size h := h.continues.size
  addType g _ blank _ := g.nests_addType blank.unlinked blank.flat
  createNested r g _ known name flags := r.nests_createNested g known name flags

/-- A command makes its nestings and leaves all lists alone otherwise. -/
theorem nests_step (alive : s.OwnersAlive) (command : Command) :
    s.graph.Nests (s.nestings command) (s.step command).1.graph := by
  refine nests_frame.step alive command fun changes => ?_
  let Q : Session → Prop := fun s' => s.graph.Nests [] s'.graph
  have hs : Q s := .refl s.graph
  cases command with
  | setEnclosing =>
      exact find_keeps (P := Q) hs fun _ _ => find_keeps (P := Q) hs fun _ _ =>
        attempt_keeps (P := Q) hs fun _ hset => s.graph.nests_setEnclosing hset
  | setDefinition =>
      exact find_keeps (P := Q) hs fun _ _ => find_keeps (P := Q) hs fun _ _ =>
        attempt_keeps (P := Q) hs fun _ hset => s.graph.nests_setDefinition hset
  | addGenericParam =>
      exact find_keeps (P := Q) hs fun r _ => find_keeps (P := Q) hs fun t _ =>
        .modifyType s.graph (s.graph.continues_pushGenericParam t _) fun _ => by rfl
  | attach =>
      exact find_keeps (P := Q) hs fun t _ => find_keeps (P := Q) hs fun record _ =>
        .modifyType s.graph (s.graph.continues_attach t record) fun _ => by rfl
  | _ => cases changes

/-! ### Runs -/

/-- By induction on the commands that are still to come. -/
theorem nests_run (before commands : List Command) :
    (empty.run before).graph.Nests ((empty.run before).nestingLog commands)
      (empty.run (before ++ commands)).graph := by
  induction commands generalizing before with
  | nil =>
      rw [List.append_nil]
      exact .refl _
  | cons command commands ih =>
      have hstep := nests_step (sound_of_run before).1 command
      have hrest := ih (before ++ [command])
      rw [List.append_assoc, List.singleton_append, run_append] at hrest
      exact hstep.trans hrest

/-! ### Commands that leave every list as it is -/

/-- No type lists others than before. -/
def SameNested (s s' : Session) : Prop :=
  ∀ t, s'.graph.nested? t = s.graph.nested? t

/-- What keeps all owners and brings no type into being leaves nothing to release. -/
theorem KeepsOwners.settle_eq_self {s s' : Session} (h : s.KeepsOwners s') (settled : s.Settled)
    (recorded : s.Recorded) (older : ∀ t, s'.graph.isAlive t → s.graph.isAlive t) :
    s'.settle = s' :=
  Settled.settle_eq_self fun t ht => h.mem_ownedTypes recorded (settled t (older t ht))

theorem SameNested.isAlive_iff {s s' : Session} (h : s.SameNested s') (t : TypeId) :
    s'.graph.isAlive t ↔ s.graph.isAlive t := by
  have hsome := congrArg Option.isSome (h t)
  rw [Graph.nested?, Graph.nested?, Option.isSome_map, Option.isSome_map] at hsome
  rw [Graph.isAlive, Graph.isAlive, hsome]

/-- All owners are where they were, and no type lists others than before. -/
def LeavesNested (s s' : Session) : Prop :=
  s.KeepsOwners s' ∧ s.SameNested s'

theorem LeavesNested.refl (s : Session) : s.LeavesNested s :=
  ⟨.refl s, fun _ => rfl⟩

/-- So the step releases nothing, and what it has left alone is still there. -/
theorem LeavesNested.step {commands : List Command} {command : Command}
    (h : (empty.run commands).LeavesNested ((empty.run commands).perform command).1) :
    (empty.run commands).SameNested ((empty.run commands).step command).1 := by
  obtain ⟨hkeeps, hsame⟩ := h
  have hsettle := hkeeps.settle_eq_self (settled_run commands) (recorded_run commands)
    fun t ht => (hsame.isAlive_iff t).mp ht
  intro t
  rw [← hsame t]
  exact congrArg (fun s => s.graph.nested? t) hsettle

/-- A type that is refused is not listed, whatever name it was to be bound to. -/
theorem leavesNested_createNested {s : Session} {reg enclosing name : String} {flags : UInt32}
    {bindTo? : Option String} {fault : Fault}
    (fails : (s.createNested reg enclosing name flags bindTo?).2 = .error fault) :
    s.LeavesNested (s.createNested reg enclosing name flags bindTo?).1 := by
  rw [createNested, find] at fails ⊢
  cases hr : s.registries[reg]? with
  | none => exact .refl s
  | some r =>
      rw [hr] at fails
      simp only [find] at fails ⊢
      cases he : s.types[enclosing]? with
      | none => exact .refl s
      | some e =>
          rw [he] at fails
          have hbecomes := r.becomes_createNested s.graph e name flags
          rcases r.createNested_cases s.graph e name flags with ⟨-, hrefused⟩ | ⟨-, hmade⟩
          · simp only [hrefused] at hbecomes ⊢
            exact ⟨(KeepsOwners.refl s).withRegistry hr hbecomes (.refl _), fun _ => rfl⟩
          · simp only [hmade] at fails
            cases fails

theorem leavesNested_insert (s : Session) (reg type : String) :
    s.LeavesNested (s.insert reg type).1 :=
  find_keeps (P := s.LeavesNested) (.refl s) fun _ hr =>
    find_keeps (P := s.LeavesNested) (.refl s) fun _ _ =>
      attempt_keeps (P := s.LeavesNested) (.refl s) fun _ hinsert =>
        ⟨(KeepsOwners.refl s).withRegistry hr (Registry.becomes_insert hinsert) (.refl _),
          fun _ => rfl⟩

theorem leavesNested_setEnclosing (s : Session) (type enclosing : String) :
    s.LeavesNested (s.setEnclosing type enclosing).1 :=
  find_keeps (P := s.LeavesNested) (.refl s) fun _ _ =>
    find_keeps (P := s.LeavesNested) (.refl s) fun _ _ =>
      attempt_keeps (P := s.LeavesNested) (.refl s) fun _ hset =>
        ⟨(KeepsOwners.refl s).withGraph (s.graph.keepsTypes_setEnclosing hset),
          s.graph.nested?_setEnclosing hset⟩

/-- What a living type lists are the types that were created in it through any registry, each
once and in their order. Those that are still alive are nested in it and have no namespace. An
attempt to create one that fails, a registration of a type and a link that is set or refused
leave all lists as they are. -/
theorem nested_of_run (commands : List Command) :
    let s := empty.run commands
    (∀ t d, s.graph.type? t = some d →
      d.nested = Nesting.within t (empty.nestingLog commands) ∧ d.nested.Nodup ∧
      ∀ u ∈ d.nested, ∀ e, s.graph.type? u = some e →
        e.isNested = true ∧ s.graph.enclosing? u = some t ∧ e.namespaceName = "") ∧
    (∀ reg enclosing name flags bindTo? fault,
      (s.step (.createNested reg enclosing name flags bindTo?)).2 = .error fault →
        s.SameNested (s.step (.createNested reg enclosing name flags bindTo?)).1) ∧
    (∀ reg type, s.SameNested (s.step (.insert reg type)).1) ∧
    ∀ type enclosing, s.SameNested (s.step (.setEnclosing type enclosing)).1 := by
  intro s
  have hlog : empty.graph.Nests (empty.nestingLog commands) s.graph := nests_run [] commands
  refine ⟨fun t d hd => ?_, fun _ _ _ _ _ _ fails => ?_, fun reg type => ?_,
    fun type enclosing => ?_⟩
  · have hlist : d.nested = Nesting.within t (empty.nestingLog commands) :=
      hlog.lists t d.nested (congrArg (Option.map TypeDecl.nested) hd)
    refine ⟨hlist, ?_, fun u hu e he => ?_⟩
    · rw [hlist]
      exact hlog.distinct.sublist (List.filter_sublist.map Nesting.type)
    · rw [hlist, Nesting.mem_within] at hu
      obtain ⟨henclosing, hnamespace⟩ := hlog.linked _ hu e he
      refine ⟨by rw [TypeDecl.isNested, henclosing]; rfl, ?_, hnamespace⟩
      rw [Graph.enclosing?, he, Option.bind_some, henclosing]
      exact Graph.follow?_eq_some_iff.mpr ⟨rfl, Graph.isAlive_iff.mpr ⟨d, hd⟩⟩
  · exact (leavesNested_createNested fails).step
  · exact (leavesNested_insert s reg type).step
  · exact (leavesNested_setEnclosing s type enclosing).step

/-- A type has two nested types from different registries, and the second one is released with
its registry. The next row of the first registry is taken by a type that was made by hand. -/
def takenNested : List Command := [
  .newRegistry (.module "lib") "r", .newRegistry (.module "app") "q",
  .createType "r" "N" "A" 0 (some "a"), .createNested "r" "a" "B" 0 (some "b"),
  .createNested "q" "a" "C" 0 (some "c"),
  .newType ⟨.inTable .typeDef 3, "N", "X", 0, .unknown⟩ (some "x"), .insert "r" "x",
  .drop .type "c", .drop .registry "q"]

/-- The type goes on to list both, also when a third one is refused. -/
theorem nested_of_takenNested :
    let s := empty.run takenNested
    let refused := s.step (.createNested "r" "a" "D" 0 (some "b"))
    s.graph.nested? ⟨12⟩ = some [⟨13⟩, ⟨14⟩] ∧ s.graph.enclosing? ⟨13⟩ = some ⟨12⟩ ∧
      s.graph.isAlive ⟨14⟩ = false ∧ refused.2.toBool = false ∧
      refused.1.graph.nested? ⟨12⟩ = some [⟨13⟩, ⟨14⟩] := by
  intro s refused
  obtain ⟨hlists, hfails, -⟩ := nested_of_run takenNested
  have hrefused : refused.2.toBool = false := by decide +kernel
  obtain ⟨fault, hfault⟩ := toBool_eq_false_iff.mp hrefused
  have ⟨d, hd⟩ := Graph.isAlive_iff.mp (show s.graph.isAlive ⟨12⟩ by decide +kernel)
  have ⟨e, he⟩ := Graph.isAlive_iff.mp (show s.graph.isAlive ⟨13⟩ by decide +kernel)
  obtain ⟨hlog, -, hlinked⟩ := hlists ⟨12⟩ d hd
  have hlist : d.nested = [⟨13⟩, ⟨14⟩] := hlog.trans (by decide +kernel)
  have hnested : s.graph.nested? ⟨12⟩ = some [⟨13⟩, ⟨14⟩] := by
    rw [Graph.nested?, hd, Option.map_some, hlist]
  obtain ⟨-, henclosing, -⟩ := hlinked ⟨13⟩ (by simp [hlist]) e he
  exact ⟨hnested, henclosing, by decide +kernel, hrefused,
    (hfails _ _ _ _ _ _ hfault ⟨12⟩).trans hnested⟩

end AssemblyGraph.Session
