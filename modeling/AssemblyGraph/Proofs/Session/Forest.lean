import AssemblyGraph.Proofs.Graph.Forest
import AssemblyGraph.Proofs.Session.Cycles
import AssemblyGraph.Proofs.Session.Nesting

/-!
Chains of types that have an end.

A type is linked to its enclosing type when it is made, or once by a command that nests a type
that is there. Only that command can close a circle, and it does so only if the type is the other
one or encloses it at that moment. In a run without such a command types enclose each other as in
a forest in every state, whatever has been released in between, and everything that walks along a
chain returns.
-/

namespace AssemblyGraph

/-- A type is nested in another one that it does not enclose. -/
theorem Graph.isForest_setEnclosing {g g' : Graph} {t e : TypeId} (forest : g.IsForest)
    (alive : g.isAlive e) (apart : ¬ g.OnChain e t) (set : g.setEnclosing t e = .ok g') :
    g'.IsForest := by
  rcases g.setEnclosing_cases set with ⟨-, rfl⟩ | ⟨d, hd, -, rfl⟩
  · exact forest
  · have hcases : ∀ a b, (g.modifyType t fun d => { d with enclosing? := some e }).NestedIn a b →
        g.NestedIn a b ∨ (a = t ∧ b = e) := by
      intro a b hab
      obtain ⟨x', hx', hb, hlive⟩ := nestedIn_iff.mp hab
      rw [type?_modifyType] at hx'
      split at hx'
      · obtain ⟨x, -, rfl⟩ := Option.map_eq_some_iff.mp hx'
        exact .inr ⟨‹_›, (Option.some_inj.mp hb).symm⟩
      · have hlive' : g.isAlive b := by
          rw [isAlive, type?_modifyType] at hlive
          split at hlive
          · rwa [Option.isSome_map] at hlive
          · exact hlive
        exact .inl (nestedIn_iff.mpr ⟨x', hx', hb, hlive'⟩)
    intro u hcycle
    rcases Session.path_cases hcases hcycle with hold | ⟨hto, c, rfl, hfrom⟩
    · exact forest u hold
    · exact apart (onChain_of_reflTransGen alive (hfrom.trans hto))

namespace Session

variable {s : Session} {command : Command}

/-! ### Commands -/

/-- A command nests a type in itself or in a type that it encloses. -/
def ClosesChain (s : Session) (command : Command) : Prop :=
  ∃ type enclosing t e, command = .setEnclosing type enclosing ∧ s.types[type]? = some t ∧
    s.types[enclosing]? = some e ∧ s.graph.OnChain e t

theorem keepsNesting_frame : NestingFrame fun _ g g' => g.KeepsNesting g' where
  flat := Graph.keepsNesting_flatFrame
  trans := .trans
  size h := h.size
  addType g _ blank link := (g.buildsOn_addType blank.bare link).keepsNesting
  createNested r g _ known name flags := (r.buildsOn_createNested g known name flags).keepsNesting

theorem keepsNesting_step (alive : s.OwnersAlive)
    (other : ∀ type enclosing, command ≠ .setEnclosing type enclosing) :
    s.graph.KeepsNesting (s.step command).1.graph := by
  refine keepsNesting_frame.step alive command fun changes => ?_
  let Q : Session → Prop := fun s' => s.graph.KeepsNesting s'.graph
  have hs : Q s := keepsNesting_frame.refl s.graph
  cases command with
  | setEnclosing type enclosing => exact absurd rfl (other type enclosing)
  | setDefinition =>
      exact find_keeps (P := Q) hs fun _ _ => find_keeps (P := Q) hs fun _ _ =>
        attempt_keeps (P := Q) hs fun _ hset => (s.graph.buildsOn_setDefinition hset).keepsNesting
  | addGenericParam =>
      exact find_keeps (P := Q) hs fun r _ => find_keeps (P := Q) hs fun t _ =>
        (s.graph.buildsOn_pushGenericParam t _).keepsNesting
  | attach =>
      exact find_keeps (P := Q) hs fun t _ => find_keeps (P := Q) hs fun record _ =>
        s.graph.keepsNesting_attach t record
  | _ => cases changes

theorem isForest_step (alive : s.OwnersAlive) (grounded : s.graph.Grounded)
    (forest : s.graph.IsForest) (apart : ¬ s.ClosesChain command) :
    (s.step command).1.graph.IsForest := by
  by_cases hset : ∃ type enclosing, command = .setEnclosing type enclosing
  · obtain ⟨type, enclosing, rfl⟩ := hset
    have hperform : (s.setEnclosing type enclosing).1.graph.IsForest ∧
        (s.setEnclosing type enclosing).1.graph.Grounded := by
      let Q : Session → Prop := fun s' => s'.graph.IsForest ∧ s'.graph.Grounded
      refine find_keeps (P := Q) ⟨forest, grounded⟩ fun t ht =>
        find_keeps (P := Q) ⟨forest, grounded⟩ fun e he =>
          attempt_keeps (P := Q) ⟨forest, grounded⟩ fun g hset => ?_
      have hlive : s.graph.isAlive e := alive.of_held (held_of_type he)
      exact ⟨Graph.isForest_setEnclosing forest hlive
          (fun hon => apart ⟨type, enclosing, t, e, rfl, ht, he, hon⟩) hset,
        grounded.setEnclosing (alive.index_lt_of_type he) hset⟩
    exact (keepsNesting_frame.settle _).isForest hperform.2 hperform.1
  · exact (keepsNesting_step alive fun type enclosing h => hset ⟨type, enclosing, h⟩).isForest
      grounded forest

/-! ### Runs -/

/-- A run in which no type is nested in itself or in a type that it encloses. -/
def NestsOutward (commands : List Command) : Prop :=
  ∀ before command after, commands = before ++ command :: after →
    ¬ (empty.run before).ClosesChain command

theorem nestsOutward_concat_iff {commands : List Command} :
    NestsOutward (commands ++ [command]) ↔
      NestsOutward commands ∧ ¬ (empty.run commands).ClosesChain command :=
  forall_split_concat_iff

/-- Creating types in other ones closes no chain. -/
theorem nestsOutward_of_notMem {commands : List Command}
    (h : ∀ type enclosing, .setEnclosing type enclosing ∉ commands) : NestsOutward commands := by
  rintro before command after rfl ⟨type, enclosing, t, e, rfl, -⟩
  exact h type enclosing (List.mem_append_right before List.mem_cons_self)

/-- By induction on the run. -/
theorem isForest_run {commands : List Command} (outward : NestsOutward commands) :
    (empty.run commands).graph.IsForest := by
  induction commands using List.reverseRecOn with
  | nil =>
      intro t hcycle
      have hknown := Graph.index_lt_of_transGen hcycle
      cases hknown
  | append_singleton commands command ih =>
      obtain ⟨halive, hgrounded⟩ := sound_of_run commands
      obtain ⟨houtward, hapart⟩ := nestsOutward_concat_iff.mp outward
      rw [run_append]
      exact isForest_step halive hgrounded (ih houtward) hapart

/-- In every state of a run in which no type is nested in itself or in a type that it encloses by
then, no type encloses itself. A walk outwards visits each living type at most once, however
deep types are nested and wherever chains have been cut by the release of a type. So the loops
that compare, hash and name types return what the walks of bounded length have, after no more
passes than there are living types. The last pass of a comparison, which does not go on, is not
counted. -/
theorem forest_of_run {commands : List Command} (outward : NestsOutward commands) :
    let g := (empty.run commands).graph
    g.IsForest ∧
    (∀ n a, (g.walk n a).Nodup ∧ (∀ t ∈ g.walk n a, g.isAlive t) ∧
      (g.walk n a).length ≤ g.aliveCount) ∧
    (∀ a b, ∃ passes ≤ g.aliveCount - 1,
      Returns g.comparePass passes (a, b) (g.sameIdentity a b)) ∧
    (∀ hashName a, ∃ passes ≤ g.aliveCount,
      Returns (g.hashPass hashName) passes (0, a) (g.identityHash hashName a)) ∧
    ∀ t d, g.type? t = some d → ∃ passes ≤ g.aliveCount - 1,
      Returns g.namePass passes ([d.name], d.namespaceName, g.enclosing? t) (g.fullName t) := by
  intro g
  have hforest : g.IsForest := isForest_run outward
  refine ⟨hforest, fun n a => ?_, fun a b => ?_, fun hashName a => ?_, fun t d ht => ?_⟩
  · exact ⟨Graph.nodup_walk hforest n a, fun _ => Graph.isAlive_of_mem_walk,
      Graph.length_walk_le hforest n a⟩
  · exact Graph.exists_returns_comparePass_of_forest hforest a b
  · exact Graph.exists_returns_hashPass hforest hashName a
  · exact Graph.exists_returns_namePass hforest ht

/-- A type `A/B/C` whose outermost type is released, and a type that is in no registry. -/
def cutChain : List Command := [
  .newRegistry (.module "lib") "r",
  .newType ⟨.inTable .typeDef 9, "N", "A", 0, .unknown⟩ (some "a"),
  .createNested "r" "a" "B" 0 (some "b"), .createNested "r" "b" "C" 0 (some "c"),
  .drop .type "a", .newType ⟨.inTable .typeDef 10, "", "D", 0, .unknown⟩ (some "d")]

/-- The last type is nested in `C`, and its chain ends where the outermost type has been. -/
theorem forest_of_cutChain :
    let commands := cutChain ++ [.setEnclosing "d" "c"]
    let g := (empty.run commands).graph
    NestsOutward commands ∧ g.IsForest ∧ g.isAlive ⟨6⟩ = false ∧
      g.walk g.aliveCount (some ⟨9⟩) = [⟨9⟩, ⟨8⟩, ⟨7⟩] ∧
      ∃ passes ≤ g.aliveCount, Returns (g.hashPass nameHash) passes (0, some ⟨9⟩)
        (g.identityHash nameHash (some ⟨9⟩)) := by
  intro commands g
  have hopening : NestsOutward cutChain := nestsOutward_of_notMem (by simp [cutChain])
  have hapart : ¬ (empty.run cutChain).ClosesChain (.setEnclosing "d" "c") := by
    rintro ⟨_, _, t, e, ⟨⟩, ht, he, hon⟩
    have hd : (empty.run cutChain).types["d"]? = some ⟨9⟩ := by decide +kernel
    have hc : (empty.run cutChain).types["c"]? = some ⟨8⟩ := by decide +kernel
    obtain rfl := Option.some_inj.mp (hd.symm.trans ht)
    obtain rfl := Option.some_inj.mp (hc.symm.trans he)
    have hchain : ∀ u, (empty.run cutChain).graph.OnChain ⟨8⟩ u → u = ⟨8⟩ ∨ u = ⟨7⟩ := by
      intro u hu
      induction hu with
      | self => exact .inl rfl
      | enclosing _ henclosing ih =>
          rcases ih with rfl | rfl
          · have hb : (empty.run cutChain).graph.enclosing? ⟨8⟩ = some ⟨7⟩ := by decide +kernel
            exact .inr (Option.some_inj.mp (henclosing.symm.trans hb))
          · have hnone : (empty.run cutChain).graph.enclosing? ⟨7⟩ = none := by decide +kernel
            rw [hnone] at henclosing
            cases henclosing
    rcases hchain _ hon with h | h <;> cases h
  have houtward : NestsOutward commands := nestsOutward_concat_iff.mpr ⟨hopening, hapart⟩
  obtain ⟨hforest, -, -, hhash, -⟩ := forest_of_run houtward
  exact ⟨houtward, hforest, by decide +kernel, by decide +kernel, hhash nameHash (some ⟨9⟩)⟩

end Session

end AssemblyGraph
