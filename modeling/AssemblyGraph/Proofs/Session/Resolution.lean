import AssemblyGraph.Proofs.Factory
import AssemblyGraph.Proofs.Graph.Inheritance
import AssemblyGraph.Proofs.Session.Links

/-!
Where resolution ends.

A type is resolved by following one link, so what a reference resolves to is what it was linked
to, and no command asks whether that is a definition. A link to a definition has come to a type
by a command of the run that was to make it. So a type that is resolved to anything else than a
definition was linked to a reference, by a command that succeeded; and each such command leads to
a type that is not resolved to the end. A factory searches the type that resolution yields,
whatever that is.
-/

namespace AssemblyGraph

namespace Graph

variable {g : Graph} {t u : TypeId} {d : TypeDecl}

/-- A type is a definition, at which resolution stands still. -/
def EndsResolution (g : Graph) (u : TypeId) : Prop :=
  (∃ d, g.type? u = some d ∧ d.isReference = false) ∧ g.resolve u = .ok u

/-- A type is a living reference. -/
def IsReference (g : Graph) (u : TypeId) : Prop :=
  ∃ d, g.type? u = some d ∧ d.isReference = true

theorem resolve_of_not_isReference (hd : g.type? t = some d) (h : d.isReference = false) :
    g.resolve t = .ok t := by
  simp only [resolve, hd, h, Bool.false_eq_true, if_false]

theorem endsResolution_iff (hd : g.type? u = some d) :
    g.EndsResolution u ↔ ¬ g.IsReference u := by
  constructor
  · rintro ⟨⟨x, hx, hdefinition⟩, -⟩ ⟨y, hy, hreference⟩
    obtain rfl := Option.some_inj.mp (hx.symm.trans hy)
    rw [hdefinition] at hreference
    cases hreference
  · intro h
    have hdefinition : d.isReference = false :=
      Bool.eq_false_iff.mpr fun hreference => h ⟨d, hd, hreference⟩
    exact ⟨⟨d, hd, hdefinition⟩, resolve_of_not_isReference hd hdefinition⟩

/-- A type is resolved to itself or to the living type that it is linked to. -/
theorem resolve_eq_ok_iff :
    g.resolve t = .ok u ↔ ∃ d, g.type? t = some d ∧
      if d.isReference then g.written? (.definition t) = some u ∧ g.isAlive u = true
      else t = u := by
  rw [resolve]
  cases ht : g.type? t with
  | none => simp
  | some d =>
      have hwritten : g.written? (.definition t) = d.definition? := by
        rw [written?, ht, Option.bind_some]
      simp only [Option.some.injEq, exists_eq_left', hwritten]
      cases d.isReference with
      | false => simp
      | true =>
          cases hfollow : g.follow? d.definition? with
          | none =>
              have hnone : ¬ (d.definition? = some u ∧ g.isAlive u = true) := by
                rw [← follow?_eq_some_iff, hfollow]
                exact Option.some_ne_none u ∘ Eq.symm
              simpa using hnone
          | some x =>
              have hx := follow?_eq_some_iff.mp hfollow
              constructor
              · intro h
                cases h
                exact hx
              · rintro ⟨h, -⟩
                rw [Option.some_inj.mp (h.symm.trans hx.1)]
                rfl

theorem isAlive_of_resolve (h : g.resolve t = .ok u) : g.isAlive u = true := by
  obtain ⟨d, hd, hresolved⟩ := resolve_eq_ok_iff.mp h
  split at hresolved
  · exact hresolved.2
  · exact hresolved ▸ isAlive_iff.mpr ⟨d, hd⟩

/-- The link that is set is the only one that is new. -/
theorem written?_of_setDefinition {g' : Graph} {v x : TypeId}
    (set : g.setDefinition u v = .ok g') (h : g'.written? (.definition t) = some x) :
    g.written? (.definition t) = some x ∨ (t = u ∧ x = v) := by
  rcases g.setDefinition_cases set with ⟨-, rfl⟩ | ⟨d, hd, -, -, rfl⟩
  · exact .inl h
  · rw [written?, type?_modifyType] at h
    split at h
    · rename_i htu
      rw [htu, hd] at h
      exact .inr ⟨htu, (Option.some_inj.mp h).symm⟩
    · exact .inl h

end Graph

namespace Session

variable {s : Session} {command : Command} {t x : TypeId}

/-! ### Where a link to a definition comes from -/

/-- A command links a reference to a type, with success. -/
def LinksTo (s : Session) (command : Command) (t x : TypeId) : Prop :=
  s.Writes command (.definition t) x ∧ ∃ answer, (s.step command).2 = .ok answer

theorem unlinked_frame (x : TypeId) :
    Graph.Frame (Graph.Inherits fun d => d.definition? = some x) := by
  refine Graph.inherits_frame (fun d fresh h => ?_) fun same h => same.definition?.symm.trans h
  rw [fresh.unlinked] at h
  cases h

/-- A step leaves a link to a definition as it was, unless it is the one that makes it. -/
theorem linked_of_step (h : (s.step command).1.graph.written? (.definition t) = some x) :
    s.graph.written? (.definition t) = some x ∨ s.LinksTo command t x := by
  obtain ⟨d', hd', hx⟩ := Option.bind_eq_some_iff.mp h
  by_cases hlink : ∃ type definition, command = .setDefinition type definition
  · obtain ⟨type, definition, rfl⟩ := hlink
    obtain ⟨d, hd, hdefinition⟩ := frame_settle (unlinked_frame x).flat _ t d' hd' hx
    have hperform : (s.setDefinition type definition).1.graph.written? (.definition t) = some x :=
      Option.bind_eq_some_iff.mpr ⟨d, hd, hdefinition⟩
    rw [Session.setDefinition] at hperform
    cases htype : s.types[type]? with
    | none => exact .inl (by simpa only [find, htype] using hperform)
    | some u =>
        cases htarget : s.types[definition]? with
        | none => exact .inl (by simpa only [find, htype, htarget] using hperform)
        | some v =>
            simp only [find, htype, htarget] at hperform
            cases hset : s.graph.setDefinition u v with
            | error cause => exact .inl (by simpa only [hset, attempt] using hperform)
            | ok g =>
                simp only [hset, attempt, reply] at hperform
                refine (Graph.written?_of_setDefinition hset hperform).imp_right ?_
                rintro ⟨rfl, rfl⟩
                refine ⟨.setDefinition htype htarget, ?_⟩
                simp only [step, perform, Session.setDefinition, find, htype, htarget, hset,
                  attempt, reply, Except.ok.injEq, exists_eq']
  · have hinherits : Graph.Inherits (fun d => d.definition? = some x) s.graph
        (s.step command).1.graph := by
      refine inherits_step (unlinked_frame x) s (fun _ _ _ _ _ => id)
        (fun type definition h => absurd ⟨type, definition, h⟩ hlink) (fun _ _ => id)
        (fun _ _ _ _ _ => id) ?_
      intro _ _ _ _ _ _ _ _ d unlinked _ hdefinition
      rw [unlinked] at hdefinition
      cases hdefinition
    obtain ⟨d, hd, hdefinition⟩ := hinherits t d' hd' hx
    exact .inl (Option.bind_eq_some_iff.mpr ⟨d, hd, hdefinition⟩)

/-- Every link to a definition was made by a command of the run. -/
theorem linked_of_run {commands : List Command}
    (h : (empty.run commands).graph.written? (.definition t) = some x) :
    ∃ before command after, commands = before ++ command :: after ∧
      (empty.run before).LinksTo command t x := by
  obtain ⟨before, command, after, hsplit, hfree, hwritten⟩ := exists_command_of_run
    (Q := fun s => s.graph.written? (.definition t) = some x) (by simp [Graph.written?]) h
  exact ⟨before, command, after, hsplit, (linked_of_step hwritten).resolve_left hfree⟩

/-- A type that is alive at the end of a run is a reference then if it was one before. -/
theorem isReference_iff_of_run {before after : List Command} {d : TypeDecl}
    (hd : (empty.run before).graph.type? x = some d)
    (alive : (empty.run (before ++ after)).graph.isAlive x = true) :
    (empty.run (before ++ after)).graph.IsReference x ↔ (empty.run before).graph.IsReference x := by
  rw [run_append] at alive ⊢
  obtain ⟨d', hd'⟩ := Graph.isAlive_iff.mp alive
  rcases (run_moves (empty.run before) after).continues.1.grows hd with hgone | ⟨e, he, hgrows⟩
  · rw [hd'] at hgone
    cases hgone
  · have hreference : e.isReference = d.isReference := by
      rw [TypeDecl.isReference, TypeDecl.isReference, hgrows.token]
    rw [Graph.IsReference, Graph.IsReference, he, hd]
    simp only [Option.some.injEq, exists_eq_left', hreference]

/-! ### Where resolution ends -/

/-- A reference was linked to a reference, by a command of the run that succeeded. -/
def Mislinked (commands : List Command) (t x : TypeId) : Prop :=
  ∃ before command after, commands = before ++ command :: after ∧
    (empty.run before).LinksTo command t x ∧ (empty.run before).graph.IsReference x

/-- What a command of the run has linked stays linked for as long as both types live. -/
theorem resolve_of_linksTo {before after : List Command} {command : Command}
    (links : (empty.run before).LinksTo command t x)
    (alive : (empty.run (before ++ command :: after)).graph.isAlive t = true)
    (alive' : (empty.run (before ++ command :: after)).graph.isAlive x = true) :
    (empty.run (before ++ command :: after)).graph.resolve t = .ok x := by
  obtain ⟨writes, answer, hanswer⟩ := links
  have hfree : (empty.run before).graph.written? (.definition t) = none := by
    cases hwritten : (empty.run before).graph.written? (.definition t) with
    | none => rfl
    | some y =>
        obtain ⟨refused, ⟨d, -, hrefused⟩, hstep⟩ := refuses_of_written rfl hwritten writes
        rw [hstep, hrefused] at hanswer
        cases hanswer
  have hlinked := written?_run (written?_of_writes rfl writes hfree hanswer) alive
  obtain ⟨d, hd, hx⟩ := Option.bind_eq_some_iff.mp hlinked
  refine Graph.resolve_eq_ok_iff.mpr ⟨d, hd, ?_⟩
  rw [if_pos (linksAsReference_of_run _ hd x hx)]
  exact ⟨hlinked, alive'⟩

/-- A type that is resolved to a reference was linked to it when that was a reference. -/
theorem mislinked_of_resolve {commands : List Command}
    (resolves : (empty.run commands).graph.resolve t = .ok x)
    (reference : (empty.run commands).graph.IsReference x) : Mislinked commands t x := by
  obtain ⟨d, hd, hresolved⟩ := Graph.resolve_eq_ok_iff.mp resolves
  cases hisReference : d.isReference with
  | false =>
      rw [hisReference, if_neg Bool.false_ne_true] at hresolved
      obtain ⟨e, he, hreference⟩ := reference
      rw [← hresolved, hd, Option.some_inj] at he
      rw [← he, hisReference] at hreference
      cases hreference
  | true =>
      rw [hisReference, if_pos rfl] at hresolved
      obtain ⟨hwritten, alive⟩ := hresolved
      obtain ⟨before, command, after, rfl, hlinks⟩ := linked_of_run hwritten
      cases hlinks.1 with
      | setDefinition bound target =>
          obtain ⟨e, he⟩ := exists_decl_of_bound target
          exact ⟨before, _, after, rfl, hlinks, (isReference_iff_of_run he alive).mp reference⟩

theorem isReference_of_mislinked {commands : List Command} (h : Mislinked commands t x)
    (alive : (empty.run commands).graph.isAlive x = true) :
    (empty.run commands).graph.IsReference x := by
  obtain ⟨before, command, after, rfl, -, hreference⟩ := h
  obtain ⟨e, he, -⟩ := id hreference
  exact (isReference_iff_of_run he alive).mpr hreference

/-- Resolution in a run. It ends at a definition, which is resolved to itself, unless the type
that is resolved was linked to a reference by a command of the run. Each command that does this
shows: for as long as both types live, the one is resolved to the other, and that is no
definition. A factory searches for its constructor on what the attribute type is resolved to, so
it searches a definition under the same condition. -/
theorem resolution_of_run (commands : List Command) :
    let g := (empty.run commands).graph
    (∀ t u, g.resolve t = .ok u → (g.EndsResolution u ↔ ¬ Mislinked commands t u)) ∧
    (∀ t u, Mislinked commands t u → g.isAlive t = true → g.isAlive u = true →
      g.resolve t = .ok u ∧ ¬ g.EndsResolution u) ∧
    ∀ (f : Factory) request t u, f.attributeType request = .ok t → g.resolve t = .ok u →
      f.constructorFor g request = g.constructor u request.shape ∧
        (¬ Mislinked commands t u → g.EndsResolution u) := by
  intro g
  have hends : ∀ t u, g.resolve t = .ok u → (g.EndsResolution u ↔ ¬ Mislinked commands t u) := by
    intro t u hresolve
    have halive := Graph.isAlive_of_resolve hresolve
    obtain ⟨d, hd⟩ := Graph.isAlive_iff.mp halive
    rw [Graph.endsResolution_iff hd]
    exact not_congr ⟨mislinked_of_resolve hresolve, fun h => isReference_of_mislinked h halive⟩
  refine ⟨hends, fun t u hlinked ht hu => ?_, fun f request t u htype hresolve => ?_⟩
  · obtain ⟨d, hd⟩ := Graph.isAlive_iff.mp hu
    refine ⟨?_, fun h => (Graph.endsResolution_iff hd).mp h (isReference_of_mislinked hlinked hu)⟩
    obtain ⟨before, command, after, rfl, hlinks, -⟩ := hlinked
    exact resolve_of_linksTo hlinks ht hu
  · refine ⟨?_, (hends t u hresolve).mpr⟩
    rw [Factory.constructorFor_eq, htype]
    exact congrArg (· >>= fun u => g.constructor u request.shape) hresolve

/-- A reference to a type that has a definition, and a reference that is linked to the first. -/
def referenceToReference : List Command := [
  .newRegistry (.module "Lib.dll") "r", .createRef "r" "N" "A" (.assembly "Ext") (some "a"),
  .createRef "r" "N" "B" (.assembly "Ext") (some "b"), .createType "r" "N" "D" 0 (some "d"),
  .setDefinition "b" "d", .setDefinition "a" "b"]

/-- The one reference is resolved to the definition, and the other one only to the first. -/
theorem resolution_of_referenceToReference :
    let g := (empty.run referenceToReference).graph
    g.EndsResolution ⟨8⟩ ∧ g.resolve ⟨7⟩ = .ok ⟨8⟩ ∧ g.resolve ⟨6⟩ = .ok ⟨7⟩ ∧
      Mislinked referenceToReference ⟨6⟩ ⟨7⟩ := by
  intro g
  obtain ⟨hends, -, -⟩ := resolution_of_run referenceToReference
  have hresolve : g.resolve ⟨8⟩ = .ok ⟨8⟩ ∧ g.resolve ⟨7⟩ = .ok ⟨8⟩ ∧ g.resolve ⟨6⟩ = .ok ⟨7⟩ := by
    decide +kernel
  have hreference : (g.type? ⟨7⟩).map TypeDecl.isReference = some true ∧
      (g.type? ⟨8⟩).map TypeDecl.isReference = some false := by
    decide +kernel
  obtain ⟨b, hb, hisReference⟩ := Option.map_eq_some_iff.mp hreference.1
  obtain ⟨d, hd, hdefinition⟩ := Option.map_eq_some_iff.mp hreference.2
  have hlast : g.EndsResolution ⟨8⟩ := ⟨⟨d, hd, hdefinition⟩, hresolve.1⟩
  refine ⟨hlast, hresolve.2.1, hresolve.2.2, ?_⟩
  by_contra hlinked
  obtain ⟨⟨e, he, hnot⟩, -⟩ := (hends ⟨6⟩ ⟨7⟩ hresolve.2.2).mpr hlinked
  rw [← Option.some_inj.mp (hb.symm.trans he), hisReference] at hnot
  cases hnot

/-- Resolution does not always end at a definition. -/
theorem resolution_not_final :
    ¬ ∀ (commands : List Command) (t u : TypeId),
      (empty.run commands).graph.resolve t = .ok u →
        (∃ d, (empty.run commands).graph.type? u = some d ∧ d.isReference = false) ∧
          (empty.run commands).graph.resolve u = .ok u := by
  intro h
  have hresolve : (empty.run referenceToReference).graph.resolve ⟨6⟩ = .ok ⟨7⟩ ∧
      (empty.run referenceToReference).graph.resolve ⟨7⟩ ≠ .ok ⟨7⟩ := by
    decide +kernel
  exact hresolve.2 (h referenceToReference ⟨6⟩ ⟨7⟩ hresolve.1).2

end Session

end AssemblyGraph
