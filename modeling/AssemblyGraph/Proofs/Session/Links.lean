import AssemblyGraph.Proofs.Graph.Slots
import AssemblyGraph.Proofs.Session.Frame
import AssemblyGraph.Proofs.Session.Owners
import AssemblyGraph.Proofs.Session.RegistryFrame

/-!
Links that are written once, and types that are gone.

The enclosing type of a type, the definition of a reference and the declaring type of a
method are links that do not own their targets. Each is written at most once and for good,
whether or not its target lives on, so a link to a type that is gone is not free again: it
yields nothing, and an attempt to write it is refused as it would be otherwise. A type that
is gone is never owned again, so no link to it of any kind yields anything later.
-/

namespace AssemblyGraph.Session

variable {s s' : Session} {rs : List Referral} {command : Command} {slot : Slot} {t x : TypeId}

/-! ### What runs keep -/

theorem linksAsReference_of_run (commands : List Command) {d : TypeDecl}
    (hd : (empty.run commands).graph.type? t = some d) : d.LinksAsReference := by
  rcases (run_moves empty commands).continues.1.type t d hd with ⟨e, he, -⟩ | ⟨-, hlinks⟩
  · simp at he
  · exact hlinks

theorem step_of_perform (settled : s.Settled) {answer : Except Fault Reply}
    (h : s.perform command = (s, answer)) : s.step command = (s, answer) := by
  rw [step, h]
  exact congrArg (·, answer) settled.settle_eq_self

/-! ### Writing a link -/

/-- A command is to write a type into a slot: one that is there, or one of the object that the
command makes. -/
inductive Writes (s : Session) : Command → Slot → TypeId → Prop
  | setEnclosing {type enclosing : String} {t e : TypeId} (bound : s.types[type]? = some t)
      (target : s.types[enclosing]? = some e) :
      Writes s (.setEnclosing type enclosing) (.enclosing t) e
  | setDefinition {type definition : String} {t d : TypeId} (bound : s.types[type]? = some t)
      (target : s.types[definition]? = some d) :
      Writes s (.setDefinition type definition) (.definition t) d
  | setDeclaringType {method type : String} {m : MethodId} {t : TypeId}
      (bound : s.methods[method]? = some m) (target : s.types[type]? = some t) :
      Writes s (.setDeclaringType method type) (.declaringType m) t
  | createNested {reg enclosing name : String} {flags : UInt32} {bindTo? : Option String}
      {r : Registry} {e t : TypeId} (bound : s.registries[reg]? = some r)
      (target : s.types[enclosing]? = some e)
      (created : (r.createNested s.graph e name flags).result = .ok t) :
      Writes s (.createNested reg enclosing name flags bindTo?) (.enclosing t) e
  | createMethod {reg type name : String} {attributes : UInt32} {signature : MethodSignature}
      {bindTo? : Option String} {r : Registry} {t : TypeId} (bound : s.registries[reg]? = some r)
      (target : s.types[type]? = some t) :
      Writes s (.createMethod reg type name attributes signature bindTo?)
        (.declaringType ⟨s.graph.methods.size⟩) t
  | createConstructor {reg type : String} {params : List Signature} {bindTo? : Option String}
      {r : Registry} {t : TypeId} (bound : s.registries[reg]? = some r)
      (target : s.types[type]? = some t) :
      Writes s (.createConstructor reg type params bindTo?)
        (.declaringType ⟨s.graph.methods.size⟩) t

/-- The answer to an attempt to write a slot that is written: an error, or that the link was not
set by it. -/
def Refusal (s : Session) : Slot → Except Fault Reply → Prop
  | .enclosing t, answer => ∃ d, s.graph.type? t = some d ∧
      answer = .error (.failed (.inconsistent (.alreadyNested d.token)))
  | .definition t, answer => ∃ d, s.graph.type? t = some d ∧
      answer = .error (.failed (.inconsistent (.alreadyResolved d.token)))
  | .declaringType _, answer => answer = .ok (.flag false)

/-- A slot has a target for good: it yields the target for as long as that lives, and nothing
afterwards, and it takes no other one. -/
structure Holds (s : Session) (slot : Slot) (x : TypeId) : Prop where
  written : s.graph.written? slot = some x
  yields : s.graph.isAlive x = true → s.graph.read? slot = some x
  yieldsNothing : s.graph.isAlive x = false → s.graph.read? slot = none
  refuses : ∀ command y, s.Writes command slot y →
    (s.step command).1 = s ∧ s.Refusal slot (s.step command).2

/-- A type is gone for good: nothing owns it, and no link to it yields anything. -/
structure Severed (s : Session) (x : TypeId) : Prop where
  unowned : x ∉ s.ownedTypes
  handle : ∀ name, s.links[name]? = some x →
    s.step (.viewLink name) = (s, .ok (.link ⟨false, none, none⟩)) ∧
    ∀ bindTo?, s.step (.upgrade name bindTo?) = (s, .ok (.type none))
  slot : ∀ slot, s.graph.written? slot = some x → s.graph.read? slot = none
  resolve : ∀ name t bindTo?, s.types[name]? = some t →
    s.graph.written? (.definition t) = some x →
    s.step (.resolve name bindTo?) =
      (s, .error (.failed (.unresolvable (s.graph.fullName t))))
  nested : ∀ (t : TypeId) (d : TypeDecl) (i : Nat), d.nested[i]? = some x →
    (s.graph.viewType t d).nested[i]? = some none
  member : ∀ row : MemberRef, row.declaringType = x →
    (s.graph.viewReference (.imported row)).member? =
      some ⟨row.declaringOrigin, row.foreignToken, ⟨false, none, none⟩⟩

theorem exists_decl_of_bound {commands : List Command} {name : String}
    (bound : (empty.run commands).types[name]? = some t) :
    ∃ d, (empty.run commands).graph.type? t = some d :=
  Graph.isAlive_iff.mp ((sound_of_run commands).1 t (mem_ownedTypes_iff.mpr (.type bound)))

/-- A slot that is written is not written again. -/
theorem refuses_of_written {commands : List Command} (hs : s = empty.run commands)
    (written : s.graph.written? slot = some x) {y : TypeId} (writes : s.Writes command slot y) :
    ∃ answer, s.Refusal slot answer ∧ s.step command = (s, answer) := by
  have hsettled : s.Settled := hs ▸ settled_run commands
  cases writes with
  | @setEnclosing type enclosing t e bound target =>
      obtain ⟨d, hd, hx⟩ := Option.bind_eq_some_iff.mp written
      refine ⟨_, ⟨d, hd, rfl⟩, step_of_perform hsettled ?_⟩
      simp only [perform, Session.setEnclosing, find, bound, target, Graph.setEnclosing, hd,
        TypeDecl.isNested, hx, Option.isSome_some, if_true, attempt]
  | @setDefinition type definition t e bound target =>
      obtain ⟨d, hd, hx⟩ := Option.bind_eq_some_iff.mp written
      have href : d.isReference = true := linksAsReference_of_run commands (hs ▸ hd) x hx
      refine ⟨_, ⟨d, hd, rfl⟩, step_of_perform hsettled ?_⟩
      simp only [perform, Session.setDefinition, find, bound, target, Graph.setDefinition, hd,
        href, hx, Option.isSome_some, if_true, attempt, Bool.not_true, Bool.false_eq_true, if_false]
  | @setDeclaringType method type m t bound target =>
      obtain ⟨before, hm, hx⟩ := Option.bind_eq_some_iff.mp written
      refine ⟨_, rfl, step_of_perform hsettled ?_⟩
      simp only [perform, Session.setDeclaringType, find, bound, target, present, hm,
        Graph.setDeclaringType_of_written hm hx, reply, hx, Option.isNone_some]
  | @createNested reg enclosing name flags bindTo? r e t bound target created =>
      obtain ⟨d, hd, -⟩ := Option.bind_eq_some_iff.mp written
      rcases r.createNested_cases s.graph y name flags with ⟨-, hnew⟩ | ⟨-, hnew⟩
      · rw [hnew] at created
        cases created
      · rw [hnew] at created
        cases created
        rw [s.graph.type?_new] at hd
        cases hd
  | createMethod | createConstructor =>
      obtain ⟨method, hm, -⟩ := Option.bind_eq_some_iff.mp written
      simp [Graph.method?] at hm

/-- What a command has written is there after the step, if the object still is. -/
theorem written?_step (h : (s.perform command).1.graph.written? slot = some x)
    (there : (s.step command).1.graph.hasSlot slot = true) :
    (s.step command).1.graph.written? slot = some x := by
  have hsettle := (settle_moves (s.perform command).1).continues
  refine (Graph.written?_of_continues hsettle.1 hsettle.2 h).resolve_left fun hgone => ?_
  rw [show (s.perform command).1.settle = (s.step command).1 from rfl, there] at hgone
  cases hgone

theorem isAlive_of_bound {commands : List Command} (hs : s = empty.run commands) {name : String}
    (bound : (s.perform command).1.types[name]? = some t) :
    (s.step command).1.graph.isAlive t = true := by
  have hbound : (s.step command).1.types[name]? = some t := by
    rw [show (s.step command).1.types = _ from types_settle _]
    exact bound
  exact isAlive_of_step hs (.type hbound)

theorem written?_createMethod {reg type : String} {r : Registry}
    (bound : s.registries[reg]? = some r) (target : s.types[type]? = some t) (name : String)
    (attributes : UInt32) (signature : MethodSignature) (bindTo? : Option String) :
    (s.createMethod reg type name attributes signature bindTo?).1.graph.written?
      (.declaringType ⟨s.graph.methods.size⟩) = some t := by
  simp only [Session.createMethod, find, bound, target, reply, graph_bindMethod]
  refine Option.bind_eq_some_iff.mpr ⟨_, Array.getElem?_push_size, rfl⟩

/-- A command that succeeds has written the slot, if it was free. -/
theorem written?_of_writes {commands : List Command} (hs : s = empty.run commands)
    (writes : s.Writes command slot x) (free : s.graph.written? slot = none) {answer : Reply}
    (ok : (s.step command).2 = .ok answer) :
    (s.step command).1.graph.written? slot = some x := by
  have hmethod : ∀ {m method}, (s.perform command).1.graph.method? m = some method →
      (s.step command).1.graph.hasSlot (.declaringType m) = true := by
    intro m method hm
    obtain ⟨method', hm', -⟩ := (settle_moves _).continues.2 m method hm
    exact Option.isSome_of_eq_some hm'
  cases writes with
  | @setEnclosing type enclosing t e bound target =>
      obtain ⟨d, hd⟩ := exists_decl_of_bound (hs ▸ bound)
      rw [← hs] at hd
      rw [Graph.written?, hd, Option.bind_some] at free
      have hperform : (s.perform (.setEnclosing type enclosing)).1 = { s with
          graph := s.graph.modifyType t fun d => { d with enclosing? := some x } } := by
        simp only [perform, Session.setEnclosing, find, bound, target, Graph.setEnclosing, hd,
          TypeDecl.isNested, free, Option.isSome_none, Bool.false_eq_true, if_false, attempt, reply]
      have hbound : (s.perform (.setEnclosing type enclosing)).1.types[type]? = some t := by
        rw [hperform]
        exact bound
      refine written?_step ?_ (isAlive_of_bound hs hbound)
      rw [hperform, Graph.written?, Graph.type?_modifyType, if_pos rfl, hd]
      rfl
  | @setDefinition type definition t e bound target =>
      obtain ⟨d, hd⟩ := exists_decl_of_bound (hs ▸ bound)
      rw [← hs] at hd
      rw [Graph.written?, hd, Option.bind_some] at free
      have hanswer : (s.perform (.setDefinition type definition)).2 = .ok answer := ok
      cases href : d.isReference with
      | false =>
          simp only [perform, Session.setDefinition, find, bound, target, Graph.setDefinition, hd,
            href, Bool.not_false, if_true, attempt] at hanswer
          cases hanswer
      | true =>
          have hperform : (s.perform (.setDefinition type definition)).1 = { s with
              graph := s.graph.modifyType t fun d => { d with definition? := some x } } := by
            simp only [perform, Session.setDefinition, find, bound, target, Graph.setDefinition,
              hd, href, free, Option.isSome_none, Bool.not_true, Bool.false_eq_true, if_false,
              attempt, reply]
          have hbound : (s.perform (.setDefinition type definition)).1.types[type]? = some t := by
            rw [hperform]
            exact bound
          refine written?_step ?_ (isAlive_of_bound hs hbound)
          rw [hperform, Graph.written?, Graph.type?_modifyType, if_pos rfl, hd]
          rfl
  | @setDeclaringType method type m t bound target =>
      have hanswer : (s.perform (.setDeclaringType method type)).2 = .ok answer := ok
      cases hm : s.graph.method? m with
      | none =>
          simp only [perform, Session.setDeclaringType, find, bound, target, present, hm]
            at hanswer
          cases hanswer
      | some before =>
          rw [Graph.written?, hm, Option.bind_some] at free
          have hgraph : (s.perform (.setDeclaringType method type)).1.graph =
              s.graph.setDeclaringType m x := by
            simp only [perform, Session.setDeclaringType, find, bound, target, present, hm, reply]
          have hset := Graph.method?_setDeclaringType hm x
          rw [← hgraph, free] at hset
          exact written?_step (Option.bind_eq_some_iff.mpr ⟨_, hset, rfl⟩) (hmethod hset)
  | @createNested reg enclosing name flags bindTo? r e t bound target created =>
      have hperform : (s.perform (.createNested reg enclosing name flags bindTo?)).1 =
          Session.bindType { s with
            graph := (r.createNested s.graph x name flags).graph
            registries := s.registries.insert reg
              (r.createNested s.graph x name flags).registry } bindTo? t := by
        simp only [perform, Session.createNested, find, bound, target, finishCreation, created,
          attempt, reply]
      obtain ⟨hwritten, hmem⟩ := Registry.written?_createNested created
      have hregistries : (s.step (.createNested reg enclosing name flags bindTo?)).1.registries =
          (s.perform (.createNested reg enclosing name flags bindTo?)).1.registries :=
        registries_settle _
      have hkept : (s.step (.createNested reg enclosing name flags bindTo?)).1.registries[reg]? =
          some (r.createNested s.graph x name flags).registry := by
        rw [hregistries, hperform, registries_bindType]
        exact Std.TreeMap.getElem?_insert_self
      refine written?_step ?_ (isAlive_of_step hs (.registry hkept hmem))
      rw [hperform, graph_bindType]
      exact hwritten
  | @createMethod reg type name attributes signature bindTo? r t bound target =>
      have hset := written?_createMethod bound target name attributes signature bindTo?
      obtain ⟨method, hm, -⟩ := Option.bind_eq_some_iff.mp hset
      exact written?_step hset (hmethod hm)
  | @createConstructor reg type params bindTo? r t bound target =>
      have hset := written?_createMethod bound target Method.constructorName
        MethodAttributes.publicConstructor (.instanceMethod params) bindTo?
      obtain ⟨method, hm, -⟩ := Option.bind_eq_some_iff.mp hset
      exact written?_step hset (hmethod hm)

/-! ### Slots and types in later states -/

/-- What is written after a command of a run is there at its end, if the object still is. -/
theorem written?_run {before after : List Command}
    (h : ((s.run before).step command).1.graph.written? slot = some x)
    (there : (s.run (before ++ command :: after)).graph.hasSlot slot = true) :
    (s.run (before ++ command :: after)).graph.written? slot = some x := by
  rw [run_append_cons] at there ⊢
  obtain ⟨htypes, hmethods⟩ := (run_moves ((s.run before).step command).1 after).continues
  refine (Graph.written?_of_continues htypes hmethods h).resolve_left fun hgone => ?_
  rw [there] at hgone
  cases hgone

/-- A slot that has been written in a state between two commands. -/
theorem holds_of_written {commands : List Command} (hs : s = empty.run commands)
    (written : s.graph.written? slot = some x) : s.Holds slot x where
  written := written
  yields halive := by
    have hlinks : ∀ t d, s.graph.type? t = some d → d.LinksAsReference :=
      fun t d hd => linksAsReference_of_run commands (hs ▸ hd)
    rw [Graph.read?_of_written hlinks written]
    exact Graph.follow?_eq_some_iff.mpr ⟨rfl, halive⟩
  yieldsNothing hdead := by
    have hlinks : ∀ t d, s.graph.type? t = some d → d.LinksAsReference :=
      fun t d hd => linksAsReference_of_run commands (hs ▸ hd)
    rw [Graph.read?_of_written hlinks written, Graph.follow?, Option.filter_some, hdead]
    rfl
  refuses command y writes := by
    obtain ⟨answer, hrefusal, hstep⟩ := refuses_of_written hs written writes
    rw [hstep]
    exact ⟨rfl, hrefusal⟩

/-- A type that is gone in a state between two commands. -/
theorem severed_of_dead {commands : List Command} (hs : s = empty.run commands)
    (dead : s.graph.type? x = none) : s.Severed x := by
  have hsettled : s.Settled := hs ▸ settled_run commands
  have hdead : s.graph.isAlive x = false := by rw [Graph.isAlive, dead]; rfl
  have hview : s.graph.viewLink x = ⟨false, none, none⟩ := by
    rw [Graph.viewLink, hdead, Graph.token?, dead]
    rfl
  exact {
    unowned howned := by
      have halive := (hs ▸ (sound_of_run commands).1 : s.OwnersAlive) x howned
      rw [hdead] at halive
      cases halive
    handle name bound := by
      refine ⟨step_of_perform hsettled ?_, fun bindTo? => step_of_perform hsettled ?_⟩
      · simp only [perform, Session.viewLink, find, bound, reply, hview]
      · simp only [perform, Session.upgrade, find, bound, Graph.follow?, Option.filter_some, hdead,
          Bool.false_eq_true, if_false, replyType, reply]
    slot slot written := (holds_of_written hs written).yieldsNothing hdead
    resolve name t bindTo? bound written := by
      obtain ⟨d, hd, hx⟩ := Option.bind_eq_some_iff.mp written
      have hlinks := linksAsReference_of_run commands (hs ▸ hd)
      have hresolve := Graph.resolve_of_definition hlinks hd hx
      rw [hdead, if_neg Bool.false_ne_true] at hresolve
      refine step_of_perform hsettled ?_
      simp only [perform, Session.resolve, find, bound, hresolve, attempt]
    nested t d i hi := by
      rw [Graph.viewType, List.getElem?_map, hi, Option.map_some, Graph.token?, dead]
      rfl
    member row hrow := by
      rw [Graph.viewReference, MethodReference.member?, Option.map_some, hrow, hview] }

/-- Links are written once and for good, and types that are gone stay gone. A command that
succeeds has written the link that it asks for, if the slot was free. From then on the slot has
its target in every later state in which its object is there, and a nested type stays nested.
A type that is gone in one state is gone for good in every later one. -/
theorem links_written_once (commands later : List Command) :
    let s := empty.run commands
    let s' := s.run later
    (∀ command slot x answer, s.Writes command slot x → s.graph.written? slot = none →
      (s.step command).2 = .ok answer → (s.step command).1.graph.written? slot = some x) ∧
    (∀ slot x, s.graph.written? slot = some x →
      s'.graph.hasSlot slot = false ∨ s'.Holds slot x) ∧
    (∀ t d d', s.graph.type? t = some d → d.isNested = true → s'.graph.type? t = some d' →
      d'.isNested = true) ∧
    ∀ x, x.index < s.graph.types.size → s.graph.type? x = none → s'.Severed x := by
  intro s s'
  have hrun : s' = empty.run (commands ++ later) := (run_append ..).symm
  obtain ⟨htypes, hmethods⟩ := (run_moves s later).continues
  refine ⟨fun command slot x answer writes free ok => written?_of_writes rfl writes free ok,
    fun slot x written => ?_, fun t d d' hd hnested hd' => ?_, fun x known dead => ?_⟩
  · exact (Graph.written?_of_continues htypes hmethods written).imp_right (holds_of_written hrun)
  · rcases htypes.grows hd with hgone | ⟨e, he, hgrows⟩
    · rw [hd'] at hgone
      cases hgone
    · obtain rfl := Option.some_inj.mp (hd'.symm.trans he)
      obtain ⟨x, hx⟩ := Option.isSome_iff_exists.mp hnested
      exact Option.isSome_of_eq_some (hgrows.enclosing? x hx)
  · exact severed_of_dead hrun (htypes.dead known dead)

/-- A type, one that is nested in it, and a reference to a type that only a handle owns. -/
def linkedTypes : List Command := [
  .newRegistry (.module "lib") "r",
  .createType "r" "N" "A" 0 (some "a"), .createNested "r" "a" "B" 0 (some "b"),
  .createRef "r" "M" "D" (.module "other") (some "ref"),
  .newType ⟨⟨0x02000001⟩, "M", "D", 0, .module "other"⟩ (some "d"), .makeLink "d" "w",
  .setDefinition "ref" "d"]

/-- The definition dies: the reference is still linked to it and cannot be linked again. -/
theorem links_of_linkedTypes :
    let s := empty.run linkedTypes
    let s' := s.run [.drop .type "d"]
    (s.step (.setEnclosing "a" "d")).1.graph.written? (.enclosing ⟨6⟩) = some ⟨9⟩ ∧
    s'.Holds (.definition ⟨8⟩) ⟨9⟩ ∧
    (∃ d, s'.graph.type? ⟨7⟩ = some d ∧ d.isNested = true) ∧
    (s'.run [.setDefinition "ref" "a"]).Severed ⟨9⟩ := by
  intro s s'
  have hbound : s.types["a"]? = some ⟨6⟩ ∧ s.types["d"]? = some ⟨9⟩ := by decide +kernel
  have hfree : s.graph.written? (.enclosing ⟨6⟩) = none := by decide +kernel
  have hwritten : s.graph.written? (.definition ⟨8⟩) = some ⟨9⟩ := by decide +kernel
  have hthere : s'.graph.hasSlot (.definition ⟨8⟩) = true ∧ s'.graph.isAlive ⟨7⟩ = true := by
    decide +kernel
  have hnested : (s.graph.type? ⟨7⟩).map TypeDecl.isNested = some true := by decide +kernel
  have hdead : 9 < s'.graph.types.size ∧ s'.graph.isAlive ⟨9⟩ = false := by decide +kernel
  have hanswer : (s.step (.setEnclosing "a" "d")).2.toBool = true := by decide +kernel
  obtain ⟨hwrites, hholds, hstays, -⟩ := links_written_once linkedTypes [.drop .type "d"]
  obtain ⟨-, -, -, hsevered⟩ := links_written_once (linkedTypes ++ [.drop .type "d"])
    [.setDefinition "ref" "a"]
  rw [run_append] at hsevered
  refine ⟨?_, ?_, ?_, hsevered _ hdead.1 (Option.not_isSome_iff_eq_none.mp ?_)⟩
  · obtain ⟨answer, hok⟩ := toBool_eq_true_iff.mp hanswer
    exact hwrites _ _ _ answer (.setEnclosing hbound.1 hbound.2) hfree hok
  · refine (hholds _ _ hwritten).resolve_left fun hgone => ?_
    rw [show s'.graph.hasSlot (.definition ⟨8⟩) = true from hthere.1] at hgone
    cases hgone
  · obtain ⟨d, hd, hisNested⟩ := Option.map_eq_some_iff.mp hnested
    obtain ⟨d', hd'⟩ := Graph.isAlive_iff.mp hthere.2
    exact ⟨d', hd', hstays _ d d' hd hisNested hd'⟩
  · rw [show (s'.graph.type? ⟨9⟩).isSome = false from hdead.2]
    exact Bool.false_ne_true

end AssemblyGraph.Session
