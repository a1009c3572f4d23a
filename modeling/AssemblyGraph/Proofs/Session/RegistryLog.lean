import AssemblyGraph.Proofs.Registry.Registered
import AssemblyGraph.Proofs.Session.RegistryFrame

/-!
The registrations that commands make.

A registry is made under a name, and until that name is freed or given to
another registry it changes by the registrations of the commands that name it.
So the log of a registry, which starts with the primitive types, is what its
indices restate at every moment.
-/

namespace AssemblyGraph

/-- A command after which the registry that was bound to a name is gone. -/
def Command.endsRegistry (reg : String) : Command → Prop
  | .newRegistry _ bindTo => bindTo = reg
  | .drop .registry name => name = reg
  | _ => False

namespace Session

/-! ### Registrations -/

/-- What work on the registry of one name registers in the registry of another one: nothing,
unless the names are the same. -/
def registeredIn (s : Session) (reg reg' : String) (made : Registry → List Registration) :
    List Registration :=
  if reg' = reg then (s.registries[reg']?).elim [] made else []

/-- The registration of one link of a chain. -/
def linkRegistered (s : Session) (reg : String) (place : ChainPlace) (name : String)
    (enclosing? : Option TypeId) : List Registration :=
  match place with
  | .free .. => []
  | .registered reg' namespaceName => s.registeredIn reg reg' fun r =>
      (enclosing?.elim (r.createType s.graph namespaceName name 0)
        fun e => r.createNested s.graph e name 0).registered

/-- The registrations of a chain, up to the first link that is refused. -/
def chainRegistered (reg : String) (place : ChainPlace) (names : Array String)
    (bindTo : String) : Nat → Nat → Option TypeId → Session → List Registration
  | 0, _, _, _ => []
  | left + 1, number, last?, s =>
      let name := names.getD (number % names.size) ""
      let link := s.createLink place number name last?
      match link.2 with
      | .error _ => []
      | .ok t => s.linkRegistered reg place name last? ++
          chainRegistered reg place names bindTo left (number + 1) (some t)
            ((link.1.bindType (some (bindTo ++ toString number)) t).releaseReplaced place)

/-- The registrations that a command makes in the registry of a name. -/
def registrations (s : Session) (reg : String) : Command → List Registration
  | .createType reg' namespaceName name flags _ =>
      s.registeredIn reg reg' fun r => (r.createType s.graph namespaceName name flags).registered
  | .createNested reg' enclosing name flags _ =>
      s.registeredIn reg reg' fun r => (s.types[enclosing]?).elim [] fun e =>
        (r.createNested s.graph e name flags).registered
  | .createRef reg' namespaceName name origin _ =>
      s.registeredIn reg reg' fun r => (r.createRef s.graph namespaceName name origin).registered
  | .insert reg' type =>
      s.registeredIn reg reg' fun r => (s.types[type]?).elim [] fun t =>
        if (r.insert s.graph t).toBool then (s.graph.registration? t).toList else []
  | .chain times names enclosing? place bindTo =>
      enclosing?.elim (chainRegistered reg place names.toArray bindTo times 0 none s)
        fun enclosing => (s.types[enclosing]?).elim []
          fun e => chainRegistered reg place names.toArray bindTo times 0 (some e) s
  | _ => []

/-- The log of the registry of a name after a command. A new registry starts with the
primitive types. -/
def logStep (s : Session) (reg : String) (log : List Registration) :
    Command → List Registration
  | .newRegistry _ bindTo =>
      if bindTo = reg then Registry.primitivesFrom s.graph.types.size Primitive.all else log
  | .drop .registry name => if name = reg then [] else log
  | command => log ++ s.registrations reg command

/-- The log of the registry of a name after several commands. -/
def logAfter (reg : String) : Session → List Registration → List Command → List Registration
  | _, log, [] => log
  | s, log, command :: commands =>
      logAfter reg (s.step command).1 (s.logStep reg log command) commands

/-- The types that the registry of a name has taken in, in their order, in a run from the
state in which nothing is bound. -/
def registrationsOf (reg : String) (commands : List Command) : List Registration :=
  logAfter reg empty [] commands

/-! ### Commands that work on registries -/

theorem registeredIn_eq_nil {s : Session} {reg reg' : String} {made : Registry → List Registration}
    (h : ∀ r, s.registries[reg']? = some r → made r = []) : s.registeredIn reg reg' made = [] := by
  rw [registeredIn]
  split
  · cases hr : s.registries[reg']? with
    | none => rfl
    | some r => exact h r hr
  · rfl

/-- The registry of a name stays bound from one state to the other, and has taken in some
registrations in between; a name that is free stays free. -/
structure Tracks (reg : String) (s : Session) (log : List Registration) (s' : Session) :
    Prop where
  free : s.registries[reg]? = none → s'.registries[reg]? = none
  bound : ∀ r, s.registries[reg]? = some r → ∃ r', s'.registries[reg]? = some r' ∧ r.Becomes log r'

section Tracks

variable {reg reg' : String} {s s' s'' : Session} {log log' : List Registration}

theorem Tracks.of_eq (h : s'.registries[reg]? = s.registries[reg]?) : Tracks reg s [] s' where
  free hnone := h.trans hnone
  bound r hr := ⟨r, h.trans hr, .of_eq rfl rfl⟩

theorem Tracks.of_registries (h : s'.registries = s.registries) : Tracks reg s [] s' :=
  .of_eq (by rw [h])

theorem Tracks.trans (h : Tracks reg s log s') (h' : Tracks reg s' log' s'') :
    Tracks reg s (log ++ log') s'' where
  free hnone := h'.free (h.free hnone)
  bound r hr := by
    obtain ⟨r', hr', hbecomes⟩ := h.bound r hr
    obtain ⟨r'', hr'', hbecomes'⟩ := h'.bound r' hr'
    exact ⟨r'', hr'', hbecomes.trans hbecomes'⟩

theorem Tracks.find {α : Type} {bindings : Bindings α} {name : String} {next : α → Outcome}
    (absent : bindings[name]? = none → log = [])
    (h : ∀ a, bindings[name]? = some a → Tracks reg s log (next a).1) :
    Tracks reg s log (s.find bindings name next).1 := by
  rw [Session.find]
  cases ha : bindings[name]? with
  | none =>
      rw [absent ha]
      exact .of_registries rfl
  | some a => exact h a ha

/-- Work on one registry registers what it registers there, and nothing in any other. -/
theorem Tracks.insert {r r' : Registry} {made : Registry → List Registration}
    (bound : s.registries[reg']? = some r) (becomes : r.Becomes (made r) r')
    (h : s'.registries = s.registries.insert reg' r') :
    Tracks reg s (s.registeredIn reg reg' made) s' := by
  rw [registeredIn]
  split
  · rename_i hreg
    subst hreg
    rw [bound]
    refine ⟨fun hnone => ?_, fun r₀ hr₀ => ⟨r', ?_, ?_⟩⟩
    · rw [bound] at hnone
      cases hnone
    · rw [h]
      exact Std.TreeMap.getElem?_insert_self
    · obtain rfl := Option.some_inj.mp (bound.symm.trans hr₀)
      exact becomes
  · rename_i hreg
    exact .of_eq (by rw [h, OrderedMap.getElem?_insert_of_ne _ _ hreg])

/-- Work that only moves a counter on registers nothing. -/
theorem Tracks.insert_same {r r' : Registry} (bound : s.registries[reg']? = some r)
    (h : s'.registries = s.registries.insert reg' r') (types : r'.types = r.types)
    (byFullName : r'.byFullName = r.byFullName) : Tracks reg s [] s' := by
  have hsame : Tracks reg s (s.registeredIn reg reg' fun _ => []) s' :=
    .insert bound (.of_eq types byFullName) h
  rwa [registeredIn_eq_nil fun _ _ => rfl] at hsame

theorem Tracks.finishCreation {r : Registry} (bound : s.registries[reg']? = some r)
    {create : Registry → Creation} (becomes : r.Becomes (create r).registered (create r).registry)
    (bindTo? : Option String) :
    Tracks reg s (s.registeredIn reg reg' fun r => (create r).registered)
      (s.finishCreation reg' (create r) bindTo?).1 := by
  refine .insert bound becomes ?_
  rw [Session.finishCreation]
  cases (create r).result with
  | error cause => rfl
  | ok t => exact registries_bindType _ bindTo? t

end Tracks

section Commands

variable (reg : String) (s : Session)

theorem tracks_createLink (place : ChainPlace) (number : Nat) (name : String)
    (enclosing? : Option TypeId) :
    Tracks reg s (s.linkRegistered reg place name enclosing?)
      (s.createLink place number name enclosing?).1 := by
  cases place with
  | free => exact .of_registries rfl
  | registered reg' namespaceName =>
      rw [linkRegistered, createLink]
      cases hr : s.registries[reg']? with
      | none =>
          rw [registeredIn_eq_nil (by simp [hr])]
          exact .of_registries rfl
      | some r =>
          cases enclosing? with
          | none =>
              exact .insert hr (r.becomes_createType s.graph namespaceName name 0) rfl
          | some e => exact .insert hr (r.becomes_createNested s.graph e name 0) rfl

theorem registered_eq_nil {c : Creation} (h : ∀ t, c.result ≠ .ok t) : c.registered = [] := by
  rw [Creation.registered]
  cases hresult : c.result with
  | error cause => rfl
  | ok t => exact absurd hresult (h t)

/-- What is refused has registered nothing. -/
theorem linkRegistered_of_error {reg : String} {s : Session} {place : ChainPlace} {number : Nat}
    {name : String} {enclosing? : Option TypeId} {fault : Fault}
    (h : (s.createLink place number name enclosing?).2 = .error fault) :
    s.linkRegistered reg place name enclosing? = [] := by
  cases place with
  | free => rfl
  | registered reg' namespaceName =>
      refine registeredIn_eq_nil fun r hr => registered_eq_nil fun t ht => ?_
      simp only [createLink, hr] at h
      cases enclosing? with
      | none =>
          simp only [Option.elim_none] at ht
          simp only [ht] at h
          cases h
      | some e =>
          simp only [Option.elim_some] at ht
          simp only [ht] at h
          cases h

theorem registries_releaseReplaced (place : ChainPlace) :
    (s.releaseReplaced place).registries = s.registries := by
  cases place with
  | free => rfl
  | registered => exact registries_settle s

/-- By induction on the number of links that are left. -/
theorem tracks_extendChain (place : ChainPlace) (names : Array String) (bindTo : String)
    (left number : Nat) (last? : Option TypeId) :
    Tracks reg s (chainRegistered reg place names bindTo left number last? s)
      (extendChain place names bindTo left number last? s).1 := by
  induction left generalizing number last? s with
  | zero => exact .of_registries (registries_settle s)
  | succ left ih =>
      have hlink := tracks_createLink reg s place number (names.getD (number % names.size) "") last?
      rw [extendChain, chainRegistered]
      cases hmade : s.createLink place number (names.getD (number % names.size) "") last? with
      | mk s' result =>
          rw [hmade] at hlink
          cases result with
          | error fault =>
              rw [linkRegistered_of_error (congrArg Prod.snd hmade)] at hlink
              exact hlink
          | ok t =>
              refine hlink.trans ?_
              have hbound : ((s'.bindType (some (bindTo ++ toString number)) t).releaseReplaced
                  place).registries = s'.registries :=
                (registries_releaseReplaced _ place).trans (registries_bindType ..)
              exact (Tracks.of_registries hbound).trans (ih _ (number + 1) (some t))

theorem tracks_chain (times : Nat) (names : List String) (enclosing? : Option String)
    (place : ChainPlace) (bindTo : String) :
    Tracks reg s (s.registrations reg (.chain times names enclosing? place bindTo))
      (s.chain times names enclosing? place bindTo).1 := by
  have hplace : ∀ last? : Option TypeId,
      Tracks reg s (chainRegistered reg place names.toArray bindTo times 0 last? s)
        (s.findPlace place (extendChain place names.toArray bindTo times 0 last?)).1 := by
    intro last?
    have hchain := tracks_extendChain reg s place names.toArray bindTo times 0 last?
    cases place with
    | free => exact hchain
    | registered reg' namespaceName =>
        rw [findPlace, find]
        cases hr : s.registries[reg']? with
        | some r => exact hchain
        | none =>
            -- the first link already finds that there is no registry
            cases times with
            | zero => exact .of_registries rfl
            | succ left =>
                rw [chainRegistered, createLink, hr]
                exact .of_registries rfl
  cases enclosing? with
  | none => exact hplace none
  | some enclosing =>
      simp only [chain, find, registrations, Option.elim_some]
      cases s.types[enclosing]? with
      | none => exact .of_registries rfl
      | some e => exact hplace (some e)

theorem tracks_insert (reg' type : String) :
    Tracks reg s (s.registrations reg (.insert reg' type)) (s.insert reg' type).1 := by
  refine .find (fun hr => registeredIn_eq_nil (by simp [hr])) fun r hr =>
    .find (fun ht => registeredIn_eq_nil (by simp [ht])) fun t ht => ?_
  rw [registrations, ht]
  cases hinsert : r.insert s.graph t with
  | error cause =>
      rw [registeredIn_eq_nil fun r' hr' => ?_]
      · exact .of_registries rfl
      · obtain rfl := Option.some_inj.mp (hr.symm.trans hr')
        simp [hinsert, Except.toBool]
  | ok r' =>
      refine .insert hr ?_ rfl
      simpa [hinsert, Except.toBool] using Registry.becomes_insert hinsert

theorem tracks_createMethod (reg' type name : String) (attributes : UInt32)
    (signature : MethodSignature) (bindTo? : Option String) :
    Tracks reg s [] (s.createMethod reg' type name attributes signature bindTo?).1 :=
  .find (fun _ => rfl) fun _ hr => .find (fun _ => rfl) fun _ _ =>
    .insert_same hr (registries_bindMethod _ bindTo? _) rfl rfl

/-- A command does to a registry what its registrations say, unless the registry is gone
after it. -/
theorem tracks_perform {command : Command} (lives : ¬ command.endsRegistry reg) :
    Tracks reg s (s.registrations reg command) (s.perform command).1 := by
  cases command with
  | newRegistry origin bindTo =>
      have hne : bindTo ≠ reg := lives
      exact .of_eq (OrderedMap.getElem?_insert_of_ne _ _ hne)
  | createType reg' namespaceName name flags bindTo? =>
      exact .find (fun hr => registeredIn_eq_nil (by simp [hr])) fun r hr =>
        .finishCreation hr (r.becomes_createType s.graph namespaceName name flags) bindTo?
  | createNested reg' enclosing name flags bindTo? =>
      refine .find (fun hr => registeredIn_eq_nil (by simp [hr])) fun r hr =>
        .find (fun he => registeredIn_eq_nil (by simp [he])) fun e he => ?_
      simp only [registrations, he, Option.elim_some]
      exact .finishCreation hr (r.becomes_createNested s.graph e name flags) bindTo?
  | createRef reg' namespaceName name origin bindTo? =>
      exact .find (fun hr => registeredIn_eq_nil (by simp [hr])) fun r hr =>
        .finishCreation hr (r.becomes_createRef s.graph namespaceName name origin) bindTo?
  | insert reg' type => exact tracks_insert reg s reg' type
  | chain times names enclosing? place bindTo =>
      exact tracks_chain reg s times names enclosing? place bindTo
  | addGenericParam reg' type name =>
      exact .find (fun _ => rfl) fun _ hr => .find (fun _ => rfl) fun _ _ =>
        .insert_same hr rfl rfl rfl
  | createMethod reg' type name attributes signature bindTo? =>
      exact tracks_createMethod reg s reg' type name attributes signature bindTo?
  | createConstructor reg' type params bindTo? =>
      exact tracks_createMethod reg s reg' type _ _ _ bindTo?
  | drop kind name =>
      cases kind with
      | registry =>
          have hne : name ≠ reg := lives
          have herase : (s.registries.erase name)[reg]? = s.registries[reg]? := by
            rw [OrderedMap.getElem?_erase, if_neg hne]
          exact .of_eq herase
      | _ => exact .of_registries rfl
  | _ => exact .of_registries (keepsRegistries_perform rfl)

theorem tracks_step {command : Command} (lives : ¬ command.endsRegistry reg) :
    Tracks reg s (s.registrations reg command) (s.step command).1 := by
  have hstep := (tracks_perform reg s lives).trans
    (Tracks.of_registries (registries_settle (s.perform command).1))
  rwa [List.append_nil] at hstep

end Commands

/-! ### Runs -/

theorem logStep_of_lives {s : Session} {reg : String} {log : List Registration}
    {command : Command} (lives : ¬ command.endsRegistry reg) :
    s.logStep reg log command = log ++ s.registrations reg command := by
  cases command with
  | newRegistry origin bindTo => exact (if_neg lives).trans (List.append_nil log).symm
  | drop kind name =>
      cases kind with
      | registry => exact (if_neg lives).trans (List.append_nil log).symm
      | _ => rfl
  | _ => rfl

/-- A registry, as long as it is bound to a name, has taken in the registrations of a log, and
the first of them are those of the primitive types. -/
def Logged (reg : String) (s : Session) (log : List Registration) : Prop :=
  ∀ r, s.registries[reg]? = some r →
    r.Records log ∧ ∃ first, Registry.primitivesFrom first Primitive.all <+: log

section Runs

variable {reg : String} {s : Session} {log : List Registration}

theorem Logged.step_of_lives (h : Logged reg s log) {command : Command}
    (lives : ¬ command.endsRegistry reg) :
    Logged reg (s.step command).1 (s.logStep reg log command) := by
  intro r' hr'
  have htracks := tracks_step reg s lives
  cases hr : s.registries[reg]? with
  | none =>
      rw [htracks.free hr] at hr'
      cases hr'
  | some r =>
      obtain ⟨r'', hr'', hbecomes⟩ := htracks.bound r hr
      obtain rfl := Option.some_inj.mp (hr'.symm.trans hr'')
      obtain ⟨hrecords, first, hfirst⟩ := h r hr
      rw [logStep_of_lives lives]
      exact ⟨hbecomes log hrecords, first, hfirst.trans (List.prefix_append ..)⟩

theorem logged_newRegistry (origin : Origin) :
    Logged reg (s.step (.newRegistry origin reg)).1
      (s.logStep reg log (.newRegistry origin reg)) := by
  intro r hr
  have hmade : (s.step (.newRegistry origin reg)).1.registries[reg]? =
      some (Registry.create s.graph origin).1 := by
    rw [step, registries_settle]
    exact Std.TreeMap.getElem?_insert_self
  obtain rfl := Option.some_inj.mp (hr.symm.trans hmade)
  rw [logStep, if_pos rfl]
  exact ⟨Registry.records_create s.graph origin, s.graph.types.size, List.prefix_rfl⟩

theorem logged_drop : Logged reg (s.step (.drop .registry reg)).1
    (s.logStep reg log (.drop .registry reg)) := by
  intro r hr
  have hgone : (s.step (.drop .registry reg)).1.registries[reg]? = none := by
    rw [step, registries_settle]
    exact Std.TreeMap.getElem?_erase_self
  rw [hgone] at hr
  cases hr

theorem Logged.step (h : Logged reg s log) (command : Command) :
    Logged reg (s.step command).1 (s.logStep reg log command) := by
  by_cases hlives : command.endsRegistry reg
  · cases command with
    | newRegistry origin bindTo =>
        obtain rfl : bindTo = reg := hlives
        exact logged_newRegistry origin
    | drop kind name =>
        cases kind with
        | registry =>
            obtain rfl : name = reg := hlives
            exact logged_drop
        | _ => exact hlives.elim
    | _ => exact hlives.elim
  · exact h.step_of_lives hlives

theorem Logged.run (h : Logged reg s log) (commands : List Command) :
    Logged reg (s.run commands) (logAfter reg s log commands) := by
  induction commands generalizing s log with
  | nil => exact h
  | cons command commands ih => exact ih (h.step command)

theorem logged_run (reg : String) (commands : List Command) :
    Logged reg (empty.run commands) (registrationsOf reg commands) := by
  refine Logged.run (fun r hr => ?_) commands
  simp at hr

/-- As long as no command ends a registry, it stays bound and its log grows. -/
theorem bound_run_of_lives (log : List Registration) {r : Registry} {commands : List Command}
    (lives : ∀ command ∈ commands, ¬ command.endsRegistry reg)
    (bound : s.registries[reg]? = some r) :
    (∃ r', (s.run commands).registries[reg]? = some r') ∧
      log <+: logAfter reg s log commands := by
  induction commands generalizing s log r with
  | nil => exact ⟨⟨r, bound⟩, List.prefix_rfl⟩
  | cons command commands ih =>
      obtain ⟨hlives, hlater⟩ := List.forall_mem_cons.mp lives
      obtain ⟨r', hr', -⟩ := (tracks_step reg s hlives).bound r bound
      obtain ⟨hbound, hprefix⟩ := ih (s.logStep reg log command) hlater hr'
      refine ⟨hbound, List.IsPrefix.trans ?_ hprefix⟩
      rw [logStep_of_lives hlives]
      exact List.prefix_append ..

end Runs

end Session

end AssemblyGraph
