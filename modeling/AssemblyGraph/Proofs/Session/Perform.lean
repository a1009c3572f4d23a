import AssemblyGraph.Proofs.Factory
import AssemblyGraph.Proofs.Session.Move

/-!
Every command is made of moves.

For each command the moves follow its definition: a name that is not bound and
a result that is an error end it without a move. A command makes no requests
for references but those that `Session.requests` lists.
-/

namespace AssemblyGraph.Session

variable (s : Session)

/-! ### Registries, types and methods -/

theorem newRegistry_moves (origin : Origin) (bindTo : String) :
    Moves s [] (s.newRegistry origin bindTo).1 :=
  (Move.newRegistry bindTo origin).moves

theorem finishCreation_moves {s : Session} {reg : String} {c : Creation}
    (adopted : Move s [] (s.adopt reg c)) (alive : ∀ t, c.result = .ok t → c.graph.isAlive t)
    (bindTo? : Option String) : Moves s [] (s.finishCreation reg c bindTo?).1 := by
  refine adopted.moves.trans (Moves.attempt fun t ht => ?_)
  exact bindType_moves (.inr (alive t ht)) bindTo?

theorem createType_moves (reg namespaceName name : String) (flags : UInt32)
    (bindTo? : Option String) :
    Moves s [] (s.createType reg namespaceName name flags bindTo?).1 :=
  .find fun _ hr => finishCreation_moves (.createType hr namespaceName name flags)
    (fun _ => Registry.isAlive_of_register) bindTo?

theorem createNested_moves (reg enclosing name : String) (flags : UInt32)
    (bindTo? : Option String) :
    Moves s [] (s.createNested reg enclosing name flags bindTo?).1 :=
  .find fun _ hr => .find fun _ he =>
    finishCreation_moves (.createNested hr (held_of_type he) name flags)
      (fun _ => Registry.isAlive_of_createNested) bindTo?

theorem createRef_moves (reg namespaceName name : String) (origin : Origin)
    (bindTo? : Option String) :
    Moves s [] (s.createRef reg namespaceName name origin bindTo?).1 :=
  .find fun _ hr => finishCreation_moves (.createRef hr namespaceName name origin)
    (fun _ => Registry.isAlive_of_register) bindTo?

theorem newType_moves (header : TypeHeader) (bindTo? : Option String) :
    Moves s [] (s.newType header bindTo?).1 := by
  have hadd : Move s [] { s with graph := (s.graph.addType header.decl).1 } :=
    .addType header (fun e he => by cases he)
  refine hadd.moves.trans (bindType_moves (.inr ?_) bindTo?)
  exact Graph.isAlive_iff.mpr ⟨_, s.graph.type?_addType_self header.decl⟩

/-- A link of a chain is alive once it is made. -/
theorem isAlive_of_createLink {s : Session} {place : ChainPlace} {number : Nat} {name : String}
    {enclosing? : Option TypeId} {t : TypeId}
    (h : (s.createLink place number name enclosing?).2 = .ok t) :
    (s.createLink place number name enclosing?).1.graph.isAlive t := by
  cases place with
  | free =>
      cases h
      exact Graph.isAlive_iff.mpr ⟨_, s.graph.type?_addType_self _⟩
  | registered reg namespaceName =>
      rw [createLink] at h ⊢
      cases hr : s.registries[reg]? with
      | none =>
          rw [hr] at h
          cases h
      | some r =>
          rw [hr] at h
          cases enclosing? with
          | none => exact Registry.isAlive_of_register (mapError_eq_ok_iff.mp h)
          | some e => exact Registry.isAlive_of_createNested (mapError_eq_ok_iff.mp h)

/-- A link of a chain is held once it is made, so the next one can be nested
in it. -/
theorem createLink_moves {s : Session} {enclosing? : Option TypeId}
    (held : ∀ e ∈ enclosing?, s.Held e) (place : ChainPlace) (number : Nat) (name : String) :
    Moves s [] (s.createLink place number name enclosing?).1 ∧
      ∀ t, (s.createLink place number name enclosing?).2 = .ok t →
        (s.createLink place number name enclosing?).1.Held t := by
  refine ⟨?_, fun t ht => .inr (isAlive_of_createLink ht)⟩
  cases place with
  | free first namespaceName origin =>
      let header : TypeHeader :=
        ⟨⟨first.value + UInt32.ofNat number⟩, namespaceName, name, 0, origin⟩
      exact (Move.addType header held).moves
  | registered reg namespaceName =>
      rw [createLink]
      cases hr : s.registries[reg]? with
      | none => exact .refl s
      | some r =>
          cases enclosing? with
          | none => exact (Move.createType hr namespaceName name 0).moves
          | some e => exact (Move.createNested hr (held e rfl) name 0).moves

theorem releaseReplaced_moves (place : ChainPlace) : Moves s [] (s.releaseReplaced place) := by
  cases place with
  | free => exact .refl s
  | registered => exact settle_moves s

@[simp] theorem types_releaseReplaced (place : ChainPlace) :
    (s.releaseReplaced place).types = s.types := by
  cases place with
  | free => rfl
  | registered => exact types_settle s

/-- By induction on the number of links that are left. The last link is bound to a
name, so it is still held when the next one is made. -/
theorem extendChain_moves (place : ChainPlace) (names : Array String) (bindTo : String)
    (left number : Nat) {last? : Option TypeId} {s : Session}
    (held : ∀ e ∈ last?, s.Held e) :
    Moves s [] (extendChain place names bindTo left number last? s).1 := by
  induction left generalizing number last? s with
  | zero => exact settle_moves s
  | succ left ih =>
      obtain ⟨hmoves, hheld⟩ := createLink_moves held place number
        (names.getD (number % names.size) "")
      rw [extendChain]
      split
      · rename_i s' fault hlink
        rw [hlink] at hmoves
        exact hmoves
      · rename_i s' t hlink
        rw [hlink] at hmoves hheld
        have hbind := bindType_moves (hheld t rfl) (some (bindTo ++ toString number))
        refine (hmoves.trans (hbind.trans (releaseReplaced_moves _ place))).trans (ih _ ?_)
        rintro e ⟨⟩
        have hbound : ((s'.bindType (some (bindTo ++ toString number)) t).releaseReplaced
            place).types[bindTo ++ toString number]? = some t := by
          rw [types_releaseReplaced]
          exact Std.TreeMap.getElem?_insert_self
        exact held_of_type hbound

theorem chain_moves (times : Nat) (names : List String) (enclosing? : Option String)
    (place : ChainPlace) (bindTo : String) :
    Moves s [] (s.chain times names enclosing? place bindTo).1 := by
  have hplace : ∀ last? : Option TypeId, (∀ e ∈ last?, s.Held e) →
      Moves s [] (s.findPlace place (extendChain place names.toArray bindTo times 0 last?)).1 := by
    intro last? held
    have hchain := extendChain_moves place names.toArray bindTo times 0 held
    cases place with
    | free => exact hchain
    | registered => exact .find fun _ _ => hchain
  cases enclosing? with
  | none => exact hplace none (by simp)
  | some enclosing =>
      refine .find fun e he => hplace (some e) ?_
      rintro _ ⟨⟩
      exact held_of_type he

theorem insert_moves (reg type : String) : Moves s [] (s.insert reg type).1 :=
  .find fun _ hr => .find fun _ ht => .attempt fun _ hinsert =>
    (Move.insert hr (held_of_type ht) hinsert).moves

theorem addGenericParam_moves (reg type name : String) :
    Moves s [] (s.addGenericParam reg type name).1 :=
  .find fun _ hr => .find fun _ ht => (Move.addGenericParam hr (held_of_type ht) name).moves

theorem createMethod_moves (reg type name : String) (attributes : UInt32)
    (signature : MethodSignature) (bindTo? : Option String) :
    Moves s [] (s.createMethod reg type name attributes signature bindTo?).1 :=
  .find fun _ hr => .find fun _ ht =>
    (Move.createMethod hr (held_of_type ht) name attributes signature).moves.trans
      (bindMethod_moves _ _ bindTo?)

theorem newMethod_moves (m : Method) (bindTo? : Option String) :
    Moves s [] (s.newMethod m bindTo?).1 :=
  (Move.addMethod (s := s) (m := { m with declaringType? := none }) rfl).moves.trans
    (bindMethod_moves _ _ bindTo?)

theorem setDeclaringType_moves (method type : String) :
    Moves s [] (s.setDeclaringType method type).1 :=
  .find fun m _ => .find fun _ ht => .present fun _ _ =>
    (Move.setDeclaringType m (held_of_type ht)).moves

theorem pushMethod_moves (type method : String) : Moves s [] (s.pushMethod type method).1 :=
  .find fun _ ht => .find fun m _ => (Move.pushMethod m (held_of_type ht)).moves

theorem setEnclosing_moves (type enclosing : String) :
    Moves s [] (s.setEnclosing type enclosing).1 :=
  .find fun _ ht => .find fun _ he => .attempt fun _ hset =>
    (Move.setEnclosing (held_of_type ht) (held_of_type he) hset).moves

theorem setDefinition_moves (type definition : String) :
    Moves s [] (s.setDefinition type definition).1 :=
  .find fun _ ht => .find fun _ hd => .attempt fun _ hset =>
    (Move.setDefinition (held_of_type ht) (held_of_type hd) hset).moves

theorem held_of_resolve {s : Session} {t d : TypeId} (ht : s.Held t)
    (h : s.graph.resolve t = .ok d) : s.Held d := by
  rw [Graph.resolve] at h
  split at h
  · cases h
  split at h
  · split at h
    · rename_i hfollow
      cases h
      exact held_of_follow? hfollow
    · cases h
  · cases h
    exact ht

theorem resolve_moves (type : String) (bindTo? : Option String) :
    Moves s [] (s.resolve type bindTo?).1 :=
  .find fun _ ht => .attempt fun _ hresolve =>
    bindType_moves (held_of_resolve (held_of_type ht) hresolve) bindTo?

theorem replyType_moves {s : Session} {found? : Option TypeId}
    (held : ∀ t, found? = some t → s.Held t) (bindTo? : Option String) :
    Moves s [] (s.replyType found? bindTo?).1 := by
  cases found? with
  | none => exact .refl s
  | some t => exact bindType_moves (held t rfl) bindTo?

theorem get_moves (reg : String) (token : Token) (bindTo? : Option String) :
    Moves s [] (s.get reg token bindTo?).1 :=
  .find fun _ hr => replyType_moves
    (fun _ hget => held_of_registry hr (Registry.mem_all_of_get? hget)) bindTo?

theorem named_moves (reg fullName : String) (bindTo? : Option String) :
    Moves s [] (s.named reg fullName bindTo?).1 :=
  .find fun _ hr => replyType_moves
    (fun _ hnamed => held_of_registry hr (Registry.mem_all_of_named? hnamed)) bindTo?

theorem primitive_moves (reg : String) (kind : Primitive) (bindTo? : Option String) :
    Moves s [] (s.primitive reg kind bindTo?).1 :=
  .find fun _ hr => .attempt fun _ hkind =>
    bindType_moves (held_of_registry hr (Registry.mem_all_of_primitive hkind)) bindTo?

theorem constructor_moves (type : String) (shape : ConstructorShape) (bindTo? : Option String) :
    Moves s [] (s.constructor type shape bindTo?).1 :=
  .find fun _ _ => .attempt fun entry _ => bindMethod_moves s entry.id bindTo?

theorem makeLink_moves (type bindTo : String) : Moves s [] (s.makeLink type bindTo).1 :=
  .find fun _ ht => (Move.bindLink bindTo (held_of_type ht)).moves

theorem upgrade_moves (link : String) (bindTo? : Option String) :
    Moves s [] (s.upgrade link bindTo?).1 :=
  .find fun _ _ => replyType_moves (fun _ hfollow => held_of_follow? hfollow) bindTo?

/-! ### Identity -/

theorem findOptional_moves {s : Session} {next : Option TypeId → Outcome}
    (h : ∀ t, Moves s [] (next t).1) (type? : Option String) :
    Moves s [] (s.findOptional type? next).1 := by
  cases type? with
  | none => exact h none
  | some type => exact .find fun t _ => h (some t)

theorem findAllOptional_moves {s : Session} {next : List (Option TypeId) → Outcome}
    (h : ∀ ts, Moves s [] (next ts).1) (types : List (Option String)) :
    Moves s [] (s.findAllOptional types next).1 := by
  induction types generalizing next with
  | nil => exact h []
  | cons type? types ih =>
      exact findOptional_moves (fun t => ih fun ts => h (t :: ts)) type?

theorem findKeys_moves {s : Session} {next : List (MapAction TypeId) → Outcome}
    (h : ∀ actions, Moves s [] (next actions).1) (actions : List (MapAction String)) :
    Moves s [] (s.findKeys actions next).1 := by
  induction actions generalizing next with
  | nil => exact h []
  | cons action actions ih => exact .find fun t _ => ih fun rest => h (action.withKey t :: rest)

/-! ### Modules, tables, factories and records -/

theorem newModule_moves (name bindTo : String) (config : Config) :
    Moves s [] (s.newModule name bindTo config).1 :=
  (Move.newModule name bindTo config).moves

theorem replyTable_moves {s : Session} {table : WellKnownTable}
    (held : ∀ t ∈ table.ownedTypes, s.Held t) (bindTo : String) :
    Moves s [] (s.replyTable table bindTo).1 :=
  (Move.bindTable bindTo held).moves

theorem newTable_moves (module byte boolean bindTo : String) :
    Moves s [] (s.newTable module byte boolean bindTo).1 := by
  refine .find fun m _ => .find fun b hb => .find fun c hc =>
    replyTable_moves (fun t ht => ?_) bindTo
  simp only [WellKnownTable.ownedTypes, WellKnownTable.create, WellKnown.all,
    List.filterMap_cons, List.filterMap_nil, List.mem_cons, List.not_mem_nil, or_false] at ht
  rcases ht with rfl | rfl
  · exact held_of_type hb
  · exact held_of_type hc

theorem resolveTable_moves (module reg bindTo : String) :
    Moves s [] (s.resolveTable module reg bindTo).1 :=
  .find fun _ _ => .find fun _ hr => .attempt fun _ hresolve =>
    replyTable_moves (fun _ ht =>
      held_of_registry hr (WellKnownTable.mem_all_of_resolve hresolve ht)) bindTo

theorem bindWellKnown_moves (type table : String) (kind : WellKnown) :
    Moves s [] (s.bindWellKnown type table kind).1 := by
  refine .find fun t ht => .find fun known hknown => ?_
  refine (Move.bindTable table fun u hu => ?_).moves.trans (settle_moves _)
  rcases WellKnownTable.mem_ownedTypes_bind hu with rfl | hu
  · exact held_of_type ht
  · exact held_of_table hknown hu

theorem wellKnown_moves (owner : TableOwner) (kind : WellKnown) (bindTo? : Option String) :
    Moves s [] (s.wellKnown owner kind bindTo?).1 := by
  cases owner with
  | table name =>
      exact .find fun known hknown => .attempt fun t ht => bindType_moves
        (held_of_table hknown (WellKnownTable.mem_ownedTypes_of_get ht)) bindTo?
  | factory name =>
      exact .find fun f hf => .attempt fun t ht => bindType_moves (held_of_factory hf
        (Factory.mem_ownedTypes_of_table (WellKnownTable.mem_ownedTypes_of_get ht))) bindTo?

/-- The factory is bound before the name of its table is freed, so the types are
owned throughout. -/
theorem newFactory_moves
    (embedded nullable nullableContext nullablePublicOnly table : String) (config : Config)
    (bindTo : String) :
    Moves s [] (s.newFactory embedded nullable nullableContext nullablePublicOnly table config
      bindTo).1 := by
  refine .find fun e he => .find fun n hn => .find fun c hc => .find fun p hp =>
    .find fun known hknown => ?_
  cases hmade : Factory.create s.graph config known e n c p with
  | error cause =>
      simp only [hmade]
      exact (Move.unbind .table table).moves
  | ok f =>
      have howned : ∀ t ∈ f.ownedTypes, s.Held t := by
        rw [Factory.eq_of_create hmade]
        intro t ht
        rcases List.mem_append.mp ht with ht | ht
        · exact held_of_table hknown ht
        · simp only [List.mem_cons, List.not_mem_nil, or_false] at ht
          rcases ht with rfl | rfl | rfl | rfl
          · exact held_of_type he
          · exact held_of_type hn
          · exact held_of_type hc
          · exact held_of_type hp
      simp only [hmade]
      exact (Move.bindFactory bindTo howned).moves.trans (Move.unbind .table table).moves

theorem findArgType_moves {s : Session} {next : ArgType → Outcome} (type : NamedArgType)
    (h : ∀ t, s.Held t.elementType → Moves s [] (next t).1) :
    Moves s [] (s.findArgType type next).1 := by
  induction type generalizing next with
  | single name => exact .find fun t ht => h (.single t) (held_of_type ht)
  | array element ih => exact ih fun t ht => h (.array t) ht

theorem findArgs_moves {s : Session} {next : List TypedArg → Outcome} (specs : List ArgSpec)
    (h : ∀ args : List TypedArg, (∀ arg ∈ args, s.Held arg.type.elementType) →
      Moves s [] (next args).1) :
    Moves s [] (s.findArgs specs next).1 := by
  induction specs generalizing next with
  | nil => exact h [] (by simp)
  | cons spec specs ih =>
      refine findArgType_moves spec.type fun t ht => ih fun args hargs => h _ ?_
      simpa using ⟨ht, hargs⟩

theorem makeRecord_moves (methodRef : String) (fixedArgs : List ArgSpec)
    (namedArgs : List NamedArgSpec) (bindTo : String) :
    Moves s [] (s.makeRecord methodRef fixedArgs namedArgs bindTo).1 := by
  refine .find fun r _ => findArgs_moves fixedArgs fun fixed hfixed =>
    findArgs_moves (namedArgs.map (·.arg)) fun args hargs =>
      (Move.bindRecord bindTo fun t ht => ?_).moves
  obtain ⟨arg, harg, rfl⟩ := List.mem_map.mp ht
  rcases List.mem_append.mp harg with harg | harg
  · exact hfixed arg harg
  · refine hargs arg ?_
    obtain ⟨named, hnamed, rfl⟩ := List.mem_map.mp harg
    rw [← List.map_uncurry_zip_eq_zipWith] at hnamed
    obtain ⟨⟨spec, arg⟩, hpair, rfl⟩ := List.mem_map.mp hnamed
    exact (List.of_mem_zip hpair).2

theorem attach_moves (type record : String) : Moves s [] (s.attach type record).1 :=
  .find fun _ ht => .find fun _ hr =>
    (Move.attach (held_of_type ht) fun _ hu => held_of_record hr hu).moves

theorem drop_moves (kind : HandleKind) (name : String) : Moves s [] (s.drop kind name).1 :=
  (Move.unbind kind name).moves

/-! ### Requests for references -/

theorem setTarget_self {s : Session} {id : ModuleId} {m : TargetModule}
    (h : s.target? id = some m) : s.setTarget id m = s := by
  have hset : s.targets.setIfInBounds id.index m = s.targets := by
    refine Array.ext_getElem? fun i => ?_
    rw [Array.getElem?_setIfInBounds]
    split
    · rename_i hi
      rw [← hi, ← target?, h, if_pos (Array.getElem?_eq_some_iff.mp h).1]
    · rfl
  rw [setTarget, hset]

/-- A request that fails is a move which changes nothing. -/
theorem moves_of_refer_error {s : Session} {id : ModuleId} {m : TargetModule}
    {entry : MethodEntry} {cause : Error} (known : s.target? id = some m)
    (found : s.graph.methodWithId? entry.id = some entry)
    (failed : m.refer s.graph entry = .error cause) :
    Moves s [⟨id, m, s.graph, entry⟩] s := by
  have hmove := Move.refer (s := s) (r := ⟨id, m, s.graph, entry⟩) rfl known found
  rw [Referral.after_of_error failed, setTarget_self known] at hmove
  exact hmove.moves

theorem moves_of_refer_ok {s : Session} {id : ModuleId} {m m' : TargetModule}
    {entry : MethodEntry} {reference : MethodReference} (known : s.target? id = some m)
    (found : s.graph.methodWithId? entry.id = some entry)
    (answered : m.refer s.graph entry = .ok (reference, m')) :
    Moves s [⟨id, m, s.graph, entry⟩] (s.setTarget id m') := by
  have hmove := Move.refer (s := s) (r := ⟨id, m, s.graph, entry⟩) rfl known found
  rw [Referral.after_of_ok answered] at hmove
  exact hmove.moves

theorem importMethod_moves (module method : String) (bindTo? : Option String) :
    Moves s (s.requests (.importMethod module method bindTo?))
      (s.importMethod module method bindTo?).1 := by
  simp only [importMethod, findTarget, find, requests]
  cases hmodule : s.modules[module]? with
  | none => exact .refl s
  | some id =>
  cases hm : s.target? id with
  | none => simpa [present, hm] using .refl s
  | some m =>
  cases hmethod : s.methods[method]? with
  | none => simpa [present, hm] using .refl s
  | some e =>
  cases hentry : s.graph.methodWithId? e with
  | none => simpa [present, hm, hentry] using .refl s
  | some entry =>
  have hfound : s.graph.methodWithId? entry.id = some entry := by
    rw [Graph.id_eq_of_methodWithId? hentry, hentry]
  cases hrefer : m.refer s.graph entry with
  | error cause =>
      simpa [present, attempt, hm, hentry, hrefer] using moves_of_refer_error hm hfound hrefer
  | ok answer =>
      obtain ⟨reference, m'⟩ := answer
      have hmoves := (moves_of_refer_ok hm hfound hrefer).trans
        (bindMethodRef_moves (s.setTarget id m') reference bindTo?)
      simpa [present, attempt, reply, hm, hentry, hrefer] using hmoves

theorem build_moves (factory : String) (request : Request) (bindTo? : Option String) :
    Moves s (s.requests (.build factory request bindTo?))
      (s.build factory request bindTo?).1 := by
  simp only [build, find, requests]
  cases hfactory : s.factories[factory]? with
  | none => exact .refl s
  | some f =>
  cases hm : s.target? f.table.module with
  | none => simpa [present, hm] using .refl s
  | some m =>
  cases hentry : f.constructorFor s.graph request with
  | error cause =>
      simpa [present, attempt, Factory.build, hm, hentry, Except.toOption] using .refl s
  | ok entry =>
  cases hargs : f.fixedArgs request with
  | error cause =>
      simpa [present, attempt, Factory.build, hm, hentry, hargs, Except.toOption] using .refl s
  | ok args =>
  have hfound := Factory.methodWithId?_of_constructorFor hentry
  cases hrefer : m.refer s.graph entry with
  | error cause =>
      have hbuild : f.build s.graph m request = .error cause := by
        rw [Factory.build, hentry, hargs]
        show (m.refer s.graph entry >>= _) = _
        rw [hrefer]
        rfl
      simpa [present, attempt, hm, hentry, hargs, hbuild, Except.toOption]
        using moves_of_refer_error hm hfound hrefer
  | ok answer =>
      obtain ⟨reference, m'⟩ := answer
      have hbuild : f.build s.graph m request =
          .ok (⟨reference, args, f.namedArgs request⟩, m') :=
        Factory.build_eq_ok_iff.mpr ⟨entry, args, reference, hentry, hargs, hrefer, rfl⟩
      have hbind := bindRecord_moves (s := s.setTarget f.table.module m')
        (fun t ht => held_of_factory hfactory (Factory.ownedTypes_subset_of_build hbuild t ht))
        bindTo?
      simpa [present, attempt, reply, hm, hentry, hargs, hbuild, Except.toOption]
        using (moves_of_refer_ok hm hfound hrefer).trans hbind

/-! ### Commands -/

theorem perform_moves (command : Command) :
    Moves s (s.requests command) (s.perform command).1 := by
  cases command with
  | newRegistry origin bindTo => exact newRegistry_moves s origin bindTo
  | createType reg namespaceName name flags bindTo? =>
      exact createType_moves s reg namespaceName name flags bindTo?
  | createNested reg enclosing name flags bindTo? =>
      exact createNested_moves s reg enclosing name flags bindTo?
  | createRef reg namespaceName name origin bindTo? =>
      exact createRef_moves s reg namespaceName name origin bindTo?
  | newType header bindTo? => exact newType_moves s header bindTo?
  | chain times names enclosing? place bindTo =>
      exact chain_moves s times names enclosing? place bindTo
  | insert reg type => exact insert_moves s reg type
  | addGenericParam reg type name => exact addGenericParam_moves s reg type name
  | createMethod reg type name attributes signature bindTo? =>
      exact createMethod_moves s reg type name attributes signature bindTo?
  | createConstructor reg type params bindTo? => exact createMethod_moves s reg type _ _ _ bindTo?
  | newMethod method bindTo? => exact newMethod_moves s method bindTo?
  | setDeclaringType method type => exact setDeclaringType_moves s method type
  | pushMethod type method => exact pushMethod_moves s type method
  | setEnclosing type enclosing => exact setEnclosing_moves s type enclosing
  | setDefinition type definition => exact setDefinition_moves s type definition
  | resolve type bindTo? => exact resolve_moves s type bindTo?
  | get reg token bindTo? => exact get_moves s reg token bindTo?
  | named reg fullName bindTo? => exact named_moves s reg fullName bindTo?
  | primitive reg kind bindTo? => exact primitive_moves s reg kind bindTo?
  | constructor type shape bindTo? => exact constructor_moves s type shape bindTo?
  | makeLink type bindTo => exact makeLink_moves s type bindTo
  | upgrade link bindTo? => exact upgrade_moves s link bindTo?
  | newModule name bindTo config => exact newModule_moves s name bindTo config
  | importMethod module method bindTo? => exact importMethod_moves s module method bindTo?
  | newTable module byte boolean bindTo => exact newTable_moves s module byte boolean bindTo
  | resolveTable module reg bindTo => exact resolveTable_moves s module reg bindTo
  | bindWellKnown type table kind => exact bindWellKnown_moves s type table kind
  | wellKnown owner kind bindTo? => exact wellKnown_moves s owner kind bindTo?
  | newFactory embedded nullable nullableContext nullablePublicOnly table config bindTo =>
      exact newFactory_moves s embedded nullable nullableContext nullablePublicOnly table config
        bindTo
  | build factory request bindTo? => exact build_moves s factory request bindTo?
  | makeRecord methodRef fixedArgs namedArgs bindTo =>
      exact makeRecord_moves s methodRef fixedArgs namedArgs bindTo
  | attach type record => exact attach_moves s type record
  | drop kind name => exact drop_moves s kind name
  -- the other commands only answer
  | namedAll | allTypes | declaredTypes | describeRegistry | findConstructor | viewLink
  | viewMethodRef | viewRecord | property => exact .find fun _ _ => .refl s
  | viewType | describeType | viewMethod | describeMethod | memberRef | describeModule =>
      exact .find fun _ _ => .present fun _ _ => .refl s
  | validate => exact .find fun _ _ => .attempt fun _ _ => .refl s
  | matchTypes => exact .find fun _ _ => .find fun _ _ => .refl s
  | compare a b => exact findOptional_moves (fun _ => findOptional_moves (fun _ => .refl s) b) a
  | hash type? => exact findOptional_moves (fun _ => .refl s) type?
  | hashesCancel types => exact findAllOptional_moves (fun _ => .refl s) types
  | useMap actions => exact findKeys_moves (fun _ => .refl s) actions

theorem step_moves (command : Command) : Moves s (s.requests command) (s.step command).1 := by
  have hmoves := (perform_moves s command).trans (settle_moves _)
  rwa [List.append_nil] at hmoves

/-- A run is made of moves, and the requests of the moves are its history. -/
theorem run_moves (commands : List Command) : Moves s (s.history commands) (s.run commands) := by
  induction commands generalizing s with
  | nil => exact .refl s
  | cons command commands ih => exact (step_moves s command).trans (ih _)

end AssemblyGraph.Session
