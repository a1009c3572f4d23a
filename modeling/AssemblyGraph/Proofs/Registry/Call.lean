import AssemblyGraph.Proofs.Registry.Registered

/-!
Calls that register a type.

A type is registered by inserting it, or by creating it at the top level, in
another type or as a reference. Each of these calls knows the token it will use
before it begins. If that token is free, exactly one type is registered; if it
is taken, nothing happens except that the row is used up.
-/

namespace AssemblyGraph

inductive RegistryCall where
  | insert (t : TypeId)
  | createType (namespaceName name : String) (flags : UInt32)
  | createNested (enclosing : TypeId) (name : String) (flags : UInt32)
  | createRef (namespaceName name : String) (origin : Origin)

namespace RegistryCall

/-- A registry and a graph after a call, and the type that it has registered. -/
def run (r : Registry) (g : Graph) : RegistryCall → Creation
  | insert t =>
      match r.insert g t with
      | .ok r' => ⟨r', g, .ok t⟩
      | .error cause => ⟨r, g, .error cause⟩
  | createType namespaceName name flags => r.createType g namespaceName name flags
  | createNested enclosing name flags => r.createNested g enclosing name flags
  | createRef namespaceName name origin => r.createRef g namespaceName name origin

/-- The token that a call registers a type under. There is none to insert a type that is
gone. -/
def token? (r : Registry) (g : Graph) : RegistryCall → Option Token
  | insert t => (g.type? t).map (·.token)
  | createType .. | createNested .. => some (.inTable .typeDef r.nextTypeDef)
  | createRef .. => some (.inTable .typeRef r.nextTypeRef)

/-- A registry that has given out the row of a call. -/
def takeRow (r : Registry) : RegistryCall → Registry
  | insert _ => r
  | createType .. | createNested .. => r.skipTypeDef
  | createRef .. => { r with nextTypeRef := r.nextTypeRef + 1 }

/-- The type that lists what a call creates. -/
def enclosing? : RegistryCall → Option TypeId
  | createNested enclosing .. => some enclosing
  | _ => none

/-- A call has registered one type, under a token that was free. Of the other types, only the
enclosing one has changed. -/
structure Registers (call : RegistryCall) (r : Registry) (g : Graph) (token : Token) (t : TypeId)
    (c : Creation) : Prop where
  result : c.result = .ok t
  held : ∃ d, c.graph.type? t = some d ∧ d.token = token
  free : r.get? token = none
  get? : ∀ token', c.registry.get? token' = if token = token' then some t else r.get? token'
  size : c.registry.size = r.size + 1
  bucket : ∀ n, c.registry.bucket n =
    if c.graph.fullName t = n then r.bucket n ++ [token] else r.bucket n
  added : (call = .insert t ∧ c.graph = g) ∨ g.type? t = none
  others : ∀ u, u ≠ t → c.graph.type? u =
    if call.enclosing? = some u then
      (g.type? u).map fun d => { d with nested := d.nested ++ [t] }
    else g.type? u

/-- A call has found its token taken, and has done nothing but use up its row. -/
structure Refuses (call : RegistryCall) (r : Registry) (g : Graph) (token : Token)
    (c : Creation) : Prop where
  result : c.result = .error (.tokenTaken token)
  taken : ∃ t, r.get? token = some t
  types : c.registry.types = r.types
  byFullName : c.registry.byFullName = r.byFullName
  registry : c.registry = call.takeRow r
  graph : c.graph = g

/-! ### The two outcomes of a call -/

variable {call : RegistryCall} {r : Registry} {g : Graph} {token : Token} {t : TypeId}
  {c : Creation}

theorem Registers.of_enter (result : c.result = .ok t)
    (held : ∃ d, c.graph.type? t = some d ∧ d.token = token)
    (free : ¬ r.types.contains token)
    (entered : c.registry = (call.takeRow r).enter token (c.graph.fullName t) t)
    (added : (call = .insert t ∧ c.graph = g) ∨ g.type? t = none)
    (others : ∀ u, u ≠ t → c.graph.type? u =
      if call.enclosing? = some u then
        (g.type? u).map fun d => { d with nested := d.nested ++ [t] }
      else g.type? u) : call.Registers r g token t c := by
  have htypes : (call.takeRow r).types = r.types := by cases call <;> rfl
  have hbucket : ∀ n, (call.takeRow r).bucket n = r.bucket n := by
    intro n
    cases call <;> rfl
  refine ⟨result, held, ?_, fun token' => ?_, ?_, fun n => ?_, added, others⟩
  · rw [Std.TreeMap.contains_eq_isSome_getElem?, Option.not_isSome_iff_eq_none] at free
    exact free
  · rw [entered, Registry.get?, Registry.enter, OrderedMap.getElem?_insert, htypes, Registry.get?]
  · rw [entered, Registry.size, Registry.enter, Std.TreeMap.size_insert, htypes, if_neg free,
      Registry.size]
  · rw [entered, Registry.bucket_enter, hbucket]

theorem Refuses.of_taken (result : c.result = .error (.tokenTaken token))
    (taken : r.types.contains token) (registry : c.registry = call.takeRow r)
    (graph : c.graph = g) : call.Refuses r g token c := by
  refine ⟨result, ?_, ?_, ?_, registry, graph⟩
  · rwa [Std.TreeMap.contains_eq_isSome_getElem?, Option.isSome_iff_exists] at taken
  · rw [registry]
    cases call <;> rfl
  · rw [registry]
    cases call <;> rfl

/-- What it comes to when a type is registered at the top level, after its row was given out. -/
theorem registers_or_refuses_register {d : TypeDecl} (htoken : d.token = token)
    (hrun : call.run r g = (call.takeRow r).register g d) (htop : call.enclosing? = none) :
    (∃ t, call.Registers r g token t (call.run r g)) ∨
      call.Refuses r g token (call.run r g) := by
  have htypes : (call.takeRow r).types = r.types := by cases call <;> rfl
  rw [hrun]
  rcases (call.takeRow r).register_cases g d with ⟨htaken, h⟩ | ⟨hfree, h⟩
  · rw [htypes, htoken] at htaken
    rw [h, htoken]
    exact .inr (.of_taken rfl htaken rfl rfl)
  · rw [htypes, htoken] at hfree
    rw [h, htoken]
    refine .inl ⟨_, .of_enter rfl ⟨d, g.type?_addType_self d, htoken⟩ hfree rfl
      (.inr (g.type?_new d)) fun u hu => ?_⟩
    rw [htop, if_neg nofun]
    exact g.type?_addType_of_ne d hu

theorem registers_or_refuses_createNested (enclosing : TypeId) (name : String) (flags : UInt32) :
    let call := createNested enclosing name flags
    let token := Token.inTable .typeDef r.nextTypeDef
    (∃ t, call.Registers r g token t (call.run r g)) ∨
      call.Refuses r g token (call.run r g) := by
  intro call token
  have hrun : call.run r g = r.createNested g enclosing name flags := rfl
  rw [hrun]
  rcases r.createNested_cases g enclosing name flags with ⟨htaken, h⟩ | ⟨hfree, h⟩
  · rw [h]
    exact .inr (.of_taken rfl htaken rfl rfl)
  · let d := r.nestedDecl enclosing name flags
    rw [h]
    refine .inl ⟨_, .of_enter rfl ?_ hfree ?_ (.inr (g.type?_new d)) fun u hu => ?_⟩
    · obtain ⟨d', hd', hgrows⟩ := Graph.keepsTypes_pushNested _ enclosing (g.addType d).2 _ _
        (g.type?_addType_self d)
      exact ⟨d', hd', hgrows.token⟩
    · rw [Graph.fullName_pushNested]
      rfl
    · rw [Graph.pushNested, Graph.type?_modifyType, g.type?_addType_of_ne d hu, enclosing?]
      simp only [Option.some.injEq, eq_comm (a := u)]

theorem registers_or_refuses_insert {t : TypeId} (h : (insert t).token? r g = some token) :
    (∃ u, (insert t).Registers r g token u ((insert t).run r g)) ∨
      (insert t).Refuses r g token ((insert t).run r g) := by
  obtain ⟨d, hd, rfl⟩ := Option.map_eq_some_iff.mp h
  rw [run]
  rcases r.insert_cases hd with ⟨htaken, hinsert⟩ | ⟨hfree, hinsert⟩
  · rw [hinsert]
    exact .inr (.of_taken rfl htaken rfl rfl)
  · rw [hinsert]
    exact .inl ⟨t, .of_enter rfl ⟨d, hd, rfl⟩ hfree rfl (.inl ⟨rfl, rfl⟩) fun u _ => rfl⟩

/-- A call registers one type under its token, or finds the token taken and leaves both
indices and the graph as they are. -/
theorem registers_or_refuses (call : RegistryCall) (h : call.token? r g = some token) :
    (∃ t, call.Registers r g token t (call.run r g)) ∨
      call.Refuses r g token (call.run r g) := by
  cases call with
  | insert t => exact registers_or_refuses_insert h
  | createType namespaceName name flags =>
      obtain rfl := Option.some_inj.mp h
      exact registers_or_refuses_register rfl rfl rfl
  | createNested enclosing name flags =>
      obtain rfl := Option.some_inj.mp h
      exact registers_or_refuses_createNested enclosing name flags
  | createRef namespaceName name origin =>
      obtain rfl := Option.some_inj.mp h
      exact registers_or_refuses_register rfl rfl rfl

end RegistryCall

end AssemblyGraph
