import AssemblyGraph.Proofs.Registry.Log

/-!
The registrations that the operations of a registry make.

An operation that is refused leaves the records as they are, and one that
succeeds adds one registration to them. A new registry has taken in the
primitive types, in their order.
-/

namespace AssemblyGraph.Registry

variable {r r' r'' : Registry} {log log' : List Registration}

/-- The second registry has taken in some registrations after those of the first one. -/
def Becomes (r : Registry) (log : List Registration) (r' : Registry) : Prop :=
  ∀ before, r.Records before → r'.Records (before ++ log)

theorem Becomes.of_eq (types : r'.types = r.types) (byFullName : r'.byFullName = r.byFullName) :
    r.Becomes [] r' := by
  intro before h
  rw [List.append_nil]
  exact h.congr types byFullName

theorem Becomes.trans (h : r.Becomes log r') (h' : r'.Becomes log' r'') :
    r.Becomes (log ++ log') r'' := by
  intro before hr
  rw [← List.append_assoc]
  exact h' _ (h _ hr)

theorem Becomes.enter {x : Registration} (free : ¬ r.types.contains x.token) :
    r.Becomes [x] (r.enter x.token x.fullName x.type) :=
  fun _ h => h.enter free

/-! ### Operations -/

theorem becomes_register (r : Registry) (g : Graph) (d : TypeDecl) :
    r.Becomes (r.register g d).registered (r.register g d).registry := by
  rcases r.register_cases g d with ⟨-, h⟩ | ⟨hfree, h⟩
  · rw [h]
    exact .of_eq rfl rfl
  · simp only [h, Creation.registered, Graph.registration?, g.type?_addType_self d]
    exact Becomes.enter (x := ⟨(g.addType d).2, d.token, _⟩) hfree

theorem becomes_createType (r : Registry) (g : Graph) (namespaceName name : String)
    (flags : UInt32) : r.Becomes (r.createType g namespaceName name flags).registered
      (r.createType g namespaceName name flags).registry :=
  have hskip : r.Becomes [] r.skipTypeDef := .of_eq rfl rfl
  hskip.trans (becomes_register _ g _)

theorem becomes_createRef (r : Registry) (g : Graph) (namespaceName name : String)
    (origin : Origin) : r.Becomes (r.createRef g namespaceName name origin).registered
      (r.createRef g namespaceName name origin).registry :=
  have hskip : r.Becomes [] { r with nextTypeRef := r.nextTypeRef + 1 } := .of_eq rfl rfl
  hskip.trans (becomes_register _ g _)

/-- That its enclosing type lists it has no part in what a type is registered under. -/
theorem registration?_nested (g : Graph) (d : TypeDecl) (enclosing : TypeId) :
    ((g.addType d).1.pushNested enclosing (g.addType d).2).registration? (g.addType d).2 =
      some ⟨(g.addType d).2, d.token, (g.addType d).1.fullName (g.addType d).2⟩ := by
  obtain ⟨d', hd', hgrows⟩ := Graph.keepsTypes_pushNested (g.addType d).1 enclosing
    (g.addType d).2 _ d (g.type?_addType_self d)
  rw [Graph.registration?, hd', Graph.fullName_pushNested, Option.map_some, hgrows.token]

theorem becomes_createNested (r : Registry) (g : Graph) (enclosing : TypeId) (name : String)
    (flags : UInt32) : r.Becomes (r.createNested g enclosing name flags).registered
      (r.createNested g enclosing name flags).registry := by
  have hskip : r.Becomes [] r.skipTypeDef := .of_eq rfl rfl
  rcases r.createNested_cases g enclosing name flags with ⟨-, h⟩ | ⟨hfree, h⟩
  · rw [h]
    exact hskip
  · simp only [h, Creation.registered, registration?_nested]
    exact hskip.trans (Becomes.enter (x := ⟨_, (r.nestedDecl enclosing name flags).token, _⟩) hfree)

/-- An insertion of a living type fails if its token is taken, and enters the type otherwise. -/
theorem insert_cases (r : Registry) {g : Graph} {t : TypeId} {d : TypeDecl}
    (alive : g.type? t = some d) :
    (r.types.contains d.token ∧ r.insert g t = .error (.tokenTaken d.token)) ∨
      (¬ r.types.contains d.token ∧
        r.insert g t = .ok (r.enter d.token (g.fullName t) t)) := by
  simp only [insert, alive]
  by_cases h : r.types.contains d.token = true
  · exact .inl ⟨h, if_pos h⟩
  · exact .inr ⟨h, if_neg h⟩

theorem becomes_insert {g : Graph} {t : TypeId} (h : r.insert g t = .ok r') :
    r.Becomes (g.registration? t).toList r' := by
  cases ht : g.type? t with
  | none =>
      simp only [insert, ht] at h
      cases h
      rw [Graph.registration?, ht]
      exact .of_eq rfl rfl
  | some d =>
      rcases r.insert_cases ht with ⟨-, hrefused⟩ | ⟨hfree, hentered⟩
      · rw [hrefused] at h
        cases h
      · rw [hentered] at h
        cases h
        rw [Graph.registration?, ht]
        exact Becomes.enter (x := ⟨t, d.token, _⟩) hfree

/-! ### New registries -/

/-- The registrations of primitive types that are given identities from a number on. -/
def primitivesFrom : Nat → List Primitive → List Registration
  | _, [] => []
  | first, p :: kinds =>
      ⟨⟨first⟩, p.token, p.namespaceName ++ "." ++ p.name⟩ :: primitivesFrom (first + 1) kinds

theorem length_primitivesFrom (first : Nat) (kinds : List Primitive) :
    (primitivesFrom first kinds).length = kinds.length := by
  induction kinds generalizing first with
  | nil => rfl
  | cons kind kinds ih => exact congrArg Nat.succ (ih (first + 1))

theorem records_empty (origin : Origin) : (empty origin).Records [] where
  types token := by simp [empty]
  distinct := List.nodup_nil
  named n := by simp [bucket, empty]

/-- Registering a primitive type whose token is free gives it the next identity and the name
that it has in its namespace. -/
theorem records_register_primitive (h : r.Records log) (g : Graph) {p : Primitive}
    (free : p.token ∉ log.map (·.token)) :
    (r.register g (primitiveDecl p)).registry.Records
        (log ++ [⟨⟨g.types.size⟩, p.token, p.namespaceName ++ "." ++ p.name⟩]) ∧
      (r.register g (primitiveDecl p)).graph.types.size = g.types.size + 1 := by
  have hfree : ¬ r.types.contains (primitiveDecl p).token := fun hc => free (h.contains_iff.mp hc)
  have hname : Graph.pathName [primitiveDecl p] = p.namespaceName ++ "." ++ p.name := by
    cases p <;> rfl
  rcases r.register_cases g (primitiveDecl p) with ⟨htaken, -⟩ | ⟨-, hreg⟩
  · exact absurd htaken hfree
  · rw [hreg, g.fullName_addType_of_top rfl, hname]
    exact ⟨h.enter (x := ⟨_, _, _⟩) hfree, Array.size_push _⟩

/-- A new registry has taken in the primitive types. -/
theorem records_create (g : Graph) (origin : Origin) :
    (create g origin).1.Records (primitivesFrom g.types.size Primitive.all) := by
  suffices ∀ (kinds : List Primitive) (r : Registry) (g : Graph) (log : List Registration),
      r.Records log → (log.map (·.token) ++ kinds.map Primitive.token).Nodup →
      (kinds.foldl (fun (p : Registry × Graph) kind =>
        ((p.1.register p.2 (primitiveDecl kind)).registry,
          (p.1.register p.2 (primitiveDecl kind)).graph)) (r, g)).1.Records
        (log ++ primitivesFrom g.types.size kinds) from
    this Primitive.all (empty origin) g [] (records_empty origin) (by decide)
  intro kinds
  induction kinds with
  | nil =>
      intro r g log h _
      rw [primitivesFrom, List.append_nil]
      exact h
  | cons kind kinds ih =>
      intro r g log h hdistinct
      have hfree : kind.token ∉ log.map (·.token) := by
        intro hmem
        exact (List.nodup_append.mp hdistinct).2.2 _ hmem _ (List.mem_cons_self ..) rfl
      obtain ⟨hrecords, hsize⟩ := records_register_primitive h g hfree
      have hnext := ih _ (r.register g (primitiveDecl kind)).graph _ hrecords (by
        simpa using hdistinct)
      rw [hsize, List.append_assoc] at hnext
      exact hnext

end AssemblyGraph.Registry
