import AssemblyGraph.Proofs.Session.Frame

/-!
Commands that leave the registries or the tables alone.

Only a few commands work on registries, and a few others on tables and on the factories that take
them over. All of them may look such objects up, but they bind and change objects of other kinds.
-/

namespace AssemblyGraph

/-- Whether a command can change a registry. -/
def Command.worksOnRegistry : Command → Bool
  | .newRegistry .. | .createType .. | .createNested .. | .createRef .. | .insert ..
  | .addGenericParam .. | .createMethod .. | .createConstructor .. | .chain ..
  | .drop .registry _ => true
  | _ => false

/-- Whether a command can change a table, or a factory, which has one. -/
def Command.worksOnTable : Command → Bool
  | .newTable .. | .resolveTable .. | .bindWellKnown .. | .newFactory .. | .drop .table _
  | .drop .factory _ => true
  | _ => false

namespace Session

/-- The registries of one state are those of another. -/
def KeepsRegistries (s s' : Session) : Prop :=
  s'.registries = s.registries

/-- The tables and factories of one state are those of another. -/
structure KeepsTables (s s' : Session) : Prop where
  tables : s'.tables = s.tables
  factories : s'.factories = s.factories

/-- Registries, tables and factories of one state are those of another. -/
structure KeepsHolders (s s' : Session) : Prop extends s.KeepsTables s' where
  registries : s'.registries = s.registries

variable {s s' : Session}

theorem KeepsTables.refl (s : Session) : s.KeepsTables s :=
  ⟨rfl, rfl⟩

theorem KeepsTables.trans {s'' : Session} (h : s.KeepsTables s') (h' : s'.KeepsTables s'') :
    s.KeepsTables s'' :=
  ⟨h'.tables.trans h.tables, h'.factories.trans h.factories⟩

theorem KeepsHolders.refl (s : Session) : s.KeepsHolders s :=
  ⟨.refl s, rfl⟩

section Binding

variable (h : s.KeepsHolders s') {bindTo? : Option String}

include h

theorem KeepsHolders.bindType (t : TypeId) : s.KeepsHolders (s'.bindType bindTo? t) := by
  cases bindTo? <;> exact { h with }

theorem KeepsHolders.bindMethod (m : MethodId) : s.KeepsHolders (s'.bindMethod bindTo? m) := by
  cases bindTo? <;> exact { h with }

theorem KeepsHolders.bindMethodRef (r : MethodReference) :
    s.KeepsHolders (s'.bindMethodRef bindTo? r) := by
  cases bindTo? <;> exact { h with }

theorem KeepsHolders.bindRecord (record : AttributeRecord) :
    s.KeepsHolders (s'.bindRecord bindTo? record) := by
  cases bindTo? <;> exact { h with }

theorem KeepsHolders.replyType {found? : Option TypeId} :
    s.KeepsHolders (s'.replyType found? bindTo?).1 := by
  cases found? with
  | none => exact h
  | some t => exact h.bindType t

end Binding

@[simp] theorem registries_bindType (s : Session) (bindTo? : Option String) (t : TypeId) :
    (s.bindType bindTo? t).registries = s.registries := by
  cases bindTo? <;> rfl

@[simp] theorem registries_bindMethod (s : Session) (bindTo? : Option String) (m : MethodId) :
    (s.bindMethod bindTo? m).registries = s.registries := by
  cases bindTo? <;> rfl

@[simp] theorem registries_settle (s : Session) : s.settle.registries = s.registries := by
  rw [settle_eq]

/-- What works neither on registries nor on tables leaves both alone. -/
theorem keepsHolders_perform {command : Command} (registry : command.worksOnRegistry = false)
    (table : command.worksOnTable = false) : s.KeepsHolders (s.perform command).1 := by
  have hs : s.KeepsHolders s := .refl s
  cases command with
  | newRegistry | createType | createNested | createRef | insert | addGenericParam | createMethod
  | createConstructor | chain => cases registry
  | newTable | resolveTable | bindWellKnown | newFactory => cases table
  | newType header bindTo? =>
      have hadd : s.KeepsHolders { s with graph := (s.graph.addType header.decl).1 } := { hs with }
      exact hadd.bindType _
  | newMethod method bindTo? =>
      have hadd : s.KeepsHolders { s with
        graph := (s.graph.addMethod { method with declaringType? := none }).1 } := { hs with }
      exact hadd.bindMethod _
  | setDeclaringType =>
      exact find_keeps hs fun _ _ => find_keeps hs fun _ _ => present_keeps hs fun _ _ =>
        { hs with }
  | pushMethod | attach => exact find_keeps hs fun _ _ => find_keeps hs fun _ _ => { hs with }
  | setEnclosing | setDefinition =>
      exact find_keeps hs fun _ _ => find_keeps hs fun _ _ => attempt_keeps hs fun _ _ =>
        { hs with }
  | resolve => exact find_keeps hs fun _ _ => attempt_keeps hs fun t _ => hs.bindType t
  | get | named | upgrade => exact find_keeps hs fun _ _ => hs.replyType
  | primitive => exact find_keeps hs fun _ _ => attempt_keeps hs fun _ _ => hs.replyType
  | constructor => exact find_keeps hs fun _ _ => attempt_keeps hs fun _ _ => hs.bindMethod _
  | makeLink => exact find_keeps hs fun _ _ => { hs with }
  | newModule => exact { hs with }
  | importMethod =>
      exact find_keeps hs fun _ _ => present_keeps hs fun _ _ => find_keeps hs fun _ _ =>
        present_keeps hs fun _ _ => attempt_keeps hs fun made _ =>
          have htarget : s.KeepsHolders (s.setTarget _ made.2) := { hs with }
          htarget.bindMethodRef made.1
  | wellKnown owner kind bindTo? =>
      have hnext : ∀ table : WellKnownTable, s.KeepsHolders (s.attempt (table.get kind) fun t =>
          (s.bindType bindTo? t).reply (.type (s.graph.brief? t))).1 :=
        fun _ => attempt_keeps hs fun t _ => hs.bindType t
      cases owner with
      | table => exact find_keeps hs fun table _ => hnext table
      | factory => exact find_keeps hs fun f _ => hnext f.table
  | build =>
      exact find_keeps hs fun _ _ => present_keeps hs fun _ _ => attempt_keeps hs fun made _ =>
        have htarget : s.KeepsHolders (s.setTarget _ made.2) := { hs with }
        htarget.bindRecord made.1
  | makeRecord =>
      exact find_keeps hs fun _ _ => findArgs_keeps hs fun _ => findArgs_keeps hs fun _ =>
        { hs with }
  | drop kind name =>
      cases kind with
      | registry => cases registry
      | table | factory => cases table
      | _ => exact { hs with }
  | _ =>
      rw [perform_of_onlyAnswers s rfl]
      exact hs

theorem keepsRegistries_perform {command : Command} (h : command.worksOnRegistry = false) :
    s.KeepsRegistries (s.perform command).1 := by
  cases command with
  | newTable =>
      exact find_keeps rfl fun _ _ => find_keeps rfl fun _ _ => find_keeps rfl fun _ _ => rfl
  | resolveTable =>
      exact find_keeps rfl fun _ _ => find_keeps rfl fun _ _ => attempt_keeps rfl fun _ _ => rfl
  | bindWellKnown =>
      exact find_keeps rfl fun _ _ => find_keeps rfl fun _ _ => registries_settle _
  | newFactory =>
      exact find_keeps rfl fun _ _ => find_keeps rfl fun _ _ => find_keeps rfl fun _ _ =>
        find_keeps rfl fun _ _ => find_keeps rfl fun _ _ => attempt_keeps rfl fun _ _ => rfl
  | drop kind =>
      cases kind with
      | registry => cases h
      | _ => rfl
  | _ => exact (keepsHolders_perform h rfl).registries

/-! ### Tables -/

theorem keepsTables_settle (s : Session) : s.KeepsTables s.settle := by
  rw [settle_eq]
  exact ⟨rfl, rfl⟩

theorem keepsTables_finishCreation (reg : String) (c : Creation) (bindTo? : Option String) :
    s.KeepsTables (s.finishCreation reg c bindTo?).1 := by
  rw [finishCreation]
  cases c.result with
  | error cause => exact ⟨rfl, rfl⟩
  | ok t => cases bindTo? <;> exact ⟨rfl, rfl⟩

theorem keepsTables_createLink (place : ChainPlace) (number : Nat) (name : String)
    (enclosing? : Option TypeId) :
    s.KeepsTables (s.createLink place number name enclosing?).1 := by
  cases place with
  | free => exact ⟨rfl, rfl⟩
  | registered reg =>
      rw [createLink]
      cases s.registries[reg]? <;> exact ⟨rfl, rfl⟩

theorem keepsTables_createMethod (reg type name : String) (attributes : UInt32)
    (signature : MethodSignature) (bindTo? : Option String) :
    s.KeepsTables (s.createMethod reg type name attributes signature bindTo?).1 := by
  have hs := KeepsTables.refl s
  refine find_keeps hs fun _ _ => find_keeps hs fun _ _ => ?_
  cases bindTo? <;> exact ⟨rfl, rfl⟩

theorem keepsTables_perform {command : Command} (h : command.worksOnTable = false) :
    s.KeepsTables (s.perform command).1 := by
  have hs := KeepsTables.refl s
  cases command with
  | newRegistry => exact ⟨rfl, rfl⟩
  | createType | createRef =>
      exact find_keeps hs fun _ _ => keepsTables_finishCreation _ _ _
  | createNested =>
      exact find_keeps hs fun _ _ => find_keeps hs fun _ _ => keepsTables_finishCreation _ _ _
  | insert =>
      exact find_keeps hs fun _ _ => find_keeps hs fun _ _ => attempt_keeps hs fun _ _ => ⟨rfl, rfl⟩
  | addGenericParam => exact find_keeps hs fun _ _ => find_keeps hs fun _ _ => ⟨rfl, rfl⟩
  | createMethod => exact keepsTables_createMethod _ _ _ _ _ _
  | createConstructor => exact keepsTables_createMethod _ _ _ _ _ _
  | chain =>
      exact chain_keeps (fun _ _ _ _ h => h.trans (keepsTables_createLink ..))
        (fun s' h => h.trans (keepsTables_settle s')) (fun _ _ _ _ h => h.trans ⟨rfl, rfl⟩) hs
  | drop kind =>
      cases kind with
      | registry => exact ⟨rfl, rfl⟩
      | table | factory => cases h
      | _ => exact ⟨rfl, rfl⟩
  | _ => exact (keepsHolders_perform rfl h).toKeepsTables

end Session

end AssemblyGraph
