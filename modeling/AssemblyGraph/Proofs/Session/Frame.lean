import AssemblyGraph.Proofs.Graph.Inheritance
import AssemblyGraph.Proofs.Session.Perform

/-!
What is true throughout a command.

A command looks its names up, goes on with what it has found, and ends where there is
nothing to go on with. So what is true at its start and of every way in which it can go
on is true at its end. A chain of types is made link by link, and what each link keeps
is kept by the chain. Many commands only answer, and leave everything as it is.

Of the commands that change the graph all but five do so in the same few ways, so what a
command can do to a graph is followed through all commands once, for any relation of graphs
that these ways are in.
-/

namespace AssemblyGraph

/-- Whether a command does nothing but answer. -/
def Command.onlyAnswers : Command → Bool
  | .namedAll .. | .allTypes .. | .declaredTypes .. | .describeRegistry .. | .viewType ..
  | .describeType .. | .viewMethod .. | .describeMethod .. | .findConstructor .. | .viewLink ..
  | .compare .. | .hash .. | .hashesCancel .. | .useMap .. | .matchTypes .. | .viewMethodRef ..
  | .memberRef .. | .describeModule .. | .validate .. | .viewRecord .. | .property .. => true
  | _ => false

/-- Whether a command nests a type, links it to a definition, gives it a generic parameter or
attaches a record to it. -/
def Command.changesType : Command → Bool
  | .setEnclosing .. | .setDefinition .. | .addGenericParam .. | .attach .. => true
  | _ => false

/-- Whether a command does one of these, or makes a chain of types that are in no registry. -/
def Command.marksType : Command → Bool
  | .chain _ _ _ (.free ..) _ => true
  | command => command.changesType

/-- Whether a command creates types in other ones, through a registry. -/
def Command.createsNested : Command → Bool
  | .createNested .. | .chain _ _ _ (.registered ..) _ => true
  | _ => false

namespace Session

variable {α : Type} {P : Session → Prop} {s : Session}

theorem find_keeps {bindings : Bindings α} {name : String} {next : α → Outcome} (hs : P s)
    (h : ∀ a, bindings[name]? = some a → P (next a).1) : P (s.find bindings name next).1 := by
  rw [find]
  cases ha : bindings[name]? with
  | none => exact hs
  | some a => exact h a ha

theorem present_keeps {name : String} {object? : Option α} {next : α → Outcome} (hs : P s)
    (h : ∀ a, object? = some a → P (next a).1) : P (s.present name object? next).1 := by
  cases object? with
  | none => exact hs
  | some a => exact h a rfl

theorem attempt_keeps {result : Except Error α} {next : α → Outcome} (hs : P s)
    (h : ∀ a, result = .ok a → P (next a).1) : P (s.attempt result next).1 := by
  cases result with
  | error cause => exact hs
  | ok a => exact h a rfl

theorem findOptional_keeps {type? : Option String} {next : Option TypeId → Outcome} (hs : P s)
    (h : ∀ t, P (next t).1) : P (s.findOptional type? next).1 := by
  cases type? with
  | none => exact h none
  | some type => exact find_keeps hs fun t _ => h (some t)

theorem findAllOptional_keeps {types : List (Option String)}
    {next : List (Option TypeId) → Outcome} (hs : P s) (h : ∀ ts, P (next ts).1) :
    P (s.findAllOptional types next).1 := by
  induction types generalizing next with
  | nil => exact h []
  | cons type? types ih => exact findOptional_keeps hs fun t => ih fun ts => h (t :: ts)

theorem findKeys_keeps {actions : List (MapAction String)}
    {next : List (MapAction TypeId) → Outcome} (hs : P s) (h : ∀ actions, P (next actions).1) :
    P (s.findKeys actions next).1 := by
  induction actions generalizing next with
  | nil => exact h []
  | cons action actions ih =>
      exact find_keeps hs fun t _ => ih fun rest => h (action.withKey t :: rest)

theorem findArgType_keeps {type : NamedArgType} {next : ArgType → Outcome} (hs : P s)
    (h : ∀ t, P (next t).1) : P (s.findArgType type next).1 := by
  induction type generalizing next with
  | single name => exact find_keeps hs fun t _ => h (.single t)
  | array element ih => exact ih fun t => h (.array t)

theorem findArgs_keeps {specs : List ArgSpec} {next : List TypedArg → Outcome} (hs : P s)
    (h : ∀ args, P (next args).1) : P (s.findArgs specs next).1 := by
  induction specs generalizing next with
  | nil => exact h []
  | cons spec specs ih =>
      exact findArgType_keeps hs fun t => ih fun args => h (⟨t, spec.value⟩ :: args)

theorem settleWithin_keeps (sweep : ∀ s : Session, P s → P s.sweep) (bound : Nat) (hs : P s) :
    P (settleWithin bound s) := by
  induction bound generalizing s with
  | zero => exact hs
  | succ bound ih =>
      rw [settleWithin]
      split
      · exact hs
      · exact ih (sweep s hs)

/-- By induction on the number of links that are left. -/
theorem extendChain_keeps {place : ChainPlace} {names : Array String} {bindTo : String}
    (link : ∀ (s : Session) number name last?, P s → P (s.createLink place number name last?).1)
    (settle : ∀ s : Session, P s → P s.settle) (left number : Nat) (last? : Option TypeId)
    (bind : ∀ (s : Session) i t, number ≤ i → i < number + left → P s →
      P (s.bindType (some (bindTo ++ toString i)) t))
    (hs : P s) : P (extendChain place names bindTo left number last? s).1 := by
  induction left generalizing number last? s with
  | zero => exact settle s hs
  | succ left ih =>
      have hlink := link s number (names.getD (number % names.size) "") last? hs
      rw [extendChain]
      split
      · rename_i s' fault heq
        rw [heq] at hlink
        exact hlink
      · rename_i s' t heq
        rw [heq] at hlink
        have hbind := bind s' number t (Nat.le_refl _) (by omega) hlink
        refine ih _ _ (fun s i t hle hlt => bind s i t (by omega) (by omega)) ?_
        cases place with
        | free => exact hbind
        | registered => exact settle _ hbind

theorem chain_keeps {times : Nat} {names : List String} {enclosing? : Option String}
    {place : ChainPlace} {bindTo : String}
    (link : ∀ (s : Session) number name last?, P s → P (s.createLink place number name last?).1)
    (settle : ∀ s : Session, P s → P s.settle)
    (bind : ∀ (s : Session) i t, i < times → P s →
      P (s.bindType (some (bindTo ++ toString i)) t))
    (hs : P s) : P (s.chain times names enclosing? place bindTo).1 := by
  have hchain : ∀ last?, P (extendChain place names.toArray bindTo times 0 last? s).1 :=
    fun last? => extendChain_keeps link settle times 0 last?
      (fun s i t _ hlt => bind s i t (by omega)) hs
  have hplace : ∀ last?,
      P (s.findPlace place (extendChain place names.toArray bindTo times 0 last?)).1 := by
    intro last?
    cases place with
    | free => exact hchain last?
    | registered => exact find_keeps hs fun _ _ => hchain last?
  cases enclosing? with
  | none => exact hplace none
  | some enclosing => exact find_keeps hs fun e _ => hplace (some e)

theorem perform_of_onlyAnswers (s : Session) {command : Command}
    (answers : command.onlyAnswers = true) : (s.perform command).1 = s := by
  suffices hsame : Eq s (s.perform command).1 from hsame.symm
  cases command with
  | namedAll | allTypes | declaredTypes | describeRegistry | findConstructor | viewLink
  | viewMethodRef | viewRecord | property => exact find_keeps rfl fun _ _ => rfl
  | viewType | describeType | viewMethod | describeMethod | memberRef | describeModule =>
      exact find_keeps rfl fun _ _ => present_keeps rfl fun _ _ => rfl
  | compare => exact findOptional_keeps rfl fun _ => findOptional_keeps rfl fun _ => rfl
  | hash => exact findOptional_keeps rfl fun _ => rfl
  | hashesCancel => exact findAllOptional_keeps rfl fun _ => rfl
  | useMap => exact findKeys_keeps rfl fun _ => rfl
  | matchTypes => exact find_keeps rfl fun _ _ => find_keeps rfl fun _ _ => rfl
  | validate => exact find_keeps rfl fun _ _ => attempt_keeps rfl fun _ _ => rfl
  | _ => cases answers

/-! ### The graph behind a name that is bound -/

@[simp] theorem graph_bindType (s : Session) (bindTo? : Option String) (t : TypeId) :
    (s.bindType bindTo? t).graph = s.graph := by
  cases bindTo? <;> rfl

@[simp] theorem graph_bindMethod (s : Session) (bindTo? : Option String) (m : MethodId) :
    (s.bindMethod bindTo? m).graph = s.graph := by
  cases bindTo? <;> rfl

@[simp] theorem graph_bindMethodRef (s : Session) (bindTo? : Option String)
    (r : MethodReference) : (s.bindMethodRef bindTo? r).graph = s.graph := by
  cases bindTo? <;> rfl

@[simp] theorem graph_bindRecord (s : Session) (bindTo? : Option String)
    (record : AttributeRecord) : (s.bindRecord bindTo? record).graph = s.graph := by
  cases bindTo? <;> rfl

theorem graph_replyType (s : Session) (found? : Option TypeId) (bindTo? : Option String) :
    (s.replyType found? bindTo?).1.graph = s.graph := by
  cases found? with
  | none => rfl
  | some t => exact graph_bindType s bindTo? t

theorem graph_finishCreation (s : Session) (reg : String) (c : Creation)
    (bindTo? : Option String) : (s.finishCreation reg c bindTo?).1.graph = c.graph := by
  rw [finishCreation]
  cases c.result with
  | error cause => rfl
  | ok t => exact graph_bindType _ bindTo? t

/-! ### What a command does to the graph -/

section Frame

variable {R : Graph → Graph → Prop}

theorem frame_settle (frame : Graph.FlatFrame R) (s : Session) : R s.graph s.settle.graph :=
  settleWithin_keeps (P := fun s' => R s.graph s'.graph)
    (fun _ h => frame.trans h (frame.retain _ _)) _ (frame.of_types rfl)

theorem frame_finishCreation {c : Creation} (h : R s.graph c.graph) (reg : String)
    (bindTo? : Option String) : R s.graph (s.finishCreation reg c bindTo?).1.graph := by
  rw [graph_finishCreation]
  exact h

theorem frame_createLink (frame : Graph.Frame R) (s : Session) (reg namespaceName : String)
    (number : Nat) (name : String) (enclosing? : Option TypeId) :
    R s.graph (s.createLink (.registered reg namespaceName) number name enclosing?).1.graph := by
  rw [createLink]
  cases s.registries[reg]? with
  | none => exact frame.of_types rfl
  | some r =>
      cases enclosing? with
      | none => exact frame.flat.register _ s.graph ⟨rfl, rfl, rfl⟩ rfl
      | some e => exact frame.createNested r s.graph e name 0

/-- A chain is in a relation that making one link is in. -/
theorem frame_chain (frame : Graph.Frame R) (s : Session) {place : ChainPlace}
    (link : ∀ (s' : Session) number name last?,
      R s'.graph (s'.createLink place number name last?).1.graph)
    (times : Nat) (names : List String) (enclosing? : Option String) (bindTo : String) :
    R s.graph (s.chain times names enclosing? place bindTo).1.graph :=
  chain_keeps (P := fun s' => R s.graph s'.graph)
    (fun s' number name last? h => frame.trans h (link s' number name last?))
    (fun s' h => frame.trans h (frame_settle frame.flat s'))
    (fun s' _ _ _ h => frame.trans h
      (frame.of_types (congrArg Graph.types (graph_bindType s' _ _)))) (frame.of_types rfl)

/-- A chain that is in no registry adds types that are linked to each other only. -/
theorem frame_freeChain (frame : Graph.Frame R) (s : Session)
    (addType : ∀ (g : Graph) {d : TypeDecl}, d.definition? = none → d.attributes = [] →
      R g (g.addType d).1)
    (times : Nat) (names : List String) (enclosing? : Option String) (first : Token)
    (namespaceName : String) (origin : Origin) (bindTo : String) :
    R s.graph
      (s.chain times names enclosing? (.free first namespaceName origin) bindTo).1.graph := by
  refine frame_chain frame s (fun s' number name last? => ?_) times names enclosing? bindTo
  rw [createLink]
  exact addType s'.graph rfl rfl

theorem frame_createMethod (frame : Graph.FlatFrame R) (s : Session) (reg type name : String)
    (attributes : UInt32) (signature : MethodSignature) (bindTo? : Option String) :
    R s.graph (s.createMethod reg type name attributes signature bindTo?).1.graph := by
  have hs : R s.graph s.graph := frame.of_types rfl
  refine find_keeps (P := fun s' => R s.graph s'.graph) hs fun r _ =>
    find_keeps (P := fun s' => R s.graph s'.graph) hs fun t _ => ?_
  simp only [reply, graph_bindMethod]
  exact frame.createMethod r s.graph t name attributes signature

/-- What a command does to the graph is in a relation that its parts are in. The commands that
work on the marks of a type and those that create types in other ones are left to the caller. -/
theorem flatFrame_perform (frame : Graph.FlatFrame R) (s : Session) (command : Command)
    (marks : command.marksType = true → R s.graph (s.perform command).1.graph)
    (nests : command.createsNested = true → R s.graph (s.perform command).1.graph) :
    R s.graph (s.perform command).1.graph := by
  let P : Session → Prop := fun s' => R s.graph s'.graph
  have hsame : ∀ {s' : Session}, s'.graph = s.graph → P s' :=
    fun h => frame.of_types (congrArg Graph.types h)
  have hs : P s := hsame rfl
  show P (s.perform command).1
  cases command with
  | setEnclosing | setDefinition | addGenericParam | attach => exact marks rfl
  | createNested => exact nests rfl
  | chain times names enclosing? place bindTo =>
      cases place with
      | free => exact marks rfl
      | registered => exact nests rfl
  | newRegistry origin => exact frame.create s.graph origin
  | createType reg namespaceName name flags bindTo? =>
      exact find_keeps hs fun r _ =>
        frame_finishCreation (frame.register _ s.graph ⟨rfl, rfl, rfl⟩ rfl) reg bindTo?
  | createRef reg namespaceName name origin bindTo? =>
      exact find_keeps hs fun r _ =>
        frame_finishCreation (frame.register _ s.graph ⟨rfl, rfl, rfl⟩ rfl) reg bindTo?
  | newType header bindTo? =>
      simp only [P, perform, Session.newType, reply, graph_bindType]
      exact frame.addType s.graph ⟨rfl, rfl, rfl⟩ rfl
  | insert => exact find_keeps hs fun _ _ => find_keeps hs fun _ _ =>
      attempt_keeps hs fun _ _ => hsame rfl
  | createMethod reg type name attributes signature bindTo? =>
      exact frame_createMethod frame s reg type name attributes signature bindTo?
  | createConstructor reg type params bindTo? =>
      exact frame_createMethod frame s reg type _ _ _ bindTo?
  | newMethod method bindTo? =>
      simp only [P, perform, Session.newMethod, reply, graph_bindMethod]
      exact frame.of_types rfl
  | setDeclaringType =>
      exact find_keeps hs fun _ _ => find_keeps hs fun _ _ =>
        present_keeps hs fun _ _ => frame.of_types rfl
  | pushMethod =>
      exact find_keeps hs fun t _ => find_keeps hs fun m _ => frame.pushMethod s.graph t m
  | bindWellKnown type table kind =>
      exact find_keeps hs fun t _ => find_keeps hs fun known _ =>
        frame_settle frame { s with tables := s.tables.insert table (known.bind kind t) }
  -- the other commands leave the graph alone
  | resolve type bindTo? =>
      exact find_keeps hs fun _ _ => attempt_keeps hs fun _ _ => hsame (graph_bindType s bindTo? _)
  | get | named | upgrade =>
      exact find_keeps hs fun _ _ => hsame (graph_replyType s _ _)
  | primitive =>
      exact find_keeps hs fun _ _ => attempt_keeps hs fun _ _ => hsame (graph_replyType s _ _)
  | constructor type shape bindTo? =>
      exact find_keeps hs fun _ _ => attempt_keeps hs fun _ _ =>
        hsame (graph_bindMethod s bindTo? _)
  | makeLink => exact find_keeps hs fun _ _ => hsame rfl
  | newModule => exact hsame rfl
  | importMethod module method bindTo? =>
      exact find_keeps hs fun _ _ => present_keeps hs fun _ _ =>
        find_keeps hs fun _ _ => present_keeps hs fun _ _ =>
          attempt_keeps hs fun _ _ => hsame (graph_bindMethodRef _ bindTo? _)
  | newTable =>
      exact find_keeps hs fun _ _ => find_keeps hs fun _ _ => find_keeps hs fun _ _ => hsame rfl
  | resolveTable =>
      exact find_keeps hs fun _ _ => find_keeps hs fun _ _ => attempt_keeps hs fun _ _ => hsame rfl
  | wellKnown owner kind bindTo? =>
      have hnext : ∀ table : WellKnownTable, P (s.attempt (table.get kind) fun t =>
          (s.bindType bindTo? t).reply (.type (s.graph.brief? t))).1 :=
        fun _ => attempt_keeps hs fun _ _ => hsame (graph_bindType s bindTo? _)
      cases owner with
      | table => exact find_keeps hs fun table _ => hnext table
      | factory => exact find_keeps hs fun f _ => hnext f.table
  | newFactory =>
      exact find_keeps hs fun _ _ => find_keeps hs fun _ _ => find_keeps hs fun _ _ =>
        find_keeps hs fun _ _ => find_keeps hs fun _ _ =>
          attempt_keeps (hsame rfl) fun _ _ => hsame rfl
  | build factory request bindTo? =>
      exact find_keeps hs fun _ _ => present_keeps hs fun _ _ =>
        attempt_keeps hs fun _ _ => hsame (graph_bindRecord _ bindTo? _)
  | makeRecord =>
      exact find_keeps hs fun _ _ => findArgs_keeps hs fun _ => findArgs_keeps hs fun _ => hsame rfl
  | drop kind name => exact hsame (by cases kind <;> rfl)
  | _ => exact hsame (congrArg Session.graph (perform_of_onlyAnswers s rfl))

/-- The same with the commands that create types in other ones. -/
theorem frame_perform (frame : Graph.Frame R) (s : Session) (command : Command)
    (marks : command.marksType = true → R s.graph (s.perform command).1.graph) :
    R s.graph (s.perform command).1.graph := by
  refine flatFrame_perform frame.flat s command marks fun nests => ?_
  have hs : R s.graph s.graph := frame.of_types rfl
  cases command with
  | createNested reg enclosing name flags bindTo? =>
      exact find_keeps (P := fun s' => R s.graph s'.graph) hs fun r _ =>
        find_keeps (P := fun s' => R s.graph s'.graph) hs fun e _ =>
          frame_finishCreation (frame.createNested r s.graph e name flags) reg bindTo?
  | chain times names enclosing? place bindTo =>
      cases place with
      | free => cases nests
      | registered reg namespaceName =>
          refine frame_chain frame s (fun s' number name last? => ?_) times names enclosing? bindTo
          exact frame_createLink frame s' reg namespaceName number name last?
  | _ => cases nests

/-- A step does what its command does, and then releases types. -/
theorem frame_step (frame : Graph.Frame R) (s : Session) (command : Command)
    (marks : command.marksType = true → R s.graph (s.perform command).1.graph) :
    R s.graph (s.step command).1.graph :=
  frame.trans (frame_perform frame s command marks) (frame_settle frame.flat _)

end Frame

/-! ### Marks of types -/

/-- No step marks a type with what no type is made with, but by one of the commands that work on
the part of a type that the mark is told from. -/
theorem inherits_step {P : TypeDecl → Prop} (frame : Graph.Frame (Graph.Inherits P)) (s : Session)
    {command : Command}
    (nested : ∀ type enclosing, command = .setEnclosing type enclosing →
      ∀ d e, P { d with enclosing? := some e } → P d)
    (linked : ∀ type definition, command = .setDefinition type definition →
      ∀ d x, P { d with definition? := some x } → P d)
    (widened : ∀ d params, P { d with genericParams := params } → P d)
    (attached : ∀ type record, command = .attach type record →
      ∀ d records, P { d with attributes := records } → P d)
    (chained : ∀ times names enclosing? first namespaceName origin bindTo,
      command = .chain times names enclosing? (.free first namespaceName origin) bindTo →
        ∀ d : TypeDecl, d.definition? = none → d.attributes = [] → ¬ P d) :
    Graph.Inherits P s.graph (s.step command).1.graph := by
  refine frame_step frame s command fun marks => ?_
  let Q : Session → Prop := fun s' => Graph.Inherits P s.graph s'.graph
  have hs : Q s := .refl s.graph
  cases command with
  | setEnclosing type enclosing =>
      refine find_keeps (P := Q) hs fun t _ => find_keeps (P := Q) hs fun e _ =>
        attempt_keeps (P := Q) hs fun g hset => ?_
      rcases s.graph.setEnclosing_cases hset with ⟨-, rfl⟩ | ⟨-, -, -, rfl⟩
      · exact hs
      · exact s.graph.inherits_modifyType t fun d => nested type enclosing rfl d e
  | setDefinition type definition =>
      refine find_keeps (P := Q) hs fun t _ => find_keeps (P := Q) hs fun x _ =>
        attempt_keeps (P := Q) hs fun g hset => ?_
      rcases s.graph.setDefinition_cases hset with ⟨-, rfl⟩ | ⟨-, -, -, -, rfl⟩
      · exact hs
      · exact s.graph.inherits_modifyType t fun d => linked type definition rfl d x
  | addGenericParam reg type name =>
      exact find_keeps (P := Q) hs fun r _ => find_keeps (P := Q) hs fun t _ =>
        s.graph.inherits_modifyType t fun d => widened d _
  | attach type record =>
      exact find_keeps (P := Q) hs fun t _ => find_keeps (P := Q) hs fun r _ =>
        s.graph.inherits_modifyType t fun d => attached type record rfl d _
  | chain times names enclosing? place bindTo =>
      cases place with
      | free first namespaceName origin =>
          have hnew := chained times names enclosing? first namespaceName origin bindTo rfl
          exact frame_freeChain frame s
            (fun g d unlinked bare => g.inherits_addType (hnew d unlinked bare))
            times names enclosing? first namespaceName origin bindTo
      | registered => cases marks
  | _ => cases marks

end Session

end AssemblyGraph
