import AssemblyGraph.Session.Command

/-!
Commands on registries, types, methods and links.
-/

namespace AssemblyGraph

def Registry.view (r : Registry) (g : Graph) : RegistryView where
  size := r.size
  isEmpty := r.isEmpty
  origin := r.origin
  declared := (r.declared g).length

namespace Session

def newRegistry (s : Session) (origin : Origin) (bindTo : String) : Outcome :=
  let (r, g) := Registry.create s.graph origin
  { s with graph := g, registries := s.registries.insert bindTo r }.reply
    (.newRegistry (r.view g))

/-- Takes over an attempt to create a type in a registry. -/
def finishCreation (s : Session) (reg : String) (c : Creation) (bindTo? : Option String) :
    Outcome :=
  let s := { s with graph := c.graph, registries := s.registries.insert reg c.registry }
  s.attempt c.result fun t => (s.bindType bindTo? t).reply (.type (s.graph.brief? t))

def createType (s : Session) (reg namespaceName name : String) (flags : UInt32)
    (bindTo? : Option String) : Outcome :=
  s.find s.registries reg fun r =>
    s.finishCreation reg (r.createType s.graph namespaceName name flags) bindTo?

def createNested (s : Session) (reg enclosing name : String) (flags : UInt32)
    (bindTo? : Option String) : Outcome :=
  s.find s.registries reg fun r =>
    s.find s.types enclosing fun e =>
      s.finishCreation reg (r.createNested s.graph e name flags) bindTo?

def createRef (s : Session) (reg namespaceName name : String) (origin : Origin)
    (bindTo? : Option String) : Outcome :=
  s.find s.registries reg fun r =>
    s.finishCreation reg (r.createRef s.graph namespaceName name origin) bindTo?

/-- Adds a type that is in no registry. -/
def newType (s : Session) (header : TypeHeader) (bindTo? : Option String) : Outcome :=
  let (g, t) := s.graph.addType header.decl
  ({ s with graph := g }.bindType bindTo? t).reply (.type (g.brief? t))

/-- Creates a type of a chain, the one of a number, in the type before it. -/
def createLink (s : Session) (place : ChainPlace) (number : Nat) (name : String)
    (enclosing? : Option TypeId) : Session × Except Fault TypeId :=
  match place with
  | .free first namespaceName origin =>
    let token := Token.mk (first.value + .ofNat number)
    let (g, t) := s.graph.addType
      { token, namespaceName, name, flags := 0, origin, enclosing? }
    ({ s with graph := g }, .ok t)
  | .registered reg namespaceName =>
    match s.registries[reg]? with
    | none => (s, .error (.unbound reg))
    | some r =>
      let c := match enclosing? with
        | none => r.createType s.graph namespaceName name 0
        | some enclosing => r.createNested s.graph enclosing name 0
      ({ s with graph := c.graph, registries := s.registries.insert reg c.registry },
        c.result.mapError .failed)

/-- Releases what the last link of a chain has replaced. A registry records full
names, which depend on what is alive, so it has to be done before the next link
is registered; types in no registry can wait for the end of the chain. -/
def releaseReplaced (s : Session) : ChainPlace → Session
  | .registered .. => s.settle
  | .free .. => s

/-- Creates the types of a chain from a number on, each nested in the one before
it, and binds them to numbered names. The names of the types take turns. What
was bound to those names is released before the answer is made. -/
def extendChain (place : ChainPlace) (names : Array String) (bindTo : String) :
    Nat → Nat → Option TypeId → Session → Outcome
  | 0, _, last?, s =>
    let s := s.settle
    let name := last?.elim "" s.graph.fullName
    s.reply (.chain (last?.bind s.graph.token?) name.utf8ByteSize)
  | left + 1, number, last?, s =>
    match s.createLink place number (names.getD (number % names.size) "") last? with
    | (s, .error fault) => (s, .error fault)
    | (s, .ok t) =>
      extendChain place names bindTo left (number + 1) (some t)
        ((s.bindType (some (bindTo ++ toString number)) t).releaseReplaced place)

/-- Goes on if the registry that a chain is created in is bound. -/
def findPlace (s : Session) (place : ChainPlace) (next : Session → Outcome) : Outcome :=
  match place with
  | .registered reg _ => s.find s.registries reg fun _ => next s
  | .free .. => next s

/-- Creates a chain of nested types. The answer is about the last type of the
chain, which is the enclosing one if no type is created. -/
def chain (s : Session) (times : Nat) (names : List String) (enclosing? : Option String)
    (place : ChainPlace) (bindTo : String) : Outcome :=
  match enclosing? with
  | none => s.findPlace place (extendChain place names.toArray bindTo times 0 none)
  | some enclosing =>
    s.find s.types enclosing fun e =>
      s.findPlace place (extendChain place names.toArray bindTo times 0 (some e))

def insert (s : Session) (reg type : String) : Outcome :=
  s.find s.registries reg fun r =>
    s.find s.types type fun t =>
      s.attempt (r.insert s.graph t) fun r =>
        { s with registries := s.registries.insert reg r }.reply (.size r.size)

def addGenericParam (s : Session) (reg type name : String) : Outcome :=
  s.find s.registries reg fun r =>
    s.find s.types type fun t =>
      let (r, g, p) := r.addGenericParam s.graph t name
      { s with graph := g, registries := s.registries.insert reg r }.reply (.genericParam p)

def createMethod (s : Session) (reg type name : String) (attributes : UInt32)
    (signature : MethodSignature) (bindTo? : Option String) : Outcome :=
  s.find s.registries reg fun r =>
    s.find s.types type fun t =>
      let (r, g, entry) := r.createMethod s.graph t name attributes signature
      ({ s with graph := g, registries := s.registries.insert reg r }.bindMethod bindTo?
        entry.id).reply (.method entry.method.token entry.method.name)

def createConstructor (s : Session) (reg type : String) (params : List Signature)
    (bindTo? : Option String) : Outcome :=
  s.createMethod reg type Method.constructorName MethodAttributes.publicConstructor
    (.instanceMethod params) bindTo?

/-- Adds a method that no type owns. It has no declaring type at first. -/
def newMethod (s : Session) (m : Method) (bindTo? : Option String) : Outcome :=
  let (g, id) := s.graph.addMethod { m with declaringType? := none }
  ({ s with graph := g }.bindMethod bindTo? id).reply (.method m.token m.name)

/-- Links a method to its declaring type; answers whether it was not linked. -/
def setDeclaringType (s : Session) (method type : String) : Outcome :=
  s.find s.methods method fun m =>
    s.find s.types type fun t =>
      s.present method (s.graph.method? m) fun before =>
        { s with graph := s.graph.setDeclaringType m t }.reply
          (.flag before.declaringType?.isNone)

def pushMethod (s : Session) (type method : String) : Outcome :=
  s.find s.types type fun t =>
    s.find s.methods method fun m =>
      let g := s.graph.pushMethod t m
      { s with graph := g }.reply (.count (g.methodsOf t).length)

def setEnclosing (s : Session) (type enclosing : String) : Outcome :=
  s.find s.types type fun t =>
    s.find s.types enclosing fun e =>
      s.attempt (s.graph.setEnclosing t e) fun g =>
        { s with graph := g }.reply (.type (g.brief? t))

def setDefinition (s : Session) (type definition : String) : Outcome :=
  s.find s.types type fun t =>
    s.find s.types definition fun d =>
      s.attempt (s.graph.setDefinition t d) fun g =>
        { s with graph := g }.reply (.type (g.brief? t))

def resolve (s : Session) (type : String) (bindTo? : Option String) : Outcome :=
  s.find s.types type fun t =>
    s.attempt (s.graph.resolve t) fun d =>
      (s.bindType bindTo? d).reply (.type (s.graph.brief? d))

/-- Answers with a type, if there is one, and binds it. -/
def replyType (s : Session) (found? : Option TypeId) (bindTo? : Option String) : Outcome :=
  match found? with
  | none => s.reply (.type none)
  | some t => (s.bindType bindTo? t).reply (.type (s.graph.brief? t))

def get (s : Session) (reg : String) (token : Token) (bindTo? : Option String) : Outcome :=
  s.find s.registries reg fun r => s.replyType (r.get? token) bindTo?

def named (s : Session) (reg fullName : String) (bindTo? : Option String) : Outcome :=
  s.find s.registries reg fun r => s.replyType (r.named? fullName) bindTo?

def namedAll (s : Session) (reg fullName : String) : Outcome :=
  s.find s.registries reg fun r => s.reply (.types (s.graph.briefs (r.namedAll fullName)))

def primitive (s : Session) (reg : String) (kind : Primitive) (bindTo? : Option String) :
    Outcome :=
  s.find s.registries reg fun r =>
    s.attempt (r.primitive kind) fun t => s.replyType (some t) bindTo?

def allTypes (s : Session) (reg : String) : Outcome :=
  s.find s.registries reg fun r => s.reply (.types (s.graph.briefs r.all))

def declaredTypes (s : Session) (reg : String) : Outcome :=
  s.find s.registries reg fun r => s.reply (.types (s.graph.briefs (r.declared s.graph)))

def describeRegistry (s : Session) (reg : String) : Outcome :=
  s.find s.registries reg fun r => s.reply (.registry (r.view s.graph))

def findDecl (s : Session) (type : String) (next : TypeId → TypeDecl → Outcome) : Outcome :=
  s.find s.types type fun t => s.present type (s.graph.type? t) (next t)

def findMethod (s : Session) (method : String) (next : MethodEntry → Outcome) : Outcome :=
  s.find s.methods method fun m => s.present method (s.graph.methodWithId? m) next

def viewType (s : Session) (type : String) : Outcome :=
  s.findDecl type fun t d => s.reply (.typeView (s.graph.viewType t d))

def describeType (s : Session) (type : String) : Outcome :=
  s.findDecl type fun _ d => s.reply (.description d.describe)

def viewMethod (s : Session) (method : String) : Outcome :=
  s.findMethod method fun entry => s.reply (.methodView (s.graph.viewMethod entry.method))

def describeMethod (s : Session) (method : String) : Outcome :=
  s.findMethod method fun entry => s.reply (.description entry.method.describe)

def findConstructor (s : Session) (type : String) (shape : ConstructorShape) : Outcome :=
  s.find s.types type fun t =>
    s.reply (.lookup ((s.graph.findConstructor t shape).map (·.method.token)))

def constructor (s : Session) (type : String) (shape : ConstructorShape)
    (bindTo? : Option String) : Outcome :=
  s.find s.types type fun t =>
    s.attempt (s.graph.constructor t shape) fun entry =>
      (s.bindMethod bindTo? entry.id).reply (.method entry.method.token entry.method.name)

/-- Makes a link to a type that does not own it. -/
def makeLink (s : Session) (type bindTo : String) : Outcome :=
  s.find s.types type fun t =>
    { s with links := s.links.insert bindTo t }.reply (.link (s.graph.viewLink t))

def viewLink (s : Session) (link : String) : Outcome :=
  s.find s.links link fun t => s.reply (.link (s.graph.viewLink t))

def upgrade (s : Session) (link : String) (bindTo? : Option String) : Outcome :=
  s.find s.links link fun t => s.replyType (s.graph.follow? (some t)) bindTo?

end Session

end AssemblyGraph
