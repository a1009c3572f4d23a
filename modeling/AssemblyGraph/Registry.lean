import AssemblyGraph.Graph.Links
import AssemblyGraph.Primitive
import Std.Data.TreeMap

/-!
Registries: the types of one module, by token and by full name.

A registry owns its types. It holds each under its own token and lists the
tokens of each full name in the order of registration; the name is the one
that the type had when it was registered. A token that is taken is never
overwritten. The rows for new tokens come from counters, which move on
whether or not the registration succeeds.
-/

namespace AssemblyGraph

structure Registry where
  /-- The origin of the types that are defined here. -/
  origin : Origin
  types : Std.TreeMap Token TypeId
  byFullName : Std.TreeMap String (List Token)
  nextTypeDef : UInt32
  nextTypeRef : UInt32
  nextMethodDef : UInt32
  nextGenericParam : UInt32

/-- A registry and a graph after an attempt to create a type, and its outcome. -/
structure Creation where
  registry : Registry
  graph : Graph
  result : Except Error TypeId

namespace Registry

def empty (origin : Origin) : Registry where
  origin
  types := ∅
  byFullName := ∅
  nextTypeDef := 1
  nextTypeRef := 1
  nextMethodDef := 1
  nextGenericParam := 1

def enter (r : Registry) (token : Token) (fullName : String) (t : TypeId) : Registry :=
  { r with
    types := r.types.insert token t
    byFullName := r.byFullName.insert fullName (r.byFullName.getD fullName [] ++ [token]) }

def insert (r : Registry) (g : Graph) (t : TypeId) : Except Error Registry :=
  match g.type? t with
  | none => .ok r
  | some d =>
    if r.types.contains d.token then .error (.tokenTaken d.token)
    else .ok (r.enter d.token (g.fullName t) t)

/-- Adds a type to the graph and registers it, unless its token is taken. -/
def register (r : Registry) (g : Graph) (d : TypeDecl) : Creation :=
  if r.types.contains d.token then
    { registry := r, graph := g, result := .error (.tokenTaken d.token) }
  else
    let (g', t) := g.addType d
    { registry := r.enter d.token (g'.fullName t) t, graph := g', result := .ok t }

def primitiveDecl (p : Primitive) : TypeDecl where
  token := p.token
  namespaceName := p.namespaceName
  name := p.name
  flags := 0
  origin := .primitive

/-- A new registry, which holds the primitive types. -/
def create (g : Graph) (origin : Origin) : Registry × Graph :=
  Primitive.all.foldl (fun (r, g) p =>
    let creation := r.register g (primitiveDecl p)
    (creation.registry, creation.graph)) (empty origin, g)

def createType (r : Registry) (g : Graph) (namespaceName name : String) (flags : UInt32) :
    Creation :=
  let token := Token.inTable .typeDef r.nextTypeDef
  { r with nextTypeDef := r.nextTypeDef + 1 }.register g
    { token, namespaceName, name, flags, origin := r.origin }

/-- Creates a definition nested in another type, which lists it if the token was
free. Nested types have no namespace of their own. -/
def createNested (r : Registry) (g : Graph) (enclosing : TypeId) (name : String)
    (flags : UInt32) : Creation :=
  let token := Token.inTable .typeDef r.nextTypeDef
  let creation := { r with nextTypeDef := r.nextTypeDef + 1 }.register g
    { token, namespaceName := "", name, flags, origin := r.origin, enclosing? := some enclosing }
  match creation.result with
  | .ok t => { creation with graph := creation.graph.pushNested enclosing t }
  | .error _ => creation

def createRef (r : Registry) (g : Graph) (namespaceName name : String) (origin : Origin) :
    Creation :=
  let token := Token.inTable .typeRef r.nextTypeRef
  { r with nextTypeRef := r.nextTypeRef + 1 }.register g
    { token, namespaceName, name, flags := 0, origin }

def addGenericParam (r : Registry) (g : Graph) (owner : TypeId) (name : String) :
    Registry × Graph × GenericParam :=
  let p : GenericParam := {
    token := .inTable .genericParam r.nextGenericParam
    number := .ofNatClamp ((g.type? owner).elim 0 TypeDecl.arity)
    name }
  ({ r with nextGenericParam := r.nextGenericParam + 1 }, g.pushGenericParam owner p, p)

/-- Creates a method on a type, which declares and owns it. -/
def createMethod (r : Registry) (g : Graph) (owner : TypeId) (name : String)
    (attributes : UInt32) (signature : MethodSignature) : Registry × Graph × MethodEntry :=
  let token := Token.inTable .methodDef r.nextMethodDef
  let method := { Method.ofAttributes token name attributes signature with
    declaringType? := some owner }
  let (g, id) := g.addMethod method
  ({ r with nextMethodDef := r.nextMethodDef + 1 }, g.pushMethod owner id, ⟨id, method⟩)

def createConstructor (r : Registry) (g : Graph) (owner : TypeId) (params : List Signature) :
    Registry × Graph × MethodEntry :=
  r.createMethod g owner Method.constructorName MethodAttributes.publicConstructor
    (.instanceMethod params)

def get? (r : Registry) (token : Token) : Option TypeId :=
  r.types[token]?

def namedAll (r : Registry) (fullName : String) : List TypeId :=
  (r.byFullName.getD fullName []).filterMap r.get?

/-- The first type that was registered under a full name. -/
def named? (r : Registry) (fullName : String) : Option TypeId :=
  (r.byFullName.getD fullName []).findSome? r.get?

def primitive (r : Registry) (p : Primitive) : Except Error TypeId :=
  match r.get? p.token with
  | some t => .ok t
  | none => .error (.tokenUnknown p.token)

def all (r : Registry) : List TypeId :=
  r.types.values

/-- The types that are not primitives, by token. -/
def declared (r : Registry) (g : Graph) : List TypeId :=
  r.all.filter fun t => (g.type? t).any fun d => !d.origin.isPrimitive

def size (r : Registry) : Nat :=
  r.types.size

def isEmpty (r : Registry) : Bool :=
  r.types.isEmpty

end Registry

end AssemblyGraph
