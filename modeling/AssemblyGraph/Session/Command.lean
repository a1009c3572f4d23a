import AssemblyGraph.Session.Basic
import AssemblyGraph.Session.View

/-!
The commands of a build session, and the answers to them.

A command names the objects that it works on. A name given with `bindTo?` is bound
to the result, if there is one; what was bound to it before is released.
-/

namespace AssemblyGraph

inductive HandleKind where
  | registry
  | type
  | method
  | link
  | module
  | methodRef
  | table
  | factory
  | record

inductive ChainPlace where
  /-- They are created in a registry; the namespace is for a top-level one. -/
  | registered (reg namespaceName : String)
  /-- They are in no registry and have consecutive tokens. -/
  | free (first : Token) (namespaceName : String) (origin : Origin)

/-- An action on a map from types to numbers, with the key as it is given. -/
inductive MapAction (κ : Type) where
  | insert (key : κ) (value : Int)
  | erase (key : κ)
  | find (key : κ)

namespace MapAction

variable {κ μ : Type}

def key : MapAction κ → κ
  | insert key _ => key
  | erase key => key
  | find key => key

def withKey (action : MapAction κ) (key : μ) : MapAction μ :=
  match action with
  | insert _ value => .insert key value
  | erase _ => .erase key
  | find _ => .find key

end MapAction

inductive NamedArgType where
  | single (type : String)
  | array (element : NamedArgType)

structure ArgSpec where
  type : NamedArgType
  value : ArgValue

structure NamedArgSpec where
  isField : Bool
  name : String
  arg : ArgSpec

/-- A place where framework types are looked up. -/
inductive TableOwner where
  | table (name : String)
  | factory (name : String)

inductive Command where
  | newRegistry (origin : Origin) (bindTo : String)
  | createType (reg namespaceName name : String) (flags : UInt32) (bindTo? : Option String)
  | createNested (reg enclosing name : String) (flags : UInt32) (bindTo? : Option String)
  | createRef (reg namespaceName name : String) (origin : Origin) (bindTo? : Option String)
  /-- Adds a type that is in no registry. -/
  | newType (header : TypeHeader) (bindTo? : Option String)
  /-- Creates types nested in each other, bound to numbered names. -/
  | chain (times : Nat) (names : List String) (enclosing? : Option String) (place : ChainPlace)
      (bindTo : String)
  | insert (reg type : String)
  | addGenericParam (reg type name : String)
  | createMethod (reg type name : String) (attributes : UInt32) (signature : MethodSignature)
      (bindTo? : Option String)
  | createConstructor (reg type : String) (params : List Signature) (bindTo? : Option String)
  | newMethod (method : Method) (bindTo? : Option String)
  | setDeclaringType (method type : String)
  | pushMethod (type method : String)
  | setEnclosing (type enclosing : String)
  | setDefinition (type definition : String)
  | resolve (type : String) (bindTo? : Option String)
  | get (reg : String) (token : Token) (bindTo? : Option String)
  | named (reg fullName : String) (bindTo? : Option String)
  | namedAll (reg fullName : String)
  | primitive (reg : String) (kind : Primitive) (bindTo? : Option String)
  | allTypes (reg : String)
  | declaredTypes (reg : String)
  | describeRegistry (reg : String)
  | viewType (type : String)
  | describeType (type : String)
  | viewMethod (method : String)
  | describeMethod (method : String)
  | findConstructor (type : String) (shape : ConstructorShape)
  | constructor (type : String) (shape : ConstructorShape) (bindTo? : Option String)
  /-- Makes a link that does not own the type. -/
  | makeLink (type bindTo : String)
  | viewLink (link : String)
  | upgrade (link : String) (bindTo? : Option String)
  | compare (a b : Option String)
  | hash (type : Option String)
  /-- Asks whether the exclusive or of all hashes is zero. -/
  | hashesCancel (types : List (Option String))
  | useMap (actions : List (MapAction String))
  | matchTypes (left right : String)
  | newModule (name bindTo : String) (config : Config)
  | importMethod (module method : String) (bindTo? : Option String)
  | viewMethodRef (methodRef : String)
  | memberRef (module : String) (token : Token)
  | describeModule (module : String)
  | newTable (module byte boolean bindTo : String)
  | resolveTable (module reg bindTo : String)
  | bindWellKnown (type table : String) (kind : WellKnown)
  | wellKnown (owner : TableOwner) (kind : WellKnown) (bindTo? : Option String)
  | newFactory (embedded nullable nullableContext nullablePublicOnly table : String)
      (config : Config) (bindTo : String)
  | validate (factory : String)
  | build (factory : String) (request : Request) (bindTo? : Option String)
  | makeRecord (methodRef : String) (fixedArgs : List ArgSpec) (namedArgs : List NamedArgSpec)
      (bindTo : String)
  | viewRecord (record : String)
  | property (record name : String)
  | attach (type record : String)
  | drop (kind : HandleKind) (name : String)

structure RegistryView where
  size : Nat
  isEmpty : Bool
  origin : Origin
  declared : Nat

structure Comparison where
  same : Bool
  /-- The comparison of the two types as keys of a map, if both are there. -/
  sameKey? : Option Bool
  sameHash : Bool

inductive MapAnswer where
  /-- The value that was replaced or taken out. -/
  | value (value? : Option Int)
  | stored (pair? : Option (Option TypeBrief × Int))

inductive Reply where
  | newRegistry (view : RegistryView)
  | registry (view : RegistryView)
  | type (brief? : Option TypeBrief)
  | types (briefs : List TypeBrief)
  | chain (token? : Option Token) (fullNameBytes : Nat)
  | size (n : Nat)
  | count (n : Nat)
  | flag (value : Bool)
  | genericParam (param : GenericParam)
  | method (token : Token) (name : String)
  | typeView (view : TypeView)
  | methodView (view : MethodView)
  | description (text : String)
  | lookup (found : ConstructorLookup Token)
  | link (view : LinkView)
  | comparison (result : Comparison)
  | hash (value : UInt64)
  /-- The answer to each action, with the size of the map after it. -/
  | mapAnswers (answers : List (MapAnswer × Nat))
  | matching (pairs : List (Option TypeBrief × Option TypeBrief))
      (unmatchedLeft unmatchedRight : List TypeBrief)
  | newModule (name : String) (origin : Origin) (description : String)
  | imported (view : ReferenceView) (memberRefCount : Nat)
  | methodRef (view? : Option ReferenceView)
  | module (memberRefCount : Nat) (description : String)
  | table (view : TableView)
  | memberRefCount (n : Nat)
  | built (view : RecordView) (memberRefCount : Nat)
  | record (view : RecordView)
  | namedArg (view? : Option NamedArgView)
  | attached (constructors : List Token)

inductive Fault where
  /-- No object of the kind that is asked for is bound to the name. -/
  | unbound (name : String)
  | failed (cause : Error)

/-- The state after a command, and the answer to it. -/
abbrev Outcome := Session × Except Fault Reply

namespace Session

def reply (s : Session) (answer : Reply) : Outcome :=
  (s, .ok answer)

/-- Goes on with the object that is bound to a name. -/
def find {α : Type} (s : Session) (bindings : Bindings α) (name : String)
    (next : α → Outcome) : Outcome :=
  match bindings[name]? with
  | some a => next a
  | none => (s, .error (.unbound name))

/-- Goes on with the object of a name, unless it is gone; it then counts as not
bound. -/
def present {α : Type} (s : Session) (name : String) (object? : Option α)
    (next : α → Outcome) : Outcome :=
  match object? with
  | some a => next a
  | none => (s, .error (.unbound name))

/-- Goes on with a result, or reports why there is none. -/
def attempt {α : Type} (s : Session) (result : Except Error α) (next : α → Outcome) : Outcome :=
  match result with
  | .ok a => next a
  | .error cause => (s, .error (.failed cause))

end Session

end AssemblyGraph
