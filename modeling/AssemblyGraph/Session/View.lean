import AssemblyGraph.Graph.Links
import AssemblyGraph.WellKnown

/-!
What answers show of the objects of a graph.

A view is taken at one moment. Where a link leads to a type that is gone, the
view has nothing in its place.
-/

namespace AssemblyGraph

structure TypeBrief where
  token : Token
  fullName : String
  origin : Origin

structure LinkView where
  isValid : Bool
  token? : Option Token
  name? : Option String

structure MemberView where
  declaringOrigin : Origin
  foreignToken : Token
  declaringType : LinkView

structure ReferenceView where
  token : Token
  name : String
  isImported : Bool
  declaringTypeName? : Option String
  signature : MethodSignature
  member? : Option MemberView

structure ConstructorView where
  token : Token
  isImported : Bool
  declaringTypeName? : Option String
  paramCount : Nat

inductive ArgTypeView where
  | single (brief? : Option TypeBrief)
  | array (element : ArgTypeView)

structure ArgView where
  type : ArgTypeView
  isArray : Bool
  elementToken? : Option Token
  value : ArgValue

structure NamedArgView where
  isField : Bool
  name : String
  arg : ArgView

structure RecordView where
  constructor : ConstructorView
  fixedArgs : List ArgView
  namedArgs : List NamedArgView

structure TypeView where
  decl : TypeDecl
  fullName : String
  enclosing? : Option Token
  methods : List MethodEntry
  nested : List (Option Token)
  attributes : List RecordView

structure MethodView where
  method : Method
  declaringType? : Option TypeBrief

structure TableView where
  moduleName : String
  byte? : Option TypeBrief
  boolean? : Option TypeBrief
  types : List (WellKnown × Option Token)

namespace Graph

def token? (g : Graph) (t : TypeId) : Option Token :=
  (g.type? t).map (·.token)

def brief? (g : Graph) (t : TypeId) : Option TypeBrief :=
  (g.type? t).map fun d => ⟨d.token, g.fullName t, d.origin⟩

/-- The types in brief, without those that are gone. -/
def briefs (g : Graph) (ts : List TypeId) : List TypeBrief :=
  ts.filterMap g.brief?

def viewLink (g : Graph) (t : TypeId) : LinkView where
  isValid := g.isAlive t
  token? := g.token? t
  name? := (g.type? t).map (·.name)

/-- The full name of the type that declares a referenced method: the present one
for a method of the module, and the one at the time of the import otherwise. -/
def declaringTypeName? (g : Graph) : MethodReference → Option String
  | .definition entry => (g.declaringType? entry.method).map g.fullName
  | .imported member => some member.declaringTypeName

def viewReference (g : Graph) (r : MethodReference) : ReferenceView where
  token := r.token
  name := r.name
  isImported := r.isImported
  declaringTypeName? := g.declaringTypeName? r
  signature := r.signature
  member? := r.member?.map fun member =>
    ⟨member.declaringOrigin, member.foreignToken, g.viewLink member.declaringType⟩

def viewArgType (g : Graph) : ArgType → ArgTypeView
  | .single type => .single (g.brief? type)
  | .array element => .array (g.viewArgType element)

def viewArg (g : Graph) (arg : TypedArg) : ArgView where
  type := g.viewArgType arg.type
  isArray := arg.type.isArray
  elementToken? := g.token? arg.type.elementType
  value := arg.value

def viewNamedArg (g : Graph) (named : NamedArg) : NamedArgView where
  isField := named.isField
  name := named.name
  arg := g.viewArg named.arg

def viewRecord (g : Graph) (record : AttributeRecord) : RecordView where
  constructor := {
    token := record.constructor.token
    isImported := record.constructor.isImported
    declaringTypeName? := g.declaringTypeName? record.constructor
    paramCount := record.constructor.signature.params.length }
  fixedArgs := record.fixedArgs.map g.viewArg
  namedArgs := record.namedArgs.map g.viewNamedArg

def viewType (g : Graph) (t : TypeId) (d : TypeDecl) : TypeView where
  decl := d
  fullName := g.fullName t
  enclosing? := (g.enclosing? t).bind g.token?
  methods := g.methodsOf t
  nested := d.nested.map g.token?
  attributes := d.attributes.map g.viewRecord

def viewMethod (g : Graph) (m : Method) : MethodView where
  method := m
  declaringType? := (g.declaringType? m).bind g.brief?

def viewTable (g : Graph) (moduleName : String) (table : WellKnownTable) : TableView where
  moduleName
  byte? := g.brief? table.byte
  boolean? := g.brief? table.boolean
  types := WellKnown.all.map fun kind => (kind, (table.binding? kind).bind g.token?)

end Graph

end AssemblyGraph
