import AssemblyGraph.Config
import AssemblyGraph.Graph.Links
import Std.Data.HashMap
import Std.Data.TreeMap

/-!
The module under construction and its member table.

A method whose declaring type comes from the module itself is referred to
directly. Any other one is imported: it gets a row of the member table, whose
token comes from a counter. A module that caches its imports keeps one row for
each pair of a declaring origin and a method token, because a method's token
is only unique within its own module.
-/

namespace AssemblyGraph

/-- What a cached import is found by. -/
structure ImportKey where
  origin : Origin
  method : Token
  deriving DecidableEq, Hashable

/-- A module that attribute records are built for. -/
structure TargetModule where
  name : String
  cachesImports : Bool
  memberRefs : Std.TreeMap Token MemberRef
  importCache : Std.HashMap ImportKey MemberRef
  nextMemberRef : UInt32

namespace TargetModule

def create (name : String) (config : Config) : TargetModule where
  name
  cachesImports := config.cachesImports
  memberRefs := ∅
  importCache := ∅
  nextMemberRef := 1

def origin (m : TargetModule) : Origin :=
  .module m.name

def memberRef? (m : TargetModule) (token : Token) : Option MemberRef :=
  m.memberRefs[token]?

def memberRefCount (m : TargetModule) : Nat :=
  m.memberRefs.size

/-- The row that an import of a method makes now, for its declaring type. -/
def rowFor (m : TargetModule) (g : Graph) (method : Method) (declaring : TypeId)
    (d : TypeDecl) : MemberRef where
  token := .inTable .memberRef m.nextMemberRef
  name := method.name
  declaringTypeName := g.fullName declaring
  declaringOrigin := d.origin
  signature := method.signature
  foreignToken := method.token
  declaringType := declaring

/-- Adds a row to the member table and moves the counter on. -/
def addRow (m : TargetModule) (row : MemberRef) : TargetModule :=
  { m with
    memberRefs := m.memberRefs.insert row.token row
    nextMemberRef := m.nextMemberRef + 1 }

def importForeign (m : TargetModule) (g : Graph) (method : Method) (declaring : TypeId)
    (d : TypeDecl) : MemberRef × TargetModule :=
  let row := m.rowFor g method declaring d
  if m.cachesImports then
    let key : ImportKey := ⟨d.origin, method.token⟩
    match m.importCache[key]? with
    | some earlier => (earlier, m)
    | none => (row, { m.addRow row with importCache := m.importCache.insert key row })
  else (row, m.addRow row)

/-- Refers to a method from the module, which imports it if need be. A method
without a living declaring type cannot be referred to. -/
def refer (m : TargetModule) (g : Graph) (entry : MethodEntry) :
    Except Error (MethodReference × TargetModule) :=
  let unplaced := Error.inconsistent (.noDeclaringType entry.method.name entry.method.token)
  match g.declaringType? entry.method with
  | none => .error unplaced
  | some declaring =>
    match g.type? declaring with
    | none => .error unplaced
    | some d =>
      if d.origin = m.origin then .ok (.definition entry, m)
      else
        let (row, m) := m.importForeign g entry.method declaring d
        .ok (.imported row, m)

def describe (m : TargetModule) : String :=
  "Module \x7b name: " ++ Quoted.encode m.name ++ ", member_refs: " ++
    toString m.memberRefCount ++ ", cache_imports: " ++ toString m.cachesImports ++ ", .. \x7d"

end TargetModule

end AssemblyGraph
