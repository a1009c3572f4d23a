import AssemblyGraph.Constructor.Lookup
import AssemblyGraph.Graph.Enclosing

/-!
The links of a graph that are set at most once, and what is reached through
them: the definition of a reference and its constructors.
-/

namespace AssemblyGraph

namespace Graph

/-- Nests a type in another one. A type that is gone is left as it is. -/
def setEnclosing (g : Graph) (t enclosing : TypeId) : Except Error Graph :=
  match g.type? t with
  | none => .ok g
  | some d =>
    if d.isNested then .error (.inconsistent (.alreadyNested d.token))
    else .ok (g.modifyType t fun d => { d with enclosing? := some enclosing })

/-- Links a reference to the definition that it stands for. A type that is gone
is left as it is. -/
def setDefinition (g : Graph) (t definition : TypeId) : Except Error Graph :=
  match g.type? t with
  | none => .ok g
  | some d =>
    if !d.isReference then .error (.inconsistent (.notAReference d.token))
    else if d.definition?.isSome then .error (.inconsistent (.alreadyResolved d.token))
    else .ok (g.modifyType t fun d => { d with definition? := some definition })

/-- Links a method to its declaring type, unless it was linked before. -/
def setDeclaringType (g : Graph) (m : MethodId) (t : TypeId) : Graph :=
  { g with methods := g.methods.modify m.index fun method =>
      { method with declaringType? := method.declaringType?.or (some t) } }

/-- The type that a type stands for: the linked one for a reference, which is
taken as it is, and the type itself for a definition. -/
def resolve (g : Graph) (t : TypeId) : Except Error TypeId :=
  match g.type? t with
  | none => .error (.unresolvable (g.fullName t))
  | some d =>
    if d.isReference then
      match g.follow? d.definition? with
      | some definition => .ok definition
      | none => .error (.unresolvable (g.fullName t))
    else .ok t

def findConstructor (g : Graph) (t : TypeId) (shape : ConstructorShape) :
    ConstructorLookup MethodEntry :=
  shape.find MethodEntry.method (g.methodsOf t)

def constructor (g : Graph) (t : TypeId) (shape : ConstructorShape) :
    Except Error MethodEntry :=
  (g.findConstructor t shape).toExcept (g.fullName t) shape

end Graph

end AssemblyGraph
