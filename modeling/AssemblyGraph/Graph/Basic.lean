import AssemblyGraph.AttributeRecord

/-!
The graph of types and methods.

A type sits at the index of its identity. When nothing owns it any more its
place is emptied and is never filled again, so a link to a type that is gone
yields nothing, then and ever after. Methods are only ever added: nothing can
tell whether a method is still there without owning it.
-/

namespace AssemblyGraph

structure GenericParam where
  token : Token
  number : UInt32
  name : String

/-- A type: a definition with its members, or a reference to one. The links to
the enclosing type, to the definition and to the nested types do not own their
targets. -/
structure TypeDecl where
  token : Token
  /-- The namespace, which is empty for nested types and for the global one. -/
  namespaceName : String
  name : String
  flags : UInt32
  origin : Origin
  /-- The type that this one is nested in; set at most once. -/
  enclosing? : Option TypeId := none
  /-- The definition that a reference stands for; set at most once. -/
  definition? : Option TypeId := none
  methods : List MethodId := []
  nested : List TypeId := []
  genericParams : List GenericParam := []
  attributes : List AttributeRecord := []

/-- What a type is made with, before it is linked to anything. -/
structure TypeHeader where
  token : Token
  namespaceName : String
  name : String
  flags : UInt32
  origin : Origin

def TypeHeader.decl (header : TypeHeader) : TypeDecl where
  token := header.token
  namespaceName := header.namespaceName
  name := header.name
  flags := header.flags
  origin := header.origin

namespace TypeDecl

/-- Whether the type was declared inside another one, which may be gone. -/
def isNested (d : TypeDecl) : Bool :=
  d.enclosing?.isSome

def isReference (d : TypeDecl) : Bool :=
  d.token.table == Table.typeRef.code

def arity (d : TypeDecl) : Nat :=
  d.genericParams.length

def describe (d : TypeDecl) : String :=
  "CilType \x7b token: " ++ d.token.describe ++
    ", namespace: " ++ Quoted.encode d.namespaceName ++
    ", name: " ++ Quoted.encode d.name ++ ", source: " ++ d.origin.describe ++
    ", nested: " ++ toString d.isNested ++
    ", generic_params: " ++ toString d.arity ++ ", .. \x7d"

end TypeDecl

/-- The types, each at the index of its identity, and the methods. -/
structure Graph where
  types : Array (Option TypeDecl)
  methods : Array Method

namespace Graph

def empty : Graph :=
  ⟨#[], #[]⟩

def type? (g : Graph) (t : TypeId) : Option TypeDecl :=
  g.types[t.index]?.join

def isAlive (g : Graph) (t : TypeId) : Bool :=
  (g.type? t).isSome

/-- The target of a link, if it was set and is alive. -/
def follow? (g : Graph) (link : Option TypeId) : Option TypeId :=
  link.filter g.isAlive

def method? (g : Graph) (m : MethodId) : Option Method :=
  g.methods[m.index]?

def methodWithId? (g : Graph) (m : MethodId) : Option MethodEntry :=
  (g.method? m).map (MethodEntry.mk m)

/-- Adds a type under a new identity. -/
def addType (g : Graph) (d : TypeDecl) : Graph × TypeId :=
  let t := TypeId.mk g.types.size
  ({ g with types := g.types.push (some d) }, t)

/-- Changes a type, unless it is gone. -/
def modifyType (g : Graph) (t : TypeId) (f : TypeDecl → TypeDecl) : Graph :=
  { g with types := g.types.modify t.index (Option.map f) }

def addMethod (g : Graph) (m : Method) : Graph × MethodId :=
  let id := MethodId.mk g.methods.size
  ({ g with methods := g.methods.push m }, id)

def pushMethod (g : Graph) (t : TypeId) (m : MethodId) : Graph :=
  g.modifyType t fun d => { d with methods := d.methods ++ [m] }

def pushNested (g : Graph) (enclosing t : TypeId) : Graph :=
  g.modifyType enclosing fun d => { d with nested := d.nested ++ [t] }

def pushGenericParam (g : Graph) (t : TypeId) (p : GenericParam) : Graph :=
  g.modifyType t fun d => { d with genericParams := d.genericParams ++ [p] }

def attach (g : Graph) (t : TypeId) (record : AttributeRecord) : Graph :=
  g.modifyType t fun d => { d with attributes := d.attributes ++ [record] }

def methodsOf (g : Graph) (t : TypeId) : List MethodEntry :=
  match g.type? t with
  | none => []
  | some d => d.methods.filterMap g.methodWithId?

/-- The type that declares a method, if it was set and is alive. -/
def declaringType? (g : Graph) (m : Method) : Option TypeId :=
  g.follow? m.declaringType?

@[simp] theorem type?_addType_self (g : Graph) (d : TypeDecl) :
    (g.addType d).1.type? (g.addType d).2 = some d := by
  simp [addType, type?]

theorem type?_addType_of_ne (g : Graph) (d : TypeDecl) {t : TypeId}
    (h : t ≠ (g.addType d).2) : (g.addType d).1.type? t = g.type? t := by
  have hne : t.index ≠ g.types.size := fun he => h (congrArg TypeId.mk he)
  simp only [addType, type?, Array.getElem?_push, if_neg hne]

theorem type?_modifyType (g : Graph) (t u : TypeId) (f : TypeDecl → TypeDecl) :
    (g.modifyType t f).type? u = if u = t then (g.type? u).map f else g.type? u := by
  simp only [modifyType, type?, Array.getElem?_modify]
  by_cases h : u = t
  · subst h
    cases g.types[u.index]? with
    | none => simp
    | some o => cases o <;> simp
  · have hne : t.index ≠ u.index := fun he => h (congrArg TypeId.mk he.symm)
    simp [h, hne]

@[simp] theorem type?_addMethod (g : Graph) (m : Method) (t : TypeId) :
    (g.addMethod m).1.type? t = g.type? t := rfl

theorem isAlive_iff {g : Graph} {t : TypeId} : g.isAlive t ↔ ∃ d, g.type? t = some d :=
  Option.isSome_iff_exists

theorem follow?_eq_some_iff {g : Graph} {link : Option TypeId} {t : TypeId} :
    g.follow? link = some t ↔ link = some t ∧ g.isAlive t :=
  Option.filter_eq_some_iff

end Graph

end AssemblyGraph
