import AssemblyGraph.Proofs.Graph.Facet
import AssemblyGraph.Proofs.Registry.Registered

/-!
Scripts that build registries.

A script creates types and gives them generic parameters, and it names the types
that it works on by their places in what was created before. Its surface is what
it says of the types without regard to any registry: their shapes, the places of
their enclosing types, and the tokens that they have if nothing else is created
in between. Two registries are built side by side, in turns; the right one may
be given extra types on top of its script.
-/

namespace AssemblyGraph

/-- A call of a script. `Site` says in which type a nested type is created, and `Owner` which
type a generic parameter is for. -/
inductive BuildCall (Site Owner : Type) where
  | createType (namespaceName name : String) (flags : UInt32)
  | createNested (enclosing : Site) (name : String) (flags : UInt32)
  | createRef (namespaceName name : String) (origin : { o : Origin // o.isPrimitive = false })
  | addGenericParam (owner : Owner) (name : String)

/-- A registry and a graph after a call that has succeeded, and the type that it has created. -/
structure Built where
  registry : Registry
  graph : Graph
  made : List TypeId

def Creation.built? (c : Creation) : Option Built :=
  match c.result with
  | .ok t => some ⟨c.registry, c.graph, [t]⟩
  | .error _ => none

/-- Carries out a call, which fails if there is no type at a place or if a token is taken. -/
def BuildCall.run {Site Owner : Type} (site? : Site → Option TypeId)
    (owner? : Owner → Option TypeId) (r : Registry) (g : Graph) :
    BuildCall Site Owner → Option Built
  | createType namespaceName name flags => (r.createType g namespaceName name flags).built?
  | createNested enclosing name flags =>
      (site? enclosing).bind fun e => (r.createNested g e name flags).built?
  | createRef namespaceName name origin => (r.createRef g namespaceName name origin.1).built?
  | addGenericParam owner name =>
      (owner? owner).map fun t =>
        ⟨(r.addGenericParam g t name).1, (r.addGenericParam g t name).2.1, []⟩

/-! ### Surfaces -/

/-- What a script says of a type: its shape, and at which place its enclosing type is. -/
structure SurfaceType where
  shape : IdentityShape
  enclosing? : Option Nat

/-- What a script has created, with the tokens that the types have in a registry in which
nothing else is created. -/
structure Surface where
  types : List SurfaceType
  tokens : List Token
  nextTypeDef : UInt32
  nextTypeRef : UInt32

namespace Surface

def empty : Surface :=
  ⟨[], [], 1, 1⟩

def addDef (s : Surface) (x : SurfaceType) : Surface :=
  ⟨s.types ++ [x], s.tokens ++ [.inTable .typeDef s.nextTypeDef], s.nextTypeDef + 1,
    s.nextTypeRef⟩

def addRef (s : Surface) (x : SurfaceType) : Surface :=
  ⟨s.types ++ [x], s.tokens ++ [.inTable .typeRef s.nextTypeRef], s.nextTypeDef,
    s.nextTypeRef + 1⟩

/-- One more generic parameter. -/
def widen (x : IdentityShape) : IdentityShape :=
  { x with arity := x.arity + 1 }

def add (s : Surface) : BuildCall Nat Nat → Surface
  | .createType namespaceName name _ => s.addDef ⟨⟨false, namespaceName, name, 0⟩, none⟩
  | .createNested enclosing name _ => s.addDef ⟨⟨true, "", name, 0⟩, some enclosing⟩
  | .createRef namespaceName name _ => s.addRef ⟨⟨false, namespaceName, name, 0⟩, none⟩
  | .addGenericParam owner _ =>
      { s with types := s.types.modify owner fun x => { x with shape := widen x.shape } }

/-- The surface of a script, from one that there is. -/
def addAll (s : Surface) (script : List (BuildCall Nat Nat)) : Surface :=
  script.foldl add s

end Surface

/-! ### Two registries side by side -/

/-- Two registries under construction, with the types that the script of each has created and
those that were created in the right one besides. -/
structure Bench where
  graph : Graph
  left : Registry
  right : Registry
  leftMade : List TypeId
  rightMade : List TypeId
  extras : List TypeId

/-- A call of the script of a side, or an extra call on the right side. An extra type may be
nested in a type of the script or in an extra one; only extra types get extra parameters. -/
inductive Turn where
  | left (call : BuildCall Nat Nat)
  | right (call : BuildCall Nat Nat)
  | extra (call : BuildCall (Nat ⊕ Nat) Nat)

def Turn.left? : Turn → Option (BuildCall Nat Nat)
  | left call => some call
  | _ => none

def Turn.right? : Turn → Option (BuildCall Nat Nat)
  | right call => some call
  | _ => none

namespace Bench

/-- Two new registries for the types of two modules. -/
def start (g : Graph) (leftModule rightModule : String) : Bench :=
  let l := Registry.create g (.module leftModule)
  let r := Registry.create l.2 (.module rightModule)
  ⟨r.2, l.1, r.1, [], [], []⟩

/-- The type at a place on the right side: one of the script or an extra one. -/
def place? (w : Bench) : Nat ⊕ Nat → Option TypeId
  | .inl i => w.rightMade[i]?
  | .inr i => w.extras[i]?

def turn? (w : Bench) : Turn → Option Bench
  | .left call =>
      (call.run (w.leftMade[·]?) (w.leftMade[·]?) w.left w.graph).map fun b =>
        { w with graph := b.graph, left := b.registry, leftMade := w.leftMade ++ b.made }
  | .right call =>
      (call.run (w.rightMade[·]?) (w.rightMade[·]?) w.right w.graph).map fun b =>
        { w with graph := b.graph, right := b.registry, rightMade := w.rightMade ++ b.made }
  | .extra call =>
      (call.run w.place? (w.extras[·]?) w.right w.graph).map fun b =>
        { w with graph := b.graph, right := b.registry, extras := w.extras ++ b.made }

/-- The state after several turns, if all of them succeed. -/
def run? (w : Bench) : List Turn → Option Bench
  | [] => some w
  | turn :: turns => (w.turn? turn).bind fun w' => w'.run? turns

end Bench

/-! ### What a call has made -/

namespace Graph

variable (g : Graph)

theorem facet?_pushGenericParam (t : TypeId) (p : GenericParam) (u : TypeId) :
    (g.pushGenericParam t p).facet? u =
      if u = t then (g.facet? u).map fun x => (Surface.widen x.1, x.2) else g.facet? u := by
  rw [facet?, pushGenericParam, type?_modifyType]
  split
  · rw [facet?, Option.map_map, Option.map_map]
    refine congrFun (congrArg Option.map (funext fun d => ?_)) _
    simp [TypeDecl.identityShape, TypeDecl.isNested, TypeDecl.arity, Surface.widen]
  · rfl

end Graph

namespace Registry

/-- A registry, which has given out a row already, has made a type of a declaration. -/
structure Makes (r : Registry) (g : Graph) (d : TypeDecl) (t : TypeId) (b : Built) : Prop where
  made : b.made = [t]
  dead : g.type? t = none
  keeps : g.KeepsTypes b.graph
  facet : ∀ u, b.graph.facet? u =
    if u = t then some (d.identityShape, d.enclosing?) else g.facet? u
  decl : ∃ d', b.graph.type? t = some d' ∧ d'.token = d.token ∧ d'.origin = d.origin
  free : ¬ r.types.contains d.token
  entered : ∃ fullName, b.registry = r.enter d.token fullName t

theorem makes_of_register {r : Registry} {g : Graph} {d : TypeDecl} {b : Built}
    (h : (r.register g d).built? = some b) : ∃ t, r.Makes g d t b := by
  rcases r.register_cases g d with ⟨-, hreg⟩ | ⟨hfree, hreg⟩
  · rw [hreg] at h
    cases h
  · rw [hreg] at h
    obtain rfl := Option.some_inj.mp h
    exact ⟨_, rfl, g.type?_new d, g.keepsTypes_addType d, g.facet?_addType d,
      ⟨d, g.type?_addType_self d, rfl, rfl⟩, hfree, _, rfl⟩

theorem makes_of_createNested {r : Registry} {g : Graph} {e : TypeId} {name : String}
    {flags : UInt32} {b : Built} (h : (r.createNested g e name flags).built? = some b) :
    ∃ t, r.skipTypeDef.Makes g (r.nestedDecl e name flags) t b := by
  rcases r.createNested_cases g e name flags with ⟨-, hnew⟩ | ⟨hfree, hnew⟩
  · rw [hnew] at h
    cases h
  · rw [hnew] at h
    obtain rfl := Option.some_inj.mp h
    let d := r.nestedDecl e name flags
    obtain ⟨d', hd', hgrows⟩ := Graph.keepsTypes_pushNested (g.addType d).1 e (g.addType d).2 _ _
      (g.type?_addType_self d)
    refine ⟨_, rfl, g.type?_new d, ?_, fun u => ?_, ⟨d', hd', hgrows.token, hgrows.origin⟩, hfree,
      _, rfl⟩
    · exact (g.keepsTypes_addType d).trans (Graph.keepsTypes_pushNested _ _ _)
    · exact (Graph.facet?_pushNested _ e _ u).trans (g.facet?_addType d u)

end Registry

end AssemblyGraph
