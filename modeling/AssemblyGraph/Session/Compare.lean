import AssemblyGraph.Identity.Map
import AssemblyGraph.Session.Command

/-!
Commands on the identity of types.
-/

namespace AssemblyGraph

namespace Session

/-- Goes on with the type of a name, or without a type where no name is given. -/
def findOptional (s : Session) (type? : Option String) (next : Option TypeId → Outcome) :
    Outcome :=
  match type? with
  | none => next none
  | some type => s.find s.types type fun t => next (some t)

def findAllOptional (s : Session) : List (Option String) → (List (Option TypeId) → Outcome) →
    Outcome
  | [], next => next []
  | type? :: rest, next =>
    s.findOptional type? fun t => s.findAllOptional rest fun ts => next (t :: ts)

def hashOf (s : Session) (t : Option TypeId) : UInt64 :=
  s.graph.identityHash nameHash t

def compare (s : Session) (a b : Option String) : Outcome :=
  s.findOptional a fun x =>
    s.findOptional b fun y =>
      let same := s.graph.sameIdentity x y
      s.reply (.comparison {
        same
        sameKey? := if x.isSome && y.isSome then some same else none
        sameHash := s.hashOf x == s.hashOf y })

def hash (s : Session) (type? : Option String) : Outcome :=
  s.findOptional type? fun t => s.reply (.hash (s.hashOf t))

/-- Whether the hashes of several optional types cancel each other. -/
def hashesCancel (s : Session) (types : List (Option String)) : Outcome :=
  s.findAllOptional types fun ts =>
    s.reply (.flag (ts.foldl (fun hash t => hash ^^^ s.hashOf t) 0 == 0))

def actOn (g : Graph) (m : IdentityMap Int) (action : MapAction TypeId) :
    IdentityMap Int × MapAnswer :=
  let hashOf t := g.identityHash nameHash (some t)
  match action with
  | .insert key value => (m.insert g hashOf key value, .value (m.value? g hashOf key))
  | .erase key => (m.erase g hashOf key, .value (m.value? g hashOf key))
  | .find key =>
    (m, .stored ((m.find? g hashOf key).map fun entry => (g.brief? entry.key, entry.value)))

/-- Takes actions on a map in turn; each answer is followed by the size. -/
def actAll (g : Graph) : IdentityMap Int → List (MapAction TypeId) → List (MapAnswer × Nat)
  | _, [] => []
  | m, action :: rest =>
    let (m, answer) := actOn g m action
    (answer, m.size) :: actAll g m rest

def findKeys (s : Session) : List (MapAction String) → (List (MapAction TypeId) → Outcome) →
    Outcome
  | [], next => next []
  | action :: rest, next =>
    s.find s.types action.key fun t => s.findKeys rest fun actions =>
      next (action.withKey t :: actions)

def useMap (s : Session) (actions : List (MapAction String)) : Outcome :=
  s.findKeys actions fun actions => s.reply (.mapAnswers (actAll s.graph .empty actions))

def matchTypes (s : Session) (left right : String) : Outcome :=
  s.find s.registries left fun l =>
    s.find s.registries right fun r =>
      let g := s.graph
      let found := g.matchTypes nameHash l r
      s.reply (.matching (found.pairs.map fun (t, u) => (g.brief? t, g.brief? u))
        (g.briefs found.unmatchedLeft) (g.briefs found.unmatchedRight))

end Session

end AssemblyGraph
