import AssemblyGraph.Identity

/-!
Hash maps whose keys are types up to identity.

A key is looked for among the entries whose keys have its hash. A key that is
put in again keeps its place and its first type; only the value is replaced.
-/

namespace AssemblyGraph

structure IdentityEntry (α : Type) where
  hash : UInt64
  key : TypeId
  value : α

/-- A map from types, no two of which are the same, to values. -/
structure IdentityMap (α : Type) where
  entries : List (IdentityEntry α)

namespace IdentityMap

variable {α : Type}

def empty : IdentityMap α :=
  ⟨[]⟩

def size (m : IdentityMap α) : Nat :=
  m.entries.length

/-- Whether an entry is the one of a key with its hash. -/
def isEntryOf (g : Graph) (hash : UInt64) (key : TypeId) (entry : IdentityEntry α) : Bool :=
  entry.hash == hash && g.sameIdentity (some entry.key) (some key)

def find? (m : IdentityMap α) (g : Graph) (hashOf : TypeId → UInt64) (key : TypeId) :
    Option (IdentityEntry α) :=
  m.entries.find? (isEntryOf g (hashOf key) key)

def value? (m : IdentityMap α) (g : Graph) (hashOf : TypeId → UInt64) (key : TypeId) :
    Option α :=
  (m.find? g hashOf key).map (·.value)

/-- Puts a value under a key, made from the one that is there. -/
def alter (m : IdentityMap α) (g : Graph) (hashOf : TypeId → UInt64) (key : TypeId)
    (f : Option α → α) : IdentityMap α :=
  match m.find? g hashOf key with
  | none => ⟨m.entries ++ [⟨hashOf key, key, f none⟩]⟩
  | some _ =>
    let isEntry := isEntryOf g (hashOf key) key
    ⟨m.entries.map fun entry =>
      if isEntry entry then { entry with value := f (some entry.value) } else entry⟩

def insert (m : IdentityMap α) (g : Graph) (hashOf : TypeId → UInt64) (key : TypeId)
    (value : α) : IdentityMap α :=
  m.alter g hashOf key fun _ => value

def erase (m : IdentityMap α) (g : Graph) (hashOf : TypeId → UInt64) (key : TypeId) :
    IdentityMap α :=
  ⟨m.entries.eraseP (isEntryOf g (hashOf key) key)⟩

end IdentityMap

end AssemblyGraph
