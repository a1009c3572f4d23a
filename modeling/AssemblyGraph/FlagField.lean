import AssemblyGraph.Text.Hex

/-!
Bit fields with named flags.

The flags that a value shows are found by one walk in declaration order: a
flag is named when all its bits are set in the value and at least one of them
has not been named by an earlier flag. So a flag that stands for no bits is
never named, and neither is a union of flags that come before it.
-/

namespace AssemblyGraph

structure Flag where
  name : String
  bits : UInt32

/-- A bit field: the name of its type and its flags in declaration order. -/
structure FlagField where
  typeName : String
  flags : List Flag

namespace FlagField

/-- The names found by walking `flags` over `value`, and the bits that are left
when the bits in `unnamed` have not been named before. -/
def walk (value : UInt32) : List Flag → UInt32 → List String × UInt32
  | [], unnamed => ([], unnamed)
  | flag :: flags, unnamed =>
    if value &&& flag.bits == flag.bits && unnamed &&& flag.bits != 0 then
      let (names, left) := walk value flags (unnamed &&& ~~~flag.bits)
      (flag.name :: names, left)
    else
      walk value flags unnamed

def known (field : FlagField) : UInt32 :=
  field.flags.foldl (fun bits flag => bits ||| flag.bits) 0

/-- The value without the bits that no flag stands for. -/
def truncate (field : FlagField) (value : UInt32) : UInt32 :=
  value &&& field.known

def names (field : FlagField) (value : UInt32) : List String :=
  (walk value field.flags value).1

/-- The parts of a value's description: its flags and then, in hexadecimal, the
bits that no flag has named. The empty value has the single part `0x0`. -/
def parts (field : FlagField) (value : UInt32) : List String :=
  let (names, left) := walk value field.flags value
  if value == 0 then ["0x0"]
  else if left == 0 then names
  else names ++ ["0x" ++ Hex.shortest left.toNat]

def describe (field : FlagField) (value : UInt32) : String :=
  field.typeName ++ "(" ++ " | ".intercalate (field.parts value) ++ ")"

/-- The union of the flags of these names, if the field has them all. -/
def ofNames? (field : FlagField) (names : List String) : Option UInt32 :=
  names.foldlM (fun bits name =>
    (field.flags.find? (·.name == name)).map fun flag => bits ||| flag.bits) 0

end FlagField

end AssemblyGraph
