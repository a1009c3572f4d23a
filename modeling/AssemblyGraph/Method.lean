import AssemblyGraph.FlagField
import AssemblyGraph.Id
import AssemblyGraph.Signature
import AssemblyGraph.Text.Quoted

/-!
Methods.

A method is made from a raw word of attributes, which holds its accessibility
in the low three bits and its modifiers above them. The bits that no flag
stands for are cut when the method is made.
-/

namespace AssemblyGraph

namespace MethodAttributes

def access : FlagField where
  typeName := "MethodAccessFlags"
  flags := [
    ⟨"COMPILER_CONTROLLED", 0x0000⟩,
    ⟨"PRIVATE", 0x0001⟩,
    ⟨"FAM_AND_ASSEM", 0x0002⟩,
    ⟨"ASSEM", 0x0003⟩,
    ⟨"FAMILY", 0x0004⟩,
    ⟨"FAM_OR_ASSEM", 0x0005⟩,
    ⟨"PUBLIC", 0x0006⟩]

def modifiers : FlagField where
  typeName := "MethodModifiers"
  flags := [
    ⟨"STATIC", 0x0010⟩,
    ⟨"FINAL", 0x0020⟩,
    ⟨"VIRTUAL", 0x0040⟩,
    ⟨"HIDE_BY_SIG", 0x0080⟩,
    ⟨"ABSTRACT", 0x0400⟩,
    ⟨"SPECIAL_NAME", 0x0800⟩,
    ⟨"RTSPECIAL_NAME", 0x1000⟩]

/-- The bits of a raw word that hold the accessibility. -/
def accessMask : UInt32 := 0x0007

/-- The bit of a raw word that holds the layout of the virtual table. -/
def layoutMask : UInt32 := 0x0100

def accessOf (raw : UInt32) : UInt32 :=
  access.truncate (raw &&& accessMask)

def modifiersOf (raw : UInt32) : UInt32 :=
  modifiers.truncate (raw &&& ~~~accessMask &&& ~~~layoutMask)

def staticBit : UInt32 := 0x0010

def specialBits : UInt32 := 0x0800 ||| 0x1000

/-- The raw word of a public constructor that hides by signature. -/
def publicConstructor : UInt32 := 0x0006 ||| 0x0080 ||| 0x0800 ||| 0x1000

end MethodAttributes

/-- A method. The declaring type is a link that does not own its target, and
is set at most once. -/
structure Method where
  token : Token
  name : String
  access : UInt32
  modifiers : UInt32
  signature : MethodSignature
  declaringType? : Option TypeId

namespace Method

def constructorName : String := ".ctor"

def initializerName : String := ".cctor"

/-- A method without a declaring type, from a raw word of attributes. -/
def ofAttributes (token : Token) (name : String) (raw : UInt32)
    (signature : MethodSignature) : Method where
  token
  name
  access := MethodAttributes.accessOf raw
  modifiers := MethodAttributes.modifiersOf raw
  signature
  declaringType? := none

def hasModifiers (m : Method) (bits : UInt32) : Bool :=
  m.modifiers &&& bits == bits

/-- Whether the method is a constructor or a type initializer: it bears the
name of one and is marked as special to the runtime. -/
def isConstructor (m : Method) : Bool :=
  m.hasModifiers MethodAttributes.specialBits &&
    (m.name == constructorName || m.name == initializerName)

def isStatic (m : Method) : Bool :=
  m.hasModifiers MethodAttributes.staticBit

def paramCount (m : Method) : Nat :=
  m.signature.params.length

def describe (m : Method) : String :=
  "Method \x7b token: " ++ m.token.describe ++ ", name: " ++ Quoted.encode m.name ++
    ", flags_modifiers: " ++ MethodAttributes.modifiers.describe m.modifiers ++
    ", params: " ++ toString m.paramCount ++ ", .. \x7d"

end Method

end AssemblyGraph
