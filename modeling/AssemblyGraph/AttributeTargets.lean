import AssemblyGraph.FlagField

/-!
The program elements that an attribute may be applied to.
-/

namespace AssemblyGraph

/-- A set of program elements, with any unknown bits that it was given. -/
structure AttributeTargets where
  bits : UInt32
  deriving DecidableEq

namespace AttributeTargets

/-- The flags of the set; the last one stands for every element. -/
def field : FlagField where
  typeName := "AttributeTargets"
  flags := [
    ⟨"ASSEMBLY", 0x0001⟩,
    ⟨"MODULE", 0x0002⟩,
    ⟨"CLASS", 0x0004⟩,
    ⟨"STRUCT", 0x0008⟩,
    ⟨"ENUM", 0x0010⟩,
    ⟨"CONSTRUCTOR", 0x0020⟩,
    ⟨"METHOD", 0x0040⟩,
    ⟨"PROPERTY", 0x0080⟩,
    ⟨"FIELD", 0x0100⟩,
    ⟨"EVENT", 0x0200⟩,
    ⟨"INTERFACE", 0x0400⟩,
    ⟨"PARAMETER", 0x0800⟩,
    ⟨"DELEGATE", 0x1000⟩,
    ⟨"RETURN_VALUE", 0x2000⟩,
    ⟨"GENERIC_PARAMETER", 0x4000⟩,
    ⟨"ALL", 0x7FFF⟩]

/-- The union of the elements of these names, if they are all known. -/
def ofNames? (names : List String) : Option AttributeTargets :=
  (field.ofNames? names).map .mk

/-- The value of the set as a signed word, as argument values store it. -/
def toInt32 (targets : AttributeTargets) : Int32 :=
  targets.bits.toInt32

def known (targets : AttributeTargets) : UInt32 :=
  field.truncate targets.bits

def isValid (targets : AttributeTargets) : Bool :=
  targets.known == targets.bits

def isAll (targets : AttributeTargets) : Bool :=
  targets.known == field.known

def isEmpty (targets : AttributeTargets) : Bool :=
  targets.bits == 0

/-- The known elements that the set lacks. -/
def complement (targets : AttributeTargets) : UInt32 :=
  field.truncate (~~~targets.bits)

def names (targets : AttributeTargets) : List String :=
  field.names targets.bits

def describe (targets : AttributeTargets) : String :=
  field.describe targets.bits

end AttributeTargets

end AssemblyGraph
