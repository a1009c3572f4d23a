import AssemblyGraph.Text.Hex

/-!
Metadata tokens.

A token names a row of a metadata table in one 32-bit word: the high byte is
the table and the low 24 bits are the row. Tokens are ordered as words, and
this is the order in which registries list their types.
-/

namespace AssemblyGraph

inductive Table where
  | typeRef
  | typeDef
  | methodDef
  | memberRef
  | genericParam
  /-- An artificial table for the runtime's primitive types. -/
  | primitive
  deriving DecidableEq

/-- The byte that stands for a table in a token. -/
def Table.code : Table → UInt8
  | .typeRef => 0x01
  | .typeDef => 0x02
  | .methodDef => 0x06
  | .memberRef => 0x0A
  | .genericParam => 0x2A
  | .primitive => 0xF0

/-- A row of a metadata table, as one word. -/
structure Token where
  value : UInt32
  deriving DecidableEq, Hashable, Inhabited

namespace Token

instance : Ord Token := ⟨compareOn Token.value⟩

instance : LT Token := ⟨fun a b => a.value < b.value⟩

instance (a b : Token) : Decidable (a < b) :=
  inferInstanceAs (Decidable (a.value < b.value))

instance : Std.TransOrd Token :=
  inferInstanceAs (Std.TransCmp (compareOn Token.value))

instance : Std.LawfulEqOrd Token where
  eq_of_compare {a b} h := by
    cases a
    cases b
    exact congrArg Token.mk (Std.LawfulEqOrd.eq_of_compare h)

def rowMask : UInt32 := 0x00FFFFFF

/-- The token of a row in a table; a row wider than 24 bits loses its high bits. -/
def ofParts (table : UInt8) (row : UInt32) : Token :=
  ⟨(table.toUInt32 <<< 24) ||| (row &&& rowMask)⟩

def inTable (table : Table) (row : UInt32) : Token :=
  ofParts table.code row

def table (t : Token) : UInt8 :=
  (t.value >>> 24).toUInt8

def row (t : Token) : UInt32 :=
  t.value &&& rowMask

/-- Whether the token is the zero word, which names no row. -/
def isNull (t : Token) : Bool :=
  t.value == 0

/-- The text of a token: `0x` and eight digits. -/
def text (t : Token) : String :=
  "0x" ++ Hex.padded 8 t.value.toNat

/-- The description of a token, which shows its table and row beside the word. -/
def describe (t : Token) : String :=
  "Token(" ++ t.text ++ ", table: 0x" ++ Hex.padded 2 t.table.toNat ++
    ", row: " ++ toString t.row.toNat ++ ")"

/-- The tokens in ascending order; equal tokens are kept. -/
def sort (tokens : List Token) : List Token :=
  tokens.mergeSort fun a b => decide (a.value ≤ b.value)

end Token

end AssemblyGraph
