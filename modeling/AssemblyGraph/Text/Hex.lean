/-!
Hexadecimal numerals, in lower case.

A numeral of fixed width shows the last digits of a number, with zeros in
front where the number is shorter. Two numerals of one width are ordered as
the numbers are, which is what the text of a token relies on.
-/

namespace AssemblyGraph.Hex

/-- The lower-case digit of a value below sixteen. -/
def digit (n : Nat) : Char :=
  if n < 10 then Char.ofNat ('0'.toNat + n) else Char.ofNat ('a'.toNat + (n - 10))

/-- The last `width` digits of `n`, the most significant one first. -/
def digits : Nat → Nat → List Char
  | 0, _ => []
  | width + 1, n => digits width (n / 16) ++ [digit (n % 16)]

/-- The numeral of `n` with exactly `width` digits. -/
def padded (width n : Nat) : String :=
  String.ofList (digits width n)

/-- The numeral of `n` without zeros in front; zero itself is a single zero. -/
def shortest (n : Nat) : String :=
  String.ofList (Nat.toDigits 16 n)

@[simp] theorem length_digits (width n : Nat) : (digits width n).length = width := by
  induction width generalizing n with
  | zero => rfl
  | succ width ih => simp [digits, ih]

@[simp] theorem length_padded (width n : Nat) : (padded width n).length = width := by
  simp [padded]

end AssemblyGraph.Hex
