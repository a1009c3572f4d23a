import AssemblyGraph.Token
import Mathlib.Algebra.Group.Nat.Defs

/-!
The words of generated tokens.

A counter that has passed the last row of a table starts again at the row zero,
so the tokens of one table differ as long as the rows do in their low 24 bits.
-/

namespace AssemblyGraph.Token

theorem toNat_row (t : Token) : t.row.toNat = t.value.toNat % 2 ^ 24 := by
  rw [row, UInt32.toNat_and, show rowMask.toNat = 2 ^ 24 - 1 from rfl,
    Nat.and_two_pow_sub_one_eq_mod]

/-- A token is the table's byte followed by the low 24 bits of the row. -/
theorem toNat_ofParts (table : UInt8) (row : UInt32) :
    (ofParts table row).value.toNat = table.toNat * 2 ^ 24 + row.toNat % 2 ^ 24 := by
  have htable : table.toNat < 2 ^ 8 := table.toNat_lt
  have hhigh : (table.toUInt32 <<< 24).toNat = table.toNat <<< 24 := by
    rw [UInt32.toNat_shiftLeft, UInt8.toNat_toUInt32]
    refine Nat.mod_eq_of_lt ?_
    rw [show (24 : UInt32).toNat % 32 = 24 from rfl, Nat.shiftLeft_eq]
    omega
  have hlow : (row &&& rowMask).toNat = row.toNat % 2 ^ 24 := by
    rw [UInt32.toNat_and, show rowMask.toNat = 2 ^ 24 - 1 from rfl, Nat.and_two_pow_sub_one_eq_mod]
  have hlt : row.toNat % 2 ^ 24 < 2 ^ 24 := Nat.mod_lt _ (by decide)
  rw [ofParts, UInt32.toNat_or, hhigh, hlow, ← Nat.shiftLeft_add_eq_or_of_lt hlt,
    Nat.shiftLeft_eq]

/-- The token of a row that is counted from one. -/
def ofRow (table : Table) (n : Nat) : Token :=
  inTable table (.ofNat n)

theorem toNat_ofRow (table : Table) {n : Nat} (h : n < 2 ^ 24) :
    (ofRow table n).value.toNat = table.code.toNat * 2 ^ 24 + n := by
  have hn : (UInt32.ofNat n).toNat = n := by
    rw [UInt32.toNat_ofNat']
    omega
  rw [ofRow, inTable, toNat_ofParts, hn, Nat.mod_eq_of_lt h]

/-- A row loses what does not fit into 24 bits. -/
theorem toNat_ofRow_mod (table : Table) (n : Nat) :
    (ofRow table n).value.toNat = table.code.toNat * 2 ^ 24 + n % 2 ^ 24 := by
  rw [ofRow, inTable, toNat_ofParts, UInt32.toNat_ofNat']
  omega

theorem toNat_row_ofRow (table : Table) (n : Nat) : (ofRow table n).row.toNat = n % 2 ^ 24 := by
  rw [toNat_row, toNat_ofRow_mod]
  omega

/-- Rows share a token if they differ by a multiple of the rows that a table can number. -/
theorem ofRow_eq_iff (table : Table) {n k : Nat} :
    ofRow table n = ofRow table k ↔ n % 2 ^ 24 = k % 2 ^ 24 := by
  constructor
  · intro h
    rw [← toNat_row_ofRow table n, ← toNat_row_ofRow table k, h]
  · intro h
    have hvalue : (ofRow table n).value = (ofRow table k).value := by
      rw [← UInt32.toNat_inj, toNat_ofRow_mod, toNat_ofRow_mod, h]
    exact congrArg Token.mk hvalue

theorem compare_ofRow (table : Table) {n k : Nat} (hlt : n < k) (h : k < 2 ^ 24) :
    compare (ofRow table n) (ofRow table k) = .lt := by
  have hvalue : (ofRow table n).value < (ofRow table k).value := by
    rw [UInt32.lt_iff_toNat_lt, toNat_ofRow table (Nat.lt_trans hlt h), toNat_ofRow table h]
    omega
  show compare (ofRow table n).value (ofRow table k).value = .lt
  exact Std.compare_eq_lt.mpr hvalue

/-- The token after `n` rows is none of theirs, even if the row is zero again. -/
theorem ofRow_succ_ne (table : Table) {n k : Nat} (hk : k < n) (h : n < 2 ^ 24) :
    ofRow table (n + 1) ≠ ofRow table (k + 1) := by
  intro heq
  have hvalue := congrArg (fun t => t.value.toNat) heq
  have hn : (UInt32.ofNat (n + 1)).toNat = n + 1 := by
    rw [UInt32.toNat_ofNat']
    omega
  simp only [toNat_ofRow table (Nat.lt_of_le_of_lt hk h)] at hvalue
  rw [ofRow, inTable, toNat_ofParts, hn] at hvalue
  omega

end AssemblyGraph.Token
