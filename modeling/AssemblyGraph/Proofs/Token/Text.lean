import AssemblyGraph.Proofs.Token

/-!
Three views of a token.

A token is a word, a row in a table, and a text. The word is the table followed by the row,
so words are ordered as tables are, and within a table as rows are. The text is a numeral of
fixed width, so texts are ordered as words are. Whatever is listed by one of the three views
is listed alike by the other two, and each view determines the token.
-/

namespace AssemblyGraph

namespace Hex

/-! ### The order of numerals -/

theorem digit_lt_iff : ∀ n < 16, ∀ m < 16, digit n < digit m ↔ n < m := by
  decide

theorem digit_inj : ∀ n < 16, ∀ m < 16, digit n = digit m → n = m := by
  decide

/-- Texts of one length that go on by one more character. -/
theorem concat_lt_concat_iff {l l' : List Char} (length : l.length = l'.length) (c c' : Char) :
    l ++ [c] < l' ++ [c'] ↔ l < l' ∨ (l = l' ∧ c < c') := by
  induction l generalizing l' with
  | nil =>
      obtain rfl := List.length_eq_zero_iff.mp length.symm
      simp [List.cons_lt_cons_iff]
  | cons x l ih =>
      cases l' with
      | nil => cases length
      | cons x' l' =>
          rw [List.cons_append, List.cons_append, List.cons_lt_cons_iff, List.cons_lt_cons_iff,
            ih (Nat.succ.inj length), List.cons.injEq]
          grind

theorem digits_inj {width n m : Nat} (hn : n < 16 ^ width) (hm : m < 16 ^ width)
    (h : digits width n = digits width m) : n = m := by
  induction width generalizing n m with
  | zero => omega
  | succ width ih =>
      rw [Nat.pow_succ] at hn hm
      obtain ⟨hhigh, hlow⟩ := List.append_inj' h rfl
      have hdiv : n / 16 = m / 16 := ih (by omega) (by omega) hhigh
      have hmod : n % 16 = m % 16 := by
        refine digit_inj _ (Nat.mod_lt n (by decide)) _ (Nat.mod_lt m (by decide)) ?_
        exact List.head_eq_of_cons_eq hlow
      omega

/-- Numerals of one width are ordered as the numbers are: by all digits but the last one, and
where these agree, by the last one. -/
theorem digits_lt_iff {width n m : Nat} (hn : n < 16 ^ width) (hm : m < 16 ^ width) :
    digits width n < digits width m ↔ n < m := by
  induction width generalizing n m with
  | zero =>
      have hsame : n = m := by omega
      simp [digits, hsame]
  | succ width ih =>
      rw [Nat.pow_succ] at hn hm
      have hn' : n / 16 < 16 ^ width := by omega
      have hm' : m / 16 < 16 ^ width := by omega
      have hhigh : digits width (n / 16) = digits width (m / 16) ↔ n / 16 = m / 16 :=
        ⟨digits_inj hn' hm', congrArg _⟩
      have hlow : digit (n % 16) < digit (m % 16) ↔ n % 16 < m % 16 :=
        digit_lt_iff _ (Nat.mod_lt n (by decide)) _ (Nat.mod_lt m (by decide))
      rw [digits, digits, concat_lt_concat_iff (by rw [length_digits, length_digits]), ih hn' hm',
        hhigh, hlow]
      omega

end Hex

namespace Token

/-! ### Table and row -/

theorem toNat_table (t : Token) : t.table.toNat = t.value.toNat / 2 ^ 24 := by
  have hlt : t.value.toNat < 2 ^ 32 := t.value.toNat_lt
  rw [table, UInt32.toNat_toUInt8, UInt32.toNat_shiftRight,
    show (24 : UInt32).toNat % 32 = 24 from rfl, Nat.shiftRight_eq_div_pow]
  omega

theorem lt_iff_toNat_lt {a b : Token} : a < b ↔ a.value.toNat < b.value.toNat :=
  UInt32.lt_iff_toNat_lt

theorem compare_eq_lt_iff {a b : Token} : compare a b = .lt ↔ a < b :=
  Std.compare_eq_lt (a := a.value)

/-- A token is ordered by its table, and within a table by its row. -/
theorem lt_iff_table_row {a b : Token} :
    a < b ↔ a.table < b.table ∨ (a.table = b.table ∧ a.row < b.row) := by
  rw [lt_iff_toNat_lt, UInt8.lt_iff_toNat_lt, UInt32.lt_iff_toNat_lt, ← UInt8.toNat_inj,
    toNat_table, toNat_table, toNat_row, toNat_row]
  omega

theorem table_ofParts (table : UInt8) (row : UInt32) : (ofParts table row).table = table := by
  rw [← UInt8.toNat_inj, toNat_table, toNat_ofParts]
  omega

theorem toNat_row_ofParts (table : UInt8) (row : UInt32) :
    (ofParts table row).row.toNat = row.toNat % 2 ^ 24 := by
  rw [toNat_row, toNat_ofParts]
  omega

theorem ofParts_table_row (t : Token) : ofParts t.table t.row = t := by
  have hvalue : (ofParts t.table t.row).value = t.value := by
    rw [← UInt32.toNat_inj, toNat_ofParts, toNat_table, toNat_row]
    omega
  exact congrArg Token.mk hvalue

/-! ### The text -/

theorem toList_text (t : Token) : t.text.toList = '0' :: 'x' :: Hex.digits 8 t.value.toNat := by
  have hdigits : (Hex.padded 8 t.value.toNat).toList = Hex.digits 8 t.value.toNat :=
    String.toList_ofList
  rw [text, String.toList_append, hdigits]
  rfl

theorem lt_iff_text {a b : Token} : a < b ↔ a.text < b.text := by
  rw [String.lt_iff, toList_text, toList_text, List.cons_lt_cons_iff,
    List.cons_lt_cons_iff, Hex.digits_lt_iff a.value.toNat_lt b.value.toNat_lt, lt_iff_toNat_lt]
  simp

theorem length_text (t : Token) : t.text.length = 10 := by
  rw [← String.length_toList, toList_text, List.length_cons, List.length_cons, Hex.length_digits]

theorem text_injective : Function.Injective text := by
  intro a b h
  have hlist := congrArg String.toList h
  rw [toList_text, toList_text, List.cons.injEq, List.cons.injEq] at hlist
  have hvalue := Hex.digits_inj a.value.toNat_lt b.value.toNat_lt hlist.2.2
  exact congrArg Token.mk (UInt32.toNat_inj.mp hvalue)

/-- The three views of a token agree. Tokens are ordered as their tables and rows are, and as
their texts are, and registries list them in this order. A token is what is made from its
table and its row. What is made from a table and a row has that table, and it has the row but
for what does not fit into 24 bits. Texts have ten characters, and no two tokens share one. -/
theorem views_agree :
    (∀ a b : Token,
      (a < b ↔ a.table < b.table ∨ (a.table = b.table ∧ a.row < b.row)) ∧
      (a < b ↔ a.text < b.text) ∧ (a < b ↔ compare a b = .lt)) ∧
    (∀ t : Token, ofParts t.table t.row = t) ∧
    (∀ table row, (ofParts table row).table = table ∧
      (ofParts table row).row.toNat = row.toNat % 2 ^ 24) ∧
    (∀ t : Token, t.text.length = 10) ∧ Function.Injective text := by
  refine ⟨fun a b => ⟨lt_iff_table_row, lt_iff_text, compare_eq_lt_iff.symm⟩, ofParts_table_row,
    fun table row => ⟨table_ofParts table row, toNat_row_ofParts table row⟩, length_text,
    text_injective⟩

end Token

end AssemblyGraph
