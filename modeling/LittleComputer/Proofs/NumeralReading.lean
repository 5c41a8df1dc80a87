import LittleComputer.Numeral

/-!
# Numerals read back

Digits are read back one by one, words from their four hexadecimal digits, and integers from
decimal text with its sign. A decimal numeral holds nothing but digits behind the sign, and
begins with a zero only if it is zero.
-/

namespace LittleComputer.Numeral

/-- The value of an upper-case hexadecimal digit. -/
def ofHexDigit? (digit : Char) : Option Nat := (List.range 16).find? fun n => hexDigit n == digit

/-- The word written by four hexadecimal digits. -/
def ofHexWord? : List Char → Option Word
  | [a, b, c, d] => do
    let a ← ofHexDigit? a
    let b ← ofHexDigit? b
    let c ← ofHexDigit? c
    let d ← ofHexDigit? d
    return (a * 4096 + b * 256 + c * 16 + d).toUInt16
  | _ => none

/-- The integer written in decimal, with a minus sign if it is negative. -/
def ofSigned? : List Char → Option Int
  | '-' :: digits => (ofDecimal? digits).map fun n : Nat => -(n : Int)
  | digits => (ofDecimal? digits).map fun n : Nat => (n : Int)

theorem ofHexDigit?_hexDigit {n : Nat} (h : n < 16) : ofHexDigit? (hexDigit n) = some n := by
  have all : ∀ k : Fin 16, ofHexDigit? (hexDigit k) = some k.val := by decide
  exact all ⟨n, h⟩

@[simp] theorem ofHexWord?_hexWord (w : Word) : ofHexWord? (hexWord w).toList = some w := by
  have bound := w.toNat_lt
  have sum : w.field 12 4 * 4096 + w.field 8 4 * 256 + w.field 4 4 * 16 + w.field 0 4 =
      w.toNat := by
    simp only [Word.field, Nat.pow_eq]
    omega
  rw [hexWord_toList, ofHexWord?, ofHexDigit?_hexDigit (w.field_lt 12 4),
    ofHexDigit?_hexDigit (w.field_lt 8 4), ofHexDigit?_hexDigit (w.field_lt 4 4),
    ofHexDigit?_hexDigit (w.field_lt 0 4)]
  show some (w.field 12 4 * 4096 + w.field 8 4 * 256 + w.field 4 4 * 16 + w.field 0 4).toUInt16 = _
  rw [sum, Nat.toUInt16, UInt16.ofNat_toNat]

theorem decimal_toList (n : Nat) : (decimal n).toList = Nat.toDigits 10 n := by
  rw [decimal_ofNat, Nat.toList_repr]

theorem isDigit_of_mem_decimal {n : Nat} {c : Char} (h : c ∈ (decimal n).toList) :
    c.isDigit = true := by
  rw [decimal_toList] at h
  exact Nat.isDigit_of_mem_toDigits (by decide) (by decide) h

theorem exists_digit (n : Nat) :
    ∃ digit more, (decimal n).toList = digit :: more ∧ digit.isDigit = true := by
  cases h : (decimal n).toList with
  | nil =>
    rw [decimal_toList] at h
    exact absurd h Nat.toDigits_ne_nil
  | cons digit more =>
    refine ⟨digit, more, rfl, isDigit_of_mem_decimal (n := n) ?_⟩
    rw [h]
    exact List.mem_cons_self

/-- No decimal numeral but the one of zero begins with a zero. -/
theorem head?_toDigits_ne {n : Nat} (positive : 0 < n) : (Nat.toDigits 10 n).head? ≠ some '0' := by
  induction n using Nat.strongRecOn with
  | ind n ih =>
    by_cases small : n < 10
    · have digit : ∀ k : Fin 10, 0 < k.val → Nat.digitChar k ≠ '0' := by decide
      rw [Nat.toDigits_of_lt_base small, List.head?_cons]
      exact fun h => digit ⟨n, small⟩ positive (Option.some.inj h)
    · have shorter := ih (n / 10) (by omega) (by omega)
      rw [Nat.toDigits_of_base_le (by decide) (by omega), List.head?_append]
      cases h : Nat.toDigits 10 (n / 10) with
      | nil => exact absurd h Nat.toDigits_ne_nil
      | cons digit rest =>
        rw [h] at shorter
        exact shorter

theorem decimal_neg {n : Int} (h : n < 0) : decimal n = "-" ++ decimal n.natAbs := by
  rw [decimal_ofNat, decimal, if_pos h]

theorem toList_decimal_neg {n : Int} (h : n < 0) :
    (decimal n).toList = '-' :: (decimal n.natAbs).toList := by
  rw [decimal_neg h, String.toList_append]
  rfl

theorem ofSigned?_decimal (n : Int) : ofSigned? (decimal n).toList = some n := by
  by_cases negative : n < 0
  · have value : -(n.natAbs : Int) = n := by omega
    rw [toList_decimal_neg negative, ofSigned?, ofDecimal?_decimal, Option.map_some, value]
  · obtain ⟨k, rfl⟩ := Int.eq_ofNat_of_zero_le (Int.not_lt.mp negative)
    rw [ofSigned?, ofDecimal?_decimal]
    · rfl
    · intro digits h
      have sign : '-'.isDigit = true :=
        isDigit_of_mem_decimal (n := k) (by rw [h]; exact List.mem_cons_self)
      exact absurd sign (by decide)

end LittleComputer.Numeral
