import LittleComputer.Word

/-!
# Numerals

Numbers as text. Addresses and words are written in upper-case hexadecimal with a fixed
number of digits, everything else in plain decimal with a minus sign where it is needed.
Decimal text is read back digit by digit.
-/

namespace LittleComputer.Numeral

/-- The upper-case hexadecimal digit of a number below sixteen. -/
def hexDigit (n : Nat) : Char := Char.ofNat (if n < 10 then 48 + n else 55 + n)

/-- A byte as two hexadecimal digits. -/
def hexByte (b : Byte) : String :=
  String.ofList [hexDigit (b.toNat / 16), hexDigit (b.toNat % 16)]

/-- A word as four hexadecimal digits. -/
def hexWord (w : Word) : String :=
  String.ofList [hexDigit (w.field 12 4), hexDigit (w.field 8 4),
    hexDigit (w.field 4 4), hexDigit (w.field 0 4)]

/-- An integer in decimal, without leading zeros. -/
def decimal (n : Int) : String :=
  if n < 0 then "-" ++ n.natAbs.repr else n.natAbs.repr

/-- The number written by a list of decimal digits; an empty list writes none. -/
def ofDecimal? (digits : List Char) : Option Nat :=
  if digits ≠ [] ∧ digits.all Char.isDigit then some (Nat.ofDigitChars 10 digits 0) else none

theorem hexWord_toList (w : Word) :
    (hexWord w).toList = [hexDigit (w.field 12 4), hexDigit (w.field 8 4),
      hexDigit (w.field 4 4), hexDigit (w.field 0 4)] := by
  simp [hexWord]

@[simp] theorem length_hexWord (w : Word) : (hexWord w).toList.length = 4 := by
  simp [hexWord]

theorem decimal_ofNat (n : Nat) : decimal n = n.repr := by
  simp [decimal]

@[simp] theorem ofDecimal?_decimal (n : Nat) : ofDecimal? (decimal n).toList = some n := by
  have digits : ∀ c ∈ Nat.toDigits 10 n, c.isDigit = true := fun c hc =>
    Nat.isDigit_of_mem_toDigits (by decide) (by decide) hc
  simp only [decimal_ofNat, Nat.toList_repr, ofDecimal?, Nat.ofDigitChars_ten_toDigits]
  rw [if_pos ⟨Nat.toDigits_ne_nil, List.all_eq_true.mpr digits⟩]

end LittleComputer.Numeral
