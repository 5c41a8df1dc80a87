/-!
# Words and their fields

The machine computes with words of sixteen bits and talks to its console in bytes. An
instruction word is cut into fields: a plain field is a number below a power of two, a
signed field is read in two's complement. Both are stated by division and remainder, so
that they can be compared with integer arithmetic.
-/

namespace LittleComputer

/-- Sixteen bits: a register, a memory cell or an address. -/
abbrev Word := UInt16

/-- Eight bits: a character, a register number or a trap vector. -/
abbrev Byte := UInt8

namespace Word

/-- The number held by the `width` bits of a word from bit `low` upwards. -/
@[inline] def field (w : Word) (low width : Nat) : Nat :=
  w.toNat / Nat.pow 2 low % Nat.pow 2 width

/-- Bit `i` of a word. -/
@[inline] def bit (w : Word) (i : Nat) : Bool := w.field i 1 == 1

/-- The lowest `width` bits of a word, read as a two's-complement number. -/
@[inline] def signedField (w : Word) (width : Nat) : Int :=
  Int.bmod w.toNat (Nat.pow 2 width)

/-- Widen the lowest `width` bits of a word to a whole word with the same signed value. -/
def signExtend (w : Word) (width : Nat) : Word := UInt16.ofInt (w.signedField width)

@[inline] def lowByte (w : Word) : Byte := w.toUInt8

@[inline] def highByte (w : Word) : Byte := (w.field 8 8).toUInt8

/-- The word with the given high and low bytes. -/
@[inline] def ofBytes (high low : Byte) : Word := (high.toNat * 256 + low.toNat).toUInt16

/-- A word read as a two's-complement number. -/
@[inline] def signed (w : Word) : Int := w.toInt16.toInt

/-- A word moved by a signed offset, modulo 65536. -/
@[inline] def displace (w : Word) (offset : Int16) : Word := w + offset.toUInt16

theorem field_lt (w : Word) (low width : Nat) : w.field low width < Nat.pow 2 width :=
  Nat.mod_lt _ (Nat.two_pow_pos width)

theorem field_toUInt8_toNat (w : Word) {low width : Nat} (h : width ≤ 8) :
    (w.field low width).toUInt8.toNat = w.field low width := by
  have bound := w.field_lt low width
  have wide : 2 ^ width ≤ 2 ^ 8 := Nat.pow_le_pow_right (by decide) h
  simp only [Nat.toUInt8, UInt8.toNat_ofNat']
  exact Nat.mod_eq_of_lt (Nat.lt_of_lt_of_le bound wide)

theorem bit_eq_true_iff (w : Word) (i : Nat) : w.bit i = true ↔ w.toNat / Nat.pow 2 i % 2 = 1 := by
  simp [bit, field]

@[simp] theorem lowByte_toNat (w : Word) : w.lowByte.toNat = w.toNat % 256 := by
  simp [lowByte]

@[simp] theorem highByte_toNat (w : Word) : w.highByte.toNat = w.toNat / 256 := by
  have bound := w.toNat_lt
  rw [highByte, field_toUInt8_toNat w (Nat.le_refl 8)]
  simp only [field, Nat.pow_eq]
  omega

@[simp] theorem ofBytes_toNat (high low : Byte) :
    (ofBytes high low).toNat = high.toNat * 256 + low.toNat := by
  have hh := high.toNat_lt
  have hl := low.toNat_lt
  simp only [ofBytes, Nat.toUInt16, UInt16.toNat_ofNat']
  omega

@[simp] theorem lowByte_ofBytes (high low : Byte) : (ofBytes high low).lowByte = low := by
  have bound := low.toNat_lt
  apply UInt8.toNat.inj
  rw [lowByte_toNat, ofBytes_toNat]
  omega

@[simp] theorem highByte_ofBytes (high low : Byte) : (ofBytes high low).highByte = high := by
  have bound := low.toNat_lt
  apply UInt8.toNat.inj
  rw [highByte_toNat, ofBytes_toNat]
  omega

@[simp] theorem ofBytes_bytes (w : Word) : ofBytes w.highByte w.lowByte = w := by
  apply UInt16.toNat.inj
  rw [ofBytes_toNat, highByte_toNat, lowByte_toNat]
  omega

end Word

end LittleComputer
