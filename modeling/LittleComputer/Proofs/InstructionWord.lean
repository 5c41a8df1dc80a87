import LittleComputer.Proofs.Step

/-!
# Instructions and their words

An instruction value may hold fields that are wider than the ones of its word. Encoding and
decoding it narrows every field and keeps the operation and the form of its operands. A word
that is decoded and encoded again keeps the bits that decoding looks at; the others take fixed
values. So the words of one instruction are those that agree once written this way.
-/

namespace LittleComputer

namespace Word

/-- The word whose set bits are the `width` bits from bit `low` upwards. -/
def block (low width : Nat) : Word := ((2 ^ width - 1) * 2 ^ low).toUInt16

/-- A word with the `width` bits from bit `low` upwards cleared. -/
def clear (w : Word) (low width : Nat) : Word := w &&& ~~~ block low width

/-- A word with the `width` bits from bit `low` upwards set. -/
def fill (w : Word) (low width : Nat) : Word := w ||| block low width

/-- A word with the bits that decoding does not look at put to the values that encoding writes. -/
def canonical (w : Word) : Word :=
  match Opcode.ofWord w with
  | .add | .and => if w.hasImmediate then w else w.clear 3 2
  | .not => w.fill 0 6
  | .jsr => if w.hasLongOffset then w else (w.clear 9 2).clear 0 6
  | .jmp => (w.clear 9 3).clear 0 6
  | .trap => w.clear 8 4
  | .rti | .res => w.clear 0 12
  | .br | .ld | .st | .ldr | .str | .ldi | .sti | .lea => w

section
variable (w : Word) {low width : Nat}

theorem toNat_block (fits : low + width ≤ 16) :
    (block low width).toNat = (2 ^ width - 1) * 2 ^ low := by
  have room : 2 ^ width * 2 ^ low ≤ 2 ^ 16 := by
    rw [← Nat.pow_add]
    exact Nat.pow_le_pow_right (by decide) (by omega)
  have less : (2 ^ width - 1) * 2 ^ low < 2 ^ width * 2 ^ low :=
    Nat.mul_lt_mul_of_pos_right (Nat.sub_lt (Nat.two_pow_pos _) Nat.one_pos) (Nat.two_pow_pos _)
  exact Nat.mod_eq_of_lt (Nat.lt_of_lt_of_le less room)

theorem testBit_block (fits : low + width ≤ 16) (i : Nat) :
    (block low width).toNat.testBit i = decide (low ≤ i ∧ i < low + width) := by
  rw [toNat_block fits, Nat.testBit_mul_two_pow, Nat.testBit_two_pow_sub_one, ← Bool.decide_and]
  exact decide_eq_decide.mpr (by omega)

theorem testBit_not (i : Nat) :
    (~~~ w).toNat.testBit i = (decide (i < 16) && !w.toNat.testBit i) := by
  have bits : (~~~ w).toNat = 2 ^ 16 - (w.toNat + 1) := by
    rw [UInt16.toNat_not, Nat.add_comm, Nat.sub_add_eq]
    rfl
  rw [bits]
  exact Nat.testBit_two_pow_sub_succ w.toNat_lt i

theorem testBit_clear (fits : low + width ≤ 16) (i : Nat) :
    (w.clear low width).toNat.testBit i =
      (w.toNat.testBit i && !decide (low ≤ i ∧ i < low + width)) := by
  rw [clear, UInt16.toNat_and, Nat.testBit_and, testBit_not, testBit_block fits]
  by_cases inside : i < 16
  · simp [inside]
  · have zero : w.toNat.testBit i = false :=
      Nat.testBit_lt_two_pow (Nat.lt_of_lt_of_le w.toNat_lt
        (Nat.pow_le_pow_right (by decide) (Nat.le_of_not_lt inside)))
    simp [zero]

theorem testBit_fill (fits : low + width ≤ 16) (i : Nat) :
    (w.fill low width).toNat.testBit i =
      (w.toNat.testBit i || decide (low ≤ i ∧ i < low + width)) := by
  rw [fill, UInt16.toNat_or, Nat.testBit_or, testBit_block fits]

/-- A number with its `width` bits from bit `low` upwards replaced. -/
theorem testBit_replaced (n : Nat) {b : Nat} (hb : b < 2 ^ width) (i : Nat) :
    (2 ^ (low + width) * (n / 2 ^ (low + width)) + (2 ^ low * b + n % 2 ^ low)).testBit i =
      if low ≤ i ∧ i < low + width then b.testBit (i - low) else n.testBit i := by
  have below : n % 2 ^ low < 2 ^ low := Nat.mod_lt _ (Nat.two_pow_pos low)
  have lower : 2 ^ low * b + n % 2 ^ low < 2 ^ (low + width) := by
    calc
      2 ^ low * b + n % 2 ^ low < 2 ^ low * (b + 1) := by rw [Nat.mul_succ]; omega
      _ ≤ 2 ^ low * 2 ^ width := Nat.mul_le_mul_left _ hb
      _ = 2 ^ (low + width) := (Nat.pow_add _ _ _).symm
  rw [Nat.testBit_two_pow_mul_add _ lower, Nat.testBit_two_pow_mul_add _ below,
    Nat.testBit_mod_two_pow, Nat.testBit_div_two_pow]
  by_cases under : i < low
  · have inside : i < low + width := by omega
    simp [under, inside, Nat.not_le.mpr under]
  · by_cases inside : i < low + width
    · simp [under, inside, Nat.le_of_not_lt under]
    · simp [inside, Nat.sub_add_cancel (Nat.le_of_not_lt inside)]

theorem toNat_clear (fits : low + width ≤ 16) :
    (w.clear low width).toNat =
      2 ^ (low + width) * (w.toNat / 2 ^ (low + width)) + (2 ^ low * 0 + w.toNat % 2 ^ low) := by
  apply Nat.eq_of_testBit_eq
  intro i
  rw [testBit_clear w fits, testBit_replaced w.toNat (Nat.two_pow_pos width)]
  by_cases inside : low ≤ i ∧ i < low + width
  · simp [inside]
  · simp [inside]

theorem toNat_fill (fits : low + width ≤ 16) :
    (w.fill low width).toNat =
      2 ^ (low + width) * (w.toNat / 2 ^ (low + width)) +
        (2 ^ low * (2 ^ width - 1) + w.toNat % 2 ^ low) := by
  apply Nat.eq_of_testBit_eq
  intro i
  rw [testBit_fill w fits,
    testBit_replaced w.toNat (Nat.sub_lt (Nat.two_pow_pos width) Nat.one_pos)]
  by_cases inside : low ≤ i ∧ i < low + width
  · have below : i - low < width := by omega
    simp [inside, below]
  · simp [inside]

end

end Word

namespace Operand

/-- Change the register number or the constant of an operand. -/
def mapFields (number : Byte → Byte) (signed : Nat → Int16 → Int16) : Operand → Operand
  | register r => register (number r)
  | immediate value => immediate (signed 5 value)

def numbers : Operand → List Byte
  | register r => [r]
  | immediate _ => []

def signedFields : Operand → List (Nat × Int16)
  | register _ => []
  | immediate value => [(5, value)]

end Operand

namespace CallTarget

/-- Change the register number or the offset of a call target. -/
def mapFields (number : Byte → Byte) (signed : Nat → Int16 → Int16) : CallTarget → CallTarget
  | offset value => offset (signed 11 value)
  | register r => register (number r)

def numbers : CallTarget → List Byte
  | offset _ => []
  | register r => [r]

def signedFields : CallTarget → List (Nat × Int16)
  | offset value => [(11, value)]
  | register _ => []

end CallTarget

namespace Instruction

/-- Change the fields of an instruction: register numbers and masks by one function, and signed
fields by another that is given their width. The operation, the forms of its operands and a trap
vector stay. -/
def mapFields (number : Byte → Byte) (signed : Nat → Int16 → Int16) : Instruction → Instruction
  | br mask offset => br (number mask) (signed 9 offset)
  | add dr sr1 operand => add (number dr) (number sr1) (operand.mapFields number signed)
  | ld dr offset => ld (number dr) (signed 9 offset)
  | st sr offset => st (number sr) (signed 9 offset)
  | jsr target => jsr (target.mapFields number signed)
  | and dr sr1 operand => and (number dr) (number sr1) (operand.mapFields number signed)
  | ldr dr base offset => ldr (number dr) (number base) (signed 6 offset)
  | str sr base offset => str (number sr) (number base) (signed 6 offset)
  | rti => rti
  | not dr sr => not (number dr) (number sr)
  | ldi dr offset => ldi (number dr) (signed 9 offset)
  | sti sr offset => sti (number sr) (signed 9 offset)
  | jmp base => jmp (number base)
  | res => res
  | lea dr offset => lea (number dr) (signed 9 offset)
  | trap vector => trap vector

/-- The register numbers and the mask of an instruction. -/
def numbers : Instruction → List Byte
  | br mask _ => [mask]
  | add dr sr1 operand | and dr sr1 operand => [dr, sr1] ++ operand.numbers
  | ld r _ | st r _ | ldi r _ | sti r _ | lea r _ => [r]
  | jsr target => target.numbers
  | ldr r base _ | str r base _ => [r, base]
  | not dr sr => [dr, sr]
  | jmp base => [base]
  | rti | res | trap _ => []

/-- The offsets and constants of an instruction, with the widths that they have in its word. -/
def signedFields : Instruction → List (Nat × Int16)
  | br _ offset | ld _ offset | st _ offset | ldi _ offset | sti _ offset | lea _ offset =>
    [(9, offset)]
  | add _ _ operand | and _ _ operand => operand.signedFields
  | jsr target => target.signedFields
  | ldr _ _ offset | str _ _ offset => [(6, offset)]
  | rti | not .. | jmp _ | res | trap _ => []

/-- The lowest three bits of a register number or mask. -/
def narrowNumber (number : Byte) : Byte := number % 8

/-- The lowest `width` bits of an offset, read in two's complement. -/
def narrowSigned (width : Nat) (value : Int16) : Int16 :=
  .ofInt (Int.bmod value.toInt (2 ^ width))

/-- An instruction with its fields cut to the widths that they have in its word. -/
def narrowed (i : Instruction) : Instruction := i.mapFields narrowNumber narrowSigned

/-- A number that `width` bits can hold in two's complement. -/
def SignedFits (width : Nat) (value : Int16) : Prop :=
  -2 ^ (width - 1) ≤ value.toInt ∧ value.toInt < 2 ^ (width - 1)

/-- An instruction whose fields are no wider than they are in its word. -/
structure Fits (i : Instruction) : Prop where
  numbers : ∀ number ∈ i.numbers, number.toNat < 8
  signed : ∀ field ∈ i.signedFields, SignedFits field.1 field.2

theorem mapFields_eq_self_iff {number : Byte → Byte} {signed : Nat → Int16 → Int16}
    (i : Instruction) :
    i.mapFields number signed = i ↔
      (∀ r ∈ i.numbers, number r = r) ∧
        ∀ field ∈ i.signedFields, signed field.1 field.2 = field.2 := by
  cases i with
  | add dr sr1 operand =>
    cases operand <;>
      simp [mapFields, numbers, signedFields, Operand.mapFields, Operand.numbers,
        Operand.signedFields, and_assoc]
  | and dr sr1 operand =>
    cases operand <;>
      simp [mapFields, numbers, signedFields, Operand.mapFields, Operand.numbers,
        Operand.signedFields, and_assoc]
  | jsr target =>
    cases target <;>
      simp [mapFields, numbers, signedFields, CallTarget.mapFields, CallTarget.numbers,
        CallTarget.signedFields]
  | _ => simp [mapFields, numbers, signedFields, and_assoc]

theorem width_of_mem_signedFields {i : Instruction} {field : Nat × Int16}
    (h : field ∈ i.signedFields) : 0 < field.1 ∧ field.1 ≤ 16 := by
  cases i with
  | add dr sr1 operand => cases operand <;> simp_all [signedFields, Operand.signedFields]
  | and dr sr1 operand => cases operand <;> simp_all [signedFields, Operand.signedFields]
  | jsr target => cases target <;> simp_all [signedFields, CallTarget.signedFields]
  | _ => simp_all [signedFields]

theorem toNat_narrowNumber (number : Byte) : (narrowNumber number).toNat = number.toNat % 8 :=
  UInt8.toNat_mod number 8

theorem narrowNumber_eq_self_iff (number : Byte) :
    narrowNumber number = number ↔ number.toNat < 8 := by
  rw [← UInt8.toNat_inj, toNat_narrowNumber]
  omega

section
variable {width : Nat}

theorem toInt_narrowSigned (high : width ≤ 16) (value : Int16) :
    (narrowSigned width value).toInt = Int.bmod value.toInt (2 ^ width) :=
  Word.toInt_ofInt_bmod value.toInt high

/-- Narrowing gives the only number of the width that is congruent to the value. -/
theorem eq_narrowSigned_iff (low : 0 < width) (high : width ≤ 16) (value narrow : Int16) :
    narrow = narrowSigned width value ↔
      SignedFits width narrow ∧ narrow.toInt ≡ value.toInt [ZMOD 2 ^ width] := by
  have double : 2 ^ width = 2 * 2 ^ (width - 1) := by
    rw [← Nat.pow_succ', Nat.succ_eq_add_one, Nat.sub_one_add_one_eq_of_pos low]
  have power : (2 : Int) ^ (width - 1) = ((2 ^ (width - 1) : Nat) : Int) := by norm_cast
  have modulus : (2 : Int) ^ width = ((2 ^ width : Nat) : Int) := by norm_cast
  rw [← Int16.toInt_inj, toInt_narrowSigned high, SignedFits, power, Int.ModEq, modulus]
  constructor
  · intro same
    have below := Int.le_bmod (x := value.toInt) (Nat.two_pow_pos width)
    have above := Int.bmod_lt (x := value.toInt) (Nat.two_pow_pos width)
    rw [same]
    exact ⟨⟨by omega, by omega⟩, Int.bmod_emod⟩
  · rintro ⟨⟨below, above⟩, congruent⟩
    have self : Int.bmod narrow.toInt (2 ^ width) = narrow.toInt :=
      Int.bmod_eq_of_le (by omega) (by omega)
    rw [← self, ← Int.emod_bmod narrow.toInt, congruent, Int.emod_bmod]

theorem narrowSigned_eq_self_iff (low : 0 < width) (high : width ≤ 16) (value : Int16) :
    narrowSigned width value = value ↔ SignedFits width value := by
  rw [eq_comm, eq_narrowSigned_iff low high]
  exact and_iff_left rfl

end

theorem narrowed_eq_self_iff (i : Instruction) : i.narrowed = i ↔ i.Fits := by
  rw [narrowed, mapFields_eq_self_iff]
  constructor
  · rintro ⟨numbers, signed⟩
    refine ⟨fun r mem => (narrowNumber_eq_self_iff r).mp (numbers r mem), ?_⟩
    intro field mem
    obtain ⟨low, high⟩ := width_of_mem_signedFields mem
    exact (narrowSigned_eq_self_iff low high _).mp (signed field mem)
  · rintro ⟨numbers, signed⟩
    refine ⟨fun r mem => (narrowNumber_eq_self_iff r).mpr (numbers r mem), ?_⟩
    intro field mem
    obtain ⟨low, high⟩ := width_of_mem_signedFields mem
    exact (narrowSigned_eq_self_iff low high _).mpr (signed field mem)

/-- A signed field of a word is read as the narrowed value that was written. -/
theorem offset_eq_narrowSigned {w : Word} {width : Nat} {value : Int16}
    (h : w.toNat % 2 ^ width = offsetField value width) :
    w.offset width = narrowSigned width value := by
  have positive : (0 : Int) < ((2 ^ width : Nat) : Int) := by exact_mod_cast Nat.two_pow_pos width
  have written : ((offsetField value width : Nat) : Int) =
      value.toInt % ((2 ^ width : Nat) : Int) :=
    Int.toNat_of_nonneg (Int.emod_nonneg _ (Int.ne_of_gt positive))
  have bits : (w.toNat : Int) % ((2 ^ width : Nat) : Int) =
      value.toInt % ((2 ^ width : Nat) : Int) := by
    rw [← written, ← h, Int.natCast_emod]
  rw [Word.offset, Word.signedField, Nat.pow_eq, narrowSigned, ← Int.emod_bmod, bits,
    Int.emod_bmod]

/-- A register number in three bits of a word is read as the narrowed number that was written. -/
theorem number_eq_narrowNumber {w : Word} {low : Nat} {number : Byte}
    (h : w.toNat / 2 ^ low % 8 = registerField number) :
    (w.field low 3).toUInt8 = narrowNumber number := by
  apply UInt8.toNat.inj
  rw [w.field_toUInt8_toNat (by decide), toNat_narrowNumber]
  exact h

theorem operand_eq {w : Word} {operand : Operand}
    (h : w.toNat % 64 = operandField operand) :
    w.operand = operand.mapFields narrowNumber narrowSigned := by
  have mode := w.bit_eq_true_iff 5
  rw [Nat.pow_eq] at mode
  cases operand with
  | register r =>
    have small := registerField_lt r
    rw [operandField] at h
    have clear : ¬ w.hasImmediate = true := mt mode.mp (by omega)
    rw [Word.operand, if_neg clear, Operand.mapFields]
    exact congrArg Operand.register (number_eq_narrowNumber (by omega))
  | immediate value =>
    have small : offsetField value 5 < 32 := offsetField_lt value 5
    rw [operandField] at h
    have set : w.hasImmediate = true := mode.mpr (by omega)
    rw [Word.operand, if_pos set, Operand.mapFields]
    exact congrArg Operand.immediate (offset_eq_narrowSigned (by omega))

theorem callTarget_eq {w : Word} {target : CallTarget}
    (h : w.toNat % 4096 = callTargetField target) :
    w.callTarget = target.mapFields narrowNumber narrowSigned := by
  have mode := w.bit_eq_true_iff 11
  rw [Nat.pow_eq] at mode
  cases target with
  | offset value =>
    have small : offsetField value 11 < 2048 := offsetField_lt value 11
    rw [callTargetField] at h
    have set : w.hasLongOffset = true := mode.mpr (by omega)
    rw [Word.callTarget, if_pos set, CallTarget.mapFields]
    exact congrArg CallTarget.offset (offset_eq_narrowSigned (by omega))
  | register r =>
    have small := registerField_lt r
    rw [callTargetField] at h
    have clear : ¬ w.hasLongOffset = true := mt mode.mp (by omega)
    rw [Word.callTarget, if_neg clear, CallTarget.mapFields]
    exact congrArg CallTarget.register (number_eq_narrowNumber (by omega))

theorem encode_toNat_mod (i : Instruction) : i.encode.toNat % 4096 = i.operandBits := by
  have value := i.encode_toNat
  have small := i.operandBits_lt
  omega

/-- The layout of a register number above an offset of nine bits. -/
theorem upperRegister_offset_eq {w : Word} {r : Byte} {v : Int16}
    (h : w.toNat % 4096 = registerField r * 512 + offsetField v 9) :
    w.upperRegister = narrowNumber r ∧ w.offset 9 = narrowSigned 9 v := by
  have number := registerField_lt r
  have small : offsetField v 9 < 512 := offsetField_lt v 9
  exact ⟨@number_eq_narrowNumber w 9 r (by omega), offset_eq_narrowSigned (by omega)⟩

/-- The layout of two register numbers above six bits. -/
theorem registers_eq {w : Word} {a b : Byte} {rest : Nat} (small : rest < 64)
    (h : w.toNat % 4096 = registerField a * 512 + registerField b * 64 + rest) :
    w.upperRegister = narrowNumber a ∧ w.middleRegister = narrowNumber b ∧
      w.toNat % 64 = rest := by
  have upper := registerField_lt a
  have middle := registerField_lt b
  exact ⟨@number_eq_narrowNumber w 9 a (by omega), @number_eq_narrowNumber w 6 b (by omega),
    by omega⟩

theorem operandField_lt (operand : Operand) : operandField operand < 64 := by
  cases operand with
  | register r => have := registerField_lt r; simp only [operandField]; omega
  | immediate v =>
    have : offsetField v 5 < 32 := offsetField_lt v 5
    simp only [operandField]
    omega

theorem trapVector_eq {w : Word} {vector : Byte} (h : w.toNat % 4096 = vector.toNat) :
    w.trapVector = vector := by
  have small := vector.toNat_lt
  apply UInt8.toNat.inj
  rw [Word.trapVector, w.field_toUInt8_toNat (Nat.le_refl 8), Word.field, Nat.pow_eq, Nat.pow_eq]
  omega

/-- Encoding and decoding narrows the fields of an instruction, and nothing else. -/
theorem decode_encode (i : Instruction) : decode i.encode = i.narrowed := by
  have op := i.ofWord_encode
  have bits := i.encode_toNat_mod
  have six : ∀ v, offsetField v 6 < 64 := fun v => offsetField_lt v 6
  cases i with
  | br mask offset =>
    obtain ⟨number, signed⟩ := upperRegister_offset_eq bits
    simp only [decode, op, opcode, narrowed, mapFields, ← number, ← signed]
    rfl
  | ld r offset | st r offset | ldi r offset | sti r offset | lea r offset =>
    obtain ⟨number, signed⟩ := upperRegister_offset_eq bits
    simp only [decode, op, opcode, narrowed, mapFields, number, signed]
  | add dr sr1 operand | and dr sr1 operand =>
    obtain ⟨upper, middle, rest⟩ := registers_eq (operandField_lt operand) bits
    simp only [decode, op, opcode, narrowed, mapFields, upper, middle, operand_eq rest]
  | ldr r base offset | str r base offset =>
    obtain ⟨upper, middle, rest⟩ := registers_eq (six offset) bits
    have signed := @offset_eq_narrowSigned _ 6 offset rest
    simp only [decode, op, opcode, narrowed, mapFields, upper, middle, signed]
  | not dr sr =>
    obtain ⟨upper, middle, -⟩ := registers_eq (by decide : 63 < 64) bits
    simp only [decode, op, opcode, narrowed, mapFields, upper, middle]
  | jsr target =>
    simp only [decode, op, opcode, narrowed, mapFields, callTarget_eq bits]
  | jmp base =>
    have small := registerField_lt base
    have field : (jmp base).encode.toNat / 64 % 8 = registerField base := by
      rw [operandBits] at bits
      omega
    have number : (jmp base).encode.middleRegister = narrowNumber base :=
      @number_eq_narrowNumber _ 6 base field
    simp only [decode, op, opcode, narrowed, mapFields, number]
  | trap vector =>
    simp only [decode, op, opcode, narrowed, mapFields, trapVector_eq bits]
  | rti | res => simp only [decode, op, opcode, narrowed, mapFields]

section
variable (w : Word)

theorem registerField_field (low : Nat) :
    registerField (w.field low 3).toUInt8 = w.toNat / 2 ^ low % 8 := by
  have small := w.field_lt low 3
  rw [registerField, w.field_toUInt8_toNat (by decide)]
  exact Nat.mod_eq_of_lt small

theorem offsetField_offset {width : Nat} (high : width ≤ 16) :
    offsetField (w.offset width) width = w.toNat % 2 ^ width := by
  rw [offsetField, Nat.pow_eq, w.toInt_offset_eq_bmod high, Int.bmod_emod, ← Int.natCast_emod]
  rfl

/-- Written with its second operand, a word loses the bits beside a register number. -/
theorem toNat_operand_canonical :
    (if w.hasImmediate then w else w.clear 3 2).toNat =
      w.toNat / 64 * 64 + operandField w.operand := by
  have mode : w.hasImmediate = true ↔ w.toNat / 32 % 2 = 1 := w.bit_eq_true_iff 5
  by_cases set : w.hasImmediate = true
  · have bit := mode.mp set
    have five : offsetField (w.offset 5) 5 = w.toNat % 32 := offsetField_offset w (by decide)
    rw [Word.operand, if_pos set, if_pos set, operandField, five]
    omega
  · have bit := mt mode.mpr set
    have lower : registerField w.lowerRegister = w.toNat / 1 % 8 := registerField_field w 0
    rw [Word.operand, if_neg set, if_neg set, operandField, lower, Word.toNat_clear w (by decide)]
    omega

/-- Written with its call target, a word loses the bits beside a register number. -/
theorem toNat_callTarget_canonical :
    (if w.hasLongOffset then w else (w.clear 9 2).clear 0 6).toNat =
      w.toNat / 4096 * 4096 + callTargetField w.callTarget := by
  have mode : w.hasLongOffset = true ↔ w.toNat / 2048 % 2 = 1 := w.bit_eq_true_iff 11
  by_cases set : w.hasLongOffset = true
  · have bit := mode.mp set
    have eleven : offsetField (w.offset 11) 11 = w.toNat % 2048 := offsetField_offset w (by decide)
    rw [Word.callTarget, if_pos set, if_pos set, callTargetField, eleven]
    omega
  · have bit := mt mode.mpr set
    have middle : registerField w.middleRegister = w.toNat / 64 % 8 := registerField_field w 6
    rw [Word.callTarget, if_neg set, if_neg set, callTargetField, middle,
      Word.toNat_clear _ (by decide), Word.toNat_clear w (by decide)]
    omega

/-- The fields that a word was cut into are no wider than they are in a word. -/
theorem narrowNumber_field (low : Nat) :
    narrowNumber (w.field low 3).toUInt8 = (w.field low 3).toUInt8 := by
  rw [narrowNumber_eq_self_iff, w.field_toUInt8_toNat (by decide)]
  exact w.field_lt low 3

theorem narrowSigned_offset {width : Nat} (high : width ≤ 16) :
    narrowSigned width (w.offset width) = w.offset width := by
  rw [← Int16.toInt_inj, toInt_narrowSigned high, w.toInt_offset_eq_bmod high, Int.bmod_bmod]

theorem narrowed_decode : (decode w).narrowed = decode w := by
  have upper : narrowNumber w.upperRegister = w.upperRegister := narrowNumber_field w 9
  have middle : narrowNumber w.middleRegister = w.middleRegister := narrowNumber_field w 6
  have lower : narrowNumber w.lowerRegister = w.lowerRegister := narrowNumber_field w 0
  have mask : narrowNumber w.conditionMask = w.conditionMask := narrowNumber_field w 9
  have five : narrowSigned 5 (w.offset 5) = w.offset 5 := narrowSigned_offset w (by decide)
  have six : narrowSigned 6 (w.offset 6) = w.offset 6 := narrowSigned_offset w (by decide)
  have nine : narrowSigned 9 (w.offset 9) = w.offset 9 := narrowSigned_offset w (by decide)
  have eleven : narrowSigned 11 (w.offset 11) = w.offset 11 := narrowSigned_offset w (by decide)
  have operand : w.operand.mapFields narrowNumber narrowSigned = w.operand := by
    rw [Word.operand]
    split
    · rw [Operand.mapFields, five]
    · rw [Operand.mapFields, lower]
  have target : w.callTarget.mapFields narrowNumber narrowSigned = w.callTarget := by
    rw [Word.callTarget]
    split
    · rw [CallTarget.mapFields, eleven]
    · rw [CallTarget.mapFields, middle]
  cases op : Opcode.ofWord w <;>
    simp only [decode, op, narrowed, mapFields, upper, middle, mask, six, nine, operand, target]

/-- Decoding a word and encoding it again puts the bits that decoding passes over to fixed
values. -/
theorem encode_decode : (decode w).encode = w.canonical := by
  have bound := w.toNat_lt
  have code := Opcode.code_ofWord w
  have upper : registerField w.upperRegister = w.toNat / 512 % 8 := registerField_field w 9
  have mask : registerField w.conditionMask = w.toNat / 512 % 8 := registerField_field w 9
  have middle : registerField w.middleRegister = w.toNat / 64 % 8 := registerField_field w 6
  have six : offsetField (w.offset 6) 6 = w.toNat % 64 := offsetField_offset w (by decide)
  have nine : offsetField (w.offset 9) 9 = w.toNat % 512 := offsetField_offset w (by decide)
  have vector : w.trapVector.toNat = w.toNat / 1 % 256 := w.field_toUInt8_toNat (Nat.le_refl 8)
  apply UInt16.toNat.inj
  rw [encode_toNat, opcode_decode, code]
  cases op : Opcode.ofWord w <;> rw [op, Opcode.code] at code <;>
    simp only [decode, Word.canonical, op, operandBits, upper, mask, middle, six, nine, vector]
  case br | ld | st | ldr | str | ldi | sti | lea => omega
  case add | and => rw [toNat_operand_canonical]; omega
  case jsr => rw [toNat_callTarget_canonical]
  case not => rw [Word.toNat_fill w (by decide)]; omega
  case jmp => rw [Word.toNat_clear _ (by decide), Word.toNat_clear w (by decide)]; omega
  case trap | rti | res => rw [Word.toNat_clear w (by decide)]; omega

theorem decode_encode_decode : decode (decode w).encode = decode w := by
  rw [decode_encode, narrowed_decode]

end

theorem decode_eq_iff (u v : Word) :
    decode u = decode v ↔ (decode u).encode = (decode v).encode := by
  constructor
  · exact congrArg encode
  · intro same
    rw [← decode_encode_decode u, same, decode_encode_decode]

/-- Instructions and words against each other, over the whole format. An instruction comes back from
its word with every field cut to its width there, as it was exactly if all fields fit. A word comes
back with the bits that decoding passes over at fixed values, as the same word for two words exactly
if they hold the same instruction. -/
theorem words_of_instructions :
    (∀ i : Instruction, decode i.encode = i.mapFields narrowNumber narrowSigned) ∧
    (∀ number, (narrowNumber number).toNat = number.toNat % 8) ∧
    (∀ width, 0 < width → width ≤ 16 → ∀ value narrow, narrow = narrowSigned width value ↔
      SignedFits width narrow ∧ narrow.toInt ≡ value.toInt [ZMOD 2 ^ width]) ∧
    (∀ i : Instruction, decode i.encode = i ↔ i.Fits) ∧
    (∀ w : Word, decode (decode w).encode = decode w ∧ (decode w).encode = w.canonical) ∧
    ∀ u v : Word, decode u = decode v ↔ (decode u).encode = (decode v).encode := by
  refine ⟨decode_encode, toNat_narrowNumber, ?_, ?_, ?_, decode_eq_iff⟩
  · intro width low high
    exact eq_narrowSigned_iff low high
  · intro i
    rw [decode_encode, narrowed_eq_self_iff]
  · intro w
    exact ⟨decode_encode_decode w, encode_decode w⟩

end Instruction

end LittleComputer
