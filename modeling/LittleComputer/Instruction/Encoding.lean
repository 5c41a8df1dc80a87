import LittleComputer.Instruction.Basic

/-!
# Instruction words

The layout of instructions in sixteen bits. Bits 15 to 12 hold the operation code and the
other twelve its fields. Every word decodes to an instruction. Encoding keeps the lowest
bits of a field that is too wide, and writes fixed values where decoding does not look.
-/

namespace LittleComputer

/-- The operation named by bits 15 to 12 of a word. -/
def Opcode.ofWord (w : Word) : Opcode := .ofCode (w.field 12 4)

/-- An operation code in bits 15 to 12 of a word that is otherwise zero. -/
def Opcode.word (op : Opcode) : Word := (op.code * 4096).toUInt16

namespace Word

/-- The register number in bits 11 to 9. -/
@[inline] def upperRegister (w : Word) : Byte := (w.field 9 3).toUInt8

/-- The register number in bits 8 to 6. -/
@[inline] def middleRegister (w : Word) : Byte := (w.field 6 3).toUInt8

/-- The register number in bits 2 to 0. -/
@[inline] def lowerRegister (w : Word) : Byte := (w.field 0 3).toUInt8

/-- The branch mask in bits 11 to 9: n, z, p from the highest bit down. -/
@[inline] def conditionMask (w : Word) : Byte := (w.field 9 3).toUInt8

/-- The trap vector in bits 7 to 0. -/
@[inline] def trapVector (w : Word) : Byte := (w.field 0 8).toUInt8

/-- The signed offset or constant in the lowest `width` bits. -/
@[inline] def offset (w : Word) (width : Nat) : Int16 := Int16.ofInt (w.signedField width)

/-- Bit 5 chooses a constant as the second operand of ADD and AND. -/
@[inline] def hasImmediate (w : Word) : Bool := w.bit 5

/-- Bit 11 chooses the offset form of a subroutine call. -/
@[inline] def hasLongOffset (w : Word) : Bool := w.bit 11

def operand (w : Word) : Operand :=
  if w.hasImmediate then .immediate (w.offset 5) else .register w.lowerRegister

def callTarget (w : Word) : CallTarget :=
  if w.hasLongOffset then .offset (w.offset 11) else .register w.middleRegister

end Word

namespace Instruction

/-- The instruction held by a word. -/
def decode (w : Word) : Instruction :=
  match Opcode.ofWord w with
  | .br => .br w.conditionMask (w.offset 9)
  | .add => .add w.upperRegister w.middleRegister w.operand
  | .ld => .ld w.upperRegister (w.offset 9)
  | .st => .st w.upperRegister (w.offset 9)
  | .jsr => .jsr w.callTarget
  | .and => .and w.upperRegister w.middleRegister w.operand
  | .ldr => .ldr w.upperRegister w.middleRegister (w.offset 6)
  | .str => .str w.upperRegister w.middleRegister (w.offset 6)
  | .rti => .rti
  | .not => .not w.upperRegister w.middleRegister
  | .ldi => .ldi w.upperRegister (w.offset 9)
  | .sti => .sti w.upperRegister (w.offset 9)
  | .jmp => .jmp w.middleRegister
  | .res => .res
  | .lea => .lea w.upperRegister (w.offset 9)
  | .trap => .trap w.trapVector

/-- A register number or mask as a field of three bits. -/
def registerField (number : Byte) : Nat := number.toNat % 8

/-- An offset or constant as a two's-complement field of `width` bits. -/
def offsetField (value : Int16) (width : Nat) : Nat := (value.toInt % Nat.pow 2 width).toNat

/-- The second operand of ADD and AND as bits 5 to 0. -/
def operandField : Operand → Nat
  | .register number => registerField number
  | .immediate value => 32 + offsetField value 5

/-- The target of a subroutine call as bits 11 to 0. -/
def callTargetField : CallTarget → Nat
  | .offset value => 2048 + offsetField value 11
  | .register number => registerField number * 64

/-- Bits 11 to 0 of the word of an instruction. -/
def operandBits : Instruction → Nat
  | br mask offset => registerField mask * 512 + offsetField offset 9
  | add dr sr1 operand | and dr sr1 operand =>
    registerField dr * 512 + registerField sr1 * 64 + operandField operand
  | ld r offset | st r offset | ldi r offset | sti r offset | lea r offset =>
    registerField r * 512 + offsetField offset 9
  | jsr target => callTargetField target
  | ldr r base offset | str r base offset =>
    registerField r * 512 + registerField base * 64 + offsetField offset 6
  | not dr sr => registerField dr * 512 + registerField sr * 64 + 63
  | jmp base => registerField base * 64
  | trap vector => vector.toNat
  | rti | res => 0

/-- The word of an instruction. -/
def encode (i : Instruction) : Word := (i.opcode.code * 4096 + i.operandBits).toUInt16

theorem registerField_lt (number : Byte) : registerField number < 8 :=
  Nat.mod_lt _ (by decide)

theorem offsetField_lt (value : Int16) (width : Nat) :
    offsetField value width < Nat.pow 2 width := by
  have pos : (0 : Int) < Nat.pow 2 width := Int.natCast_pos.mpr (Nat.two_pow_pos width)
  have low := Int.emod_nonneg value.toInt (Int.ne_of_gt pos)
  have high := Int.emod_lt_of_pos value.toInt pos
  simp only [offsetField]
  omega

theorem operandBits_lt (i : Instruction) : i.operandBits < 4096 := by
  have reg := registerField_lt
  have five : ∀ v, offsetField v 5 < 32 := fun v => offsetField_lt v 5
  have six : ∀ v, offsetField v 6 < 64 := fun v => offsetField_lt v 6
  have nine : ∀ v, offsetField v 9 < 512 := fun v => offsetField_lt v 9
  have eleven : ∀ v, offsetField v 11 < 2048 := fun v => offsetField_lt v 11
  cases i with
  | br mask offset => have := reg mask; have := nine offset; simp only [operandBits]; omega
  | add dr sr1 operand =>
    have := reg dr; have := reg sr1
    cases operand with
    | register r => have := reg r; simp only [operandBits, operandField]; omega
    | immediate v => have := five v; simp only [operandBits, operandField]; omega
  | and dr sr1 operand =>
    have := reg dr; have := reg sr1
    cases operand with
    | register r => have := reg r; simp only [operandBits, operandField]; omega
    | immediate v => have := five v; simp only [operandBits, operandField]; omega
  | ld r offset => have := reg r; have := nine offset; simp only [operandBits]; omega
  | st r offset => have := reg r; have := nine offset; simp only [operandBits]; omega
  | ldi r offset => have := reg r; have := nine offset; simp only [operandBits]; omega
  | sti r offset => have := reg r; have := nine offset; simp only [operandBits]; omega
  | lea r offset => have := reg r; have := nine offset; simp only [operandBits]; omega
  | jsr target =>
    cases target with
    | offset v => have := eleven v; simp only [operandBits, callTargetField]; omega
    | register r => have := reg r; simp only [operandBits, callTargetField]; omega
  | ldr r base offset =>
    have := reg r; have := reg base; have := six offset; simp only [operandBits]; omega
  | str r base offset =>
    have := reg r; have := reg base; have := six offset; simp only [operandBits]; omega
  | not dr sr => have := reg dr; have := reg sr; simp only [operandBits]; omega
  | jmp base => have := reg base; simp only [operandBits]; omega
  | trap vector => have := vector.toNat_lt; simp only [operandBits]; omega
  | rti => decide
  | res => decide

theorem encode_toNat (i : Instruction) :
    i.encode.toNat = i.opcode.code * 4096 + i.operandBits := by
  have op := i.opcode.code_lt
  have rest := i.operandBits_lt
  simp only [encode, Nat.toUInt16, UInt16.toNat_ofNat']
  omega

@[simp] theorem ofWord_encode (i : Instruction) : Opcode.ofWord i.encode = i.opcode := by
  have rest := i.operandBits_lt
  have op := i.opcode.code_lt
  have code : i.encode.field 12 4 = i.opcode.code := by
    simp only [Word.field, Nat.pow_eq, encode_toNat]
    omega
  simp [Opcode.ofWord, code]

end Instruction

end LittleComputer
