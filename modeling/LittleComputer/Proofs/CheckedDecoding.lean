import LittleComputer.Machine.Checked
import LittleComputer.Proofs.InstructionWord
import LittleComputer.Proofs.NumberMachine

/-!
# Decoding with checks

Taking a word apart by shifts and masks never shifts by the width of a word or more and never
subtracts below zero, and it gives the fields that division and remainder give.
-/

namespace LittleComputer

namespace Word

open NumberMachine (lowSigned lowSigned_eq_bmod wrap)

section
variable (w : Word) {amount low width : Nat}

theorem shiftRight?_eq (inside : amount < 16) :
    w.shiftRight? amount = some (w >>> amount.toUInt16) := if_pos inside

theorem shiftLeft?_eq (inside : amount < 16) :
    w.shiftLeft? amount = some (w <<< amount.toUInt16) := if_pos inside

theorem toNat_amount (inside : amount < 16) : amount.toUInt16.toNat % 16 = amount := by
  have small : amount.toUInt16.toNat = amount :=
    UInt16.toNat_ofNat_of_lt' (Nat.lt_trans inside (by decide))
  rw [small, Nat.mod_eq_of_lt inside]

theorem toNat_shiftRight (inside : amount < 16) :
    (w >>> amount.toUInt16).toNat = w.toNat / 2 ^ amount := by
  rw [UInt16.toNat_shiftRight, toNat_amount inside, Nat.shiftRight_eq_div_pow]

theorem toNat_shiftLeft (inside : amount < 16) :
    (w <<< amount.toUInt16).toNat = w.toNat * 2 ^ amount % 2 ^ 16 := by
  rw [UInt16.toNat_shiftLeft, toNat_amount inside, Nat.shiftLeft_eq]

theorem toNat_and_ones (width : Nat) {mask : Word} (ones : mask.toNat = 2 ^ width - 1) :
    (w &&& mask).toNat = w.toNat % 2 ^ width := by
  rw [UInt16.toNat_and, ones, Nat.and_two_pow_sub_one_eq_mod]

theorem number?_eq (inside : low < 16) : w.number? low = some (w.field low 3).toUInt8 := by
  have same : ((w >>> low.toUInt16) &&& 7).toUInt8 = (w.field low 3).toUInt8 := by
    apply UInt8.toNat.inj
    rw [UInt16.toNat_toUInt8, toNat_and_ones _ 3 rfl, toNat_shiftRight w inside]
    rfl
  rw [number?, shiftRight?_eq w inside]
  exact congrArg some same

theorem bit?_eq (inside : low < 16) : w.bit? low = some (w.bit low) := by
  have same : ((w >>> low.toUInt16) &&& 1 == 1) = w.bit low := by
    rw [Bool.eq_iff_iff, beq_iff_eq, bit_eq_true_iff, ← UInt16.toNat_inj,
      toNat_and_ones _ 1 rfl, toNat_shiftRight w inside]
    rfl
  rw [bit?, shiftRight?_eq w inside]
  exact congrArg some same

theorem exists_lowBits (high : width < 16) :
    ∃ mask, lowBits? width = some mask ∧ mask.toNat = 2 ^ width - 1 := by
  have wide : 2 ^ width < 2 ^ 16 := Nat.pow_lt_pow_right (by decide) high
  have top : ((1 : Word) <<< width.toUInt16).toNat = 2 ^ width := by
    rw [toNat_shiftLeft 1 high, show (1 : Word).toNat = 1 from rfl, Nat.one_mul,
      Nat.mod_eq_of_lt wide]
  have le : (1 : Word) ≤ (1 : Word) <<< width.toUInt16 := by
    rw [UInt16.le_iff_toNat_le, top]
    exact Nat.one_le_two_pow
  refine ⟨(1 : Word) <<< width.toUInt16 - 1, ?_, ?_⟩
  · rw [lowBits?, shiftLeft?_eq 1 high]
    exact if_pos le
  · rw [UInt16.toNat_sub_of_le _ _ le, top]
    rfl

/-- The bits above a field, set. -/
theorem toNat_or_above {field : Word} (below : field.toNat < 2 ^ width) (high : width < 16) :
    (field ||| 0xFFFF <<< width.toUInt16).toNat = field.toNat + (2 ^ 16 - 2 ^ width) := by
  have parts : 2 ^ width * 2 ^ (16 - width) = 2 ^ 16 := by
    rw [← Nat.pow_add, Nat.add_sub_cancel' (Nat.le_of_lt high)]
  have above : ((0xFFFF : Word) <<< width.toUInt16).toNat = 2 ^ width * (2 ^ (16 - width) - 1) := by
    have wide : 2 ^ width < 2 ^ 16 := Nat.pow_lt_pow_right (by decide) high
    have positive := Nat.two_pow_pos width
    rw [toNat_shiftLeft _ high, show (0xFFFF : Word).toNat = 2 ^ 16 - 1 from rfl, Nat.mul_sub,
      parts, Nat.sub_mul]
    omega
  rw [UInt16.toNat_or, above, Nat.or_comm, ← Nat.two_pow_add_eq_or_of_lt below, Nat.mul_sub, parts]
  omega

theorem toNat_ofInt (x : Int) : (UInt16.ofInt x).toNat = wrap x := by
  have small : (x % 65536).toNat < 65536 := by omega
  exact Nat.mod_eq_of_lt small

theorem toNat_signExtend (positive : 0 < width) :
    (w.signExtend width).toNat = wrap (lowSigned w.toNat width) := by
  rw [signExtend, toNat_ofInt, lowSigned_eq_bmod _ positive]
  rfl

/-- Widening by masks gives the word of the same signed value. -/
theorem signExtend?_eq (positive : 0 < width) (high : width < 16) :
    w.signExtend? width = some (w.signExtend width) := by
  obtain ⟨mask, made, ones⟩ := exists_lowBits high
  have field := w.toNat_and_ones width ones
  have below : (w &&& mask).toNat < 2 ^ width := by
    rw [field]
    exact Nat.mod_lt _ (Nat.two_pow_pos width)
  have double : 2 ^ width = 2 * 2 ^ (width - 1) := by
    rw [← Nat.pow_succ', Nat.succ_eq_add_one, Nat.sub_one_add_one_eq_of_pos positive]
  have wide : 2 ^ width < 2 ^ 16 := Nat.pow_lt_pow_right (by decide) high
  have inside : width - 1 < 16 := by omega
  have sign : ((w &&& mask) >>> (width - 1).toUInt16) &&& 1 = 1 ↔
      2 ^ (width - 1) ≤ w.toNat % 2 ^ width := by
    rw [← UInt16.toNat_inj, toNat_and_ones _ 1 rfl, toNat_shiftRight _ inside, field,
      show (1 : Word).toNat = 1 from rfl]
    have half : w.toNat % 2 ^ width / 2 ^ (width - 1) < 2 :=
      Nat.div_lt_of_lt_mul (by omega)
    rw [Nat.pow_one, Nat.mod_eq_of_lt half, ← Nat.one_le_div_iff (Nat.two_pow_pos _)]
    omega
  have extended : (w.signExtend width).toNat =
      wrap (if w.toNat % 2 ^ width < 2 ^ (width - 1) then ((w.toNat % 2 ^ width : Nat) : Int)
        else ((w.toNat % 2 ^ width : Nat) : Int) - ((2 ^ width : Nat) : Int)) := by
    rw [toNat_signExtend w positive, lowSigned]
    norm_cast
  have last : Checked.difference? width 1 = some (width - 1) := if_pos positive
  simp only [signExtend?, if_pos (And.intro positive high), made, last, shiftRight?_eq _ inside,
    shiftLeft?_eq _ high, Option.bind_eq_bind, Option.bind_some, Option.pure_def, sign]
  by_cases negative : 2 ^ (width - 1) ≤ w.toNat % 2 ^ width
  · rw [if_pos negative]
    refine congrArg some (UInt16.toNat.inj ?_)
    rw [toNat_or_above below high, field, extended, if_neg (Nat.not_lt.mpr negative)]
    simp only [wrap]
    omega
  · rw [if_neg negative]
    refine congrArg some (UInt16.toNat.inj ?_)
    rw [field, extended, if_pos (Nat.not_le.mp negative)]
    simp only [wrap]
    omega

theorem toInt16_signExtend (positive : 0 < width) (high : width ≤ 16) :
    (w.signExtend width).toInt16 = w.offset width := by
  have same : w.signExtend width = (w.offset width).toUInt16 := by
    apply UInt16.toNat.inj
    rw [toNat_signExtend w positive, toNat_toUInt16 (w.offset width), toInt_offset w positive high]
  rw [same, Int16.toInt16_toUInt16]

theorem offset?_eq (positive : 0 < width) (high : width < 16) :
    w.offset? width = some (w.offset width) := by
  rw [offset?, signExtend?_eq w positive high]
  exact congrArg some (toInt16_signExtend w positive (Nat.le_of_lt high))

theorem lowerRegister_eq : (w &&& 7).toUInt8 = w.lowerRegister := by
  apply UInt8.toNat.inj
  rw [UInt16.toNat_toUInt8, toNat_and_ones _ 3 rfl]
  simp [lowerRegister, field]

theorem operand?_eq : w.operand? = some w.operand := by
  have immediate : w.bit? 5 = some w.hasImmediate := w.bit?_eq (by decide)
  have offset : w.offset? 5 = some (w.offset 5) := w.offset?_eq (by decide) (by decide)
  simp only [operand?, immediate, offset, lowerRegister_eq, Option.bind_eq_bind, Option.bind_some,
    Option.pure_def, operand]
  split
  · rfl
  · rfl

theorem callTarget?_eq : w.callTarget? = some w.callTarget := by
  have long : w.bit? 11 = some w.hasLongOffset := w.bit?_eq (by decide)
  have offset : w.offset? 11 = some (w.offset 11) := w.offset?_eq (by decide) (by decide)
  have base : w.number? 6 = some w.middleRegister := w.number?_eq (by decide)
  simp only [callTarget?, long, offset, base, Option.bind_eq_bind, Option.bind_some,
    Option.pure_def, callTarget]
  split
  · rfl
  · rfl

end

end Word

theorem Opcode.ofWord?_eq (w : Word) : ofWord? w = some (ofWord w) := by
  have inside : 12 < 16 := by decide
  have same : (w >>> (12 : Nat).toUInt16).toNat = w.field 12 4 := by
    have bound := w.toNat_lt
    rw [Word.toNat_shiftRight w inside]
    simp only [Word.field, Nat.pow_eq]
    omega
  rw [ofWord?, w.shiftRight?_eq inside]
  exact congrArg (fun code => some (ofCode code)) same

/-- Decoding with checks gives the instruction of every word. -/
theorem Instruction.decode?_eq (w : Word) : decode? w = some (decode w) := by
  have upper : w.number? 9 = some w.upperRegister := w.number?_eq (by decide)
  have middle : w.number? 6 = some w.middleRegister := w.number?_eq (by decide)
  have near : w.offset? 9 = some (w.offset 9) := w.offset?_eq (by decide) (by decide)
  have short : w.offset? 6 = some (w.offset 6) := w.offset?_eq (by decide) (by decide)
  have vector : (w &&& 0xFF).toUInt8 = w.trapVector := by
    apply UInt8.toNat.inj
    rw [UInt16.toNat_toUInt8, Word.toNat_and_ones _ 8 rfl]
    simp [Word.trapVector, Word.field]
  simp only [decode?, decode, Opcode.ofWord?_eq, upper, middle, near, short, vector,
    Word.operand?_eq, Word.callTarget?_eq, Option.bind_eq_bind, Option.bind_some, Option.pure_def]
  cases Opcode.ofWord w <;> rfl

theorem Flag.ofWord?_eq (w : Word) : ofWord? w = some (ofWord w) := by
  have inside : 15 < 16 := by decide
  have bound := w.toNat_lt
  have sign : w >>> (15 : Nat).toUInt16 = 1 ↔ ¬ w < 0x8000 := by
    rw [← UInt16.toNat_inj, Word.toNat_shiftRight w inside, UInt16.lt_iff_toNat_lt]
    have one : (1 : Word).toNat = 1 := rfl
    have half : (0x8000 : Word).toNat = 32768 := rfl
    omega
  simp only [ofWord?, ofWord, w.shiftRight?_eq inside, sign, ite_not, Option.bind_eq_bind,
    Option.bind_some, Option.pure_def]
  split
  · rfl
  · rfl

end LittleComputer
