import LittleComputer.Console.Scripted
import LittleComputer.Proofs.Step

/-!
# The machine on numbers

A second reading of an instruction word, on its bits alone: fields are quotients and
remainders of the word as a number, offsets are integers, and every sum is reduced modulo
65536. There is no decoded instruction in between. Register numbers count modulo eight and
addresses modulo 65536, so a machine is shown by two functions on numbers, and no register or
cell is lost in that (`eq_of_numbers`). A step of the machine over a word that is no service call
is a step on these numbers.
-/

namespace LittleComputer

/-- Registers, PC and cells as numbers. -/
structure NumberMachine where
  /-- R0 to R7, by number modulo eight. -/
  reg : Nat → Nat
  /-- The address of the next instruction. -/
  pc : Nat
  /-- The condition flag. -/
  cond : Flag
  /-- The cells, by address modulo 65536. -/
  mem : Nat → Nat

namespace NumberMachine

/-- An integer modulo 65536. -/
def wrap (x : Int) : Nat := (x % 65536).toNat

/-- The two's-complement value of the lowest `width` bits of a number. -/
def lowSigned (w width : Nat) : Int :=
  if w % 2 ^ width < 2 ^ (width - 1) then w % 2 ^ width else w % 2 ^ width - 2 ^ width

/-- The two's-complement sign of a word. -/
def sign (value : Nat) : Flag :=
  if lowSigned value 16 < 0 then .negative
  else if lowSigned value 16 = 0 then .zero
  else .positive

/-- The bit of a branch word that asks for a flag. -/
def askedAt : Flag → Nat
  | .negative => 11
  | .zero => 10
  | .positive => 9

/-- Write a register and set the flag from the written value. -/
def load (s : NumberMachine) (r value : Nat) : NumberMachine :=
  { s with reg := fun j => if j % 8 = r then value else s.reg j, cond := sign value }

/-- Write a cell. -/
def store (s : NumberMachine) (a value : Nat) : NumberMachine :=
  { s with mem := fun b => if b % 65536 = a then value else s.mem b }

/-- The effect of a word once PC has moved past it; a service call has none here. -/
def execute (s : NumberMachine) (w : Nat) : NumberMachine :=
  let upper := w / 512 % 8
  let middle := w / 64 % 8
  let second : Int := if w / 32 % 2 = 1 then lowSigned w 5 else s.reg (w % 8)
  let near := wrap (s.pc + lowSigned w 9)
  let based := wrap (s.reg middle + lowSigned w 6)
  match w / 4096 with
  | 0 => if w / 2 ^ askedAt s.cond % 2 = 1 then { s with pc := near } else s
  | 1 => s.load upper (wrap (s.reg middle + second))
  | 2 => s.load upper (s.mem near)
  | 3 => s.store near (s.reg upper)
  | 4 =>
    { s with
      reg := fun j => if j % 8 = 7 then s.pc else s.reg j
      pc := if w / 2048 % 2 = 1 then wrap (s.pc + lowSigned w 11) else s.reg middle }
  | 5 => s.load upper (s.reg middle &&& wrap second)
  | 6 => s.load upper (s.mem based)
  | 7 => s.store based (s.reg upper)
  | 9 => s.load upper (65535 - s.reg middle)
  | 10 => s.load upper (s.mem (s.mem near))
  | 11 => s.store (s.mem near) (s.reg upper)
  | 12 => { s with pc := s.reg middle }
  | 14 => s.load upper near
  | _ => s

/-- Fetch the word at PC, move PC past it and execute it. -/
def step (s : NumberMachine) : NumberMachine :=
  { s with pc := (s.pc + 1) % 65536 }.execute (s.mem s.pc)

theorem lowSigned_eq_bmod (w : Nat) {width : Nat} (h : 0 < width) :
    lowSigned w width = Int.bmod w (2 ^ width) := by
  have double : 2 ^ width = 2 * 2 ^ (width - 1) := by
    rw [← Nat.pow_succ', Nat.succ_eq_add_one, Nat.sub_one_add_one_eq_of_pos h]
  have half : (((2 ^ width : Nat) : Int) + 1) / 2 = ((2 ^ (width - 1) : Nat) : Int) := by omega
  rw [Int.bmod_def, half, ← Int.natCast_emod]
  simp only [lowSigned, Int.ofNat_lt]
  norm_cast

theorem sign_toNat (w : Word) : sign w.toNat = .ofWord w := by
  have bound := w.toNat_lt
  have positive : Flag.ofWord w =
      if w.toNat = 0 then .zero else if w.toNat < 32768 then .positive else .negative := by
    simp only [Flag.ofWord, UInt16.lt_iff_toNat_lt, ← UInt16.toNat_inj]
    rfl
  rw [positive, sign]
  by_cases small : w.toNat < 32768
  · have low : lowSigned w.toNat 16 = w.toNat := by simp only [lowSigned]; omega
    have nonnegative : ¬ (w.toNat : Int) < 0 := by omega
    simp [low, nonnegative, small]
  · have low : lowSigned w.toNat 16 = w.toNat - 65536 := by simp only [lowSigned]; omega
    have negative : lowSigned w.toNat 16 < 0 := by omega
    have zero : w.toNat ≠ 0 := by omega
    simp [negative, zero, small]

end NumberMachine

namespace Word

open NumberMachine

theorem toInt_offset (w : Word) {width : Nat} (low : 0 < width) (high : width ≤ 16) :
    (w.offset width).toInt = lowSigned w.toNat width := by
  rw [lowSigned_eq_bmod _ low, w.toInt_offset_eq_bmod high]

theorem toNat_toUInt16 (offset : Int16) : offset.toUInt16.toNat = wrap offset.toInt := by
  have bits : offset.toInt = offset.toUInt16.toBitVec.toInt := rfl
  have bound := offset.toUInt16.toNat_lt
  rw [bits, BitVec.toInt_eq_toNat_bmod, UInt16.toNat_toBitVec, Int.bmod_def, wrap]
  split <;> omega

theorem toNat_add_eq_wrap (a : Word) {b : Word} {x : Int} (h : b.toNat = wrap x) :
    (a + b).toNat = wrap (a.toNat + x) := by
  rw [UInt16.toNat_add, h]
  simp only [wrap]
  omega

theorem toNat_displace_offset (a w : Word) {width : Nat} (low : 0 < width) (high : width ≤ 16) :
    (a.displace (w.offset width)).toNat = wrap (a.toNat + lowSigned w.toNat width) := by
  rw [← toInt_offset w low high]
  exact toNat_add_eq_wrap a (toNat_toUInt16 _)

end Word

theorem Flag.isIn_conditionMask (flag : Flag) (w : Word) :
    flag.isIn w.conditionMask = true ↔ w.toNat / 2 ^ NumberMachine.askedAt flag % 2 = 1 := by
  have bits : w.conditionMask.toNat = w.toNat / 512 % 8 := w.field_toUInt8_toNat (by decide)
  cases flag with
  | negative => simp only [isIn, bits, Flag.bits, NumberMachine.askedAt, beq_iff_eq]; omega
  | zero => simp only [isIn, bits, Flag.bits, NumberMachine.askedAt, beq_iff_eq]; omega
  | positive => simp only [isIn, bits, Flag.bits, NumberMachine.askedAt, beq_iff_eq]; omega

namespace Machine

open NumberMachine

/-- The registers and cells of a machine as numbers. -/
def numbers (m : Machine) : NumberMachine where
  reg j := (m.regs.get j.toUInt8).toNat
  pc := m.regs.pc.toNat
  cond := m.regs.cond
  mem a := (m.mem.read a.toUInt16).toNat

/-- The numbers of a full machine are all of its registers and cells. -/
theorem eq_of_numbers {m m' : Machine} (full : m.mem.cells.size = Memory.size)
    (full' : m'.mem.cells.size = Memory.size) (h : m.numbers = m'.numbers) :
    m.regs = m'.regs ∧ m.mem = m'.mem := by
  constructor
  · apply Registers.ext_get
    · intro number
      have here := congrFun (congrArg NumberMachine.reg h) number.toNat
      apply UInt16.toNat.inj
      simpa [numbers] using here
    · exact UInt16.toNat.inj (congrArg NumberMachine.pc h)
    · exact congrArg NumberMachine.cond h
  · apply Memory.ext_read full full'
    intro address
    have here := congrFun (congrArg NumberMachine.mem h) address.toNat
    apply UInt16.toNat.inj
    simpa [numbers] using here

section
variable (m : Machine) (w : Word)

@[simp] theorem reg_upper :
    m.numbers.reg (w.toNat / 512 % 8) = (m.regs.get w.upperRegister).toNat := rfl

@[simp] theorem reg_middle :
    m.numbers.reg (w.toNat / 64 % 8) = (m.regs.get w.middleRegister).toNat := rfl

@[simp] theorem mem_numbers (address : Word) :
    m.numbers.mem address.toNat = (m.mem.read address).toNat := by
  simp [numbers]

@[simp] theorem numbers_jump (address : Word) :
    (m.jump address).numbers = { m.numbers with pc := address.toNat } := rfl

theorem toNat_operandValue :
    (m.operandValue w.operand).toNat =
      wrap (if w.toNat / 32 % 2 = 1 then lowSigned w.toNat 5 else m.numbers.reg (w.toNat % 8)) := by
  have immediate := w.bit_eq_true_iff 5
  by_cases h : w.toNat / 32 % 2 = 1
  · rw [Word.operand, Word.hasImmediate, if_pos (immediate.mpr h), if_pos h, operandValue,
      Word.toNat_toUInt16, Word.toInt_offset w (by decide) (by decide)]
  · have bound := (m.regs.get w.lowerRegister).toNat_lt
    have shown : m.numbers.reg (w.toNat % 8) = (m.regs.get w.lowerRegister).toNat := by
      simp [numbers, Word.lowerRegister, Word.field]
    rw [Word.operand, Word.hasImmediate, if_neg (mt immediate.mp h), if_neg h, operandValue,
      shown, wrap]
    omega

theorem numbers_advance :
    m.advance.numbers = { m.numbers with pc := (m.numbers.pc + 1) % 65536 } := by
  have moved : (m.regs.pc + 1).toNat = (m.regs.pc.toNat + 1) % 65536 := UInt16.toNat_add _ _
  simp only [numbers, ← moved]
  rfl

theorem numbers_assign {r : Nat} (h : r < 8) (value : Word) :
    (m.assign r.toUInt8 value).numbers = m.numbers.load r value.toNat := by
  have shown : ∀ j, ((m.assign r.toUInt8 value).regs.get j.toUInt8).toNat =
      if j % 8 = r then value.toNat else m.numbers.reg j := by
    intro j
    have left : r.toUInt8.toNat % 8 = r := by simp; omega
    have right : j.toUInt8.toNat % 8 = j % 8 := by simp
    rw [assign, Registers.get_assign, left, right]
    by_cases same : j % 8 = r
    · simp [same]
    · simp [same, Ne.symm same, numbers]
  simp only [NumberMachine.load, sign_toNat, ← shown]
  simp [numbers, assign]

theorem numbers_store (full : m.mem.cells.size = Memory.size) (address value : Word) :
    (m.store address value).numbers = m.numbers.store address.toNat value.toNat := by
  have shown : ∀ b, ((m.store address value).mem.read b.toUInt16).toNat =
      if b % 65536 = address.toNat then value.toNat else m.numbers.mem b := by
    intro b
    have cell : b.toUInt16.toNat = b % 65536 := rfl
    rw [store, Memory.read_write _ _ _ _ full]
    by_cases same : b % 65536 = address.toNat
    · have hit : address = b.toUInt16 := by rw [← UInt16.toNat_inj, cell, same]
      rw [if_pos hit, if_pos same]
    · have miss : address ≠ b.toUInt16 := by
        intro hit
        exact same (by rw [hit, cell])
      rw [if_neg miss, if_neg same]
      rfl
  simp only [NumberMachine.store, ← shown]
  rfl

theorem toNat_targetAddress :
    (m.targetAddress w.callTarget).toNat =
      if w.toNat / 2048 % 2 = 1 then wrap (m.numbers.pc + lowSigned w.toNat 11)
      else m.numbers.reg (w.toNat / 64 % 8) := by
  have long := w.bit_eq_true_iff 11
  by_cases h : w.toNat / 2048 % 2 = 1
  · rw [Word.callTarget, Word.hasLongOffset, if_pos (long.mpr h), if_pos h, targetAddress,
      Registers.pcRelative, Word.toNat_displace_offset _ _ (by decide) (by decide)]
    rfl
  · rw [Word.callTarget, Word.hasLongOffset, if_neg (mt long.mp h), if_neg h, targetAddress,
      reg_middle]

theorem numbers_link (address : Word) :
    { m with regs := (m.regs.set 7 m.regs.pc).jump address : Machine }.numbers =
      { m.numbers with
        reg := fun j => if j % 8 = 7 then m.numbers.pc else m.numbers.reg j
        pc := address.toNat } := by
  have shown : ∀ j, (((m.regs.set 7 m.regs.pc).jump address).get j.toUInt8).toNat =
      if j % 8 = 7 then m.numbers.pc else m.numbers.reg j := by
    intro j
    have right : j.toUInt8.toNat % 8 = j % 8 := by simp
    rw [Registers.get_jump, Registers.get_set, right]
    by_cases same : j % 8 = 7
    · simp [same, numbers]
    · simp [same, Ne.symm same, numbers]
  simp only [← shown]
  rfl

/-- Every plain operation moves the numbers as the bits of its word say. -/
theorem numbers_operate (full : m.mem.cells.size = Memory.size) :
    (m.operate (Instruction.decode w)).numbers = m.numbers.execute w.toNat := by
  have upper : w.toNat / 512 % 8 < 8 := Nat.mod_lt _ (by decide)
  have near : (m.regs.pcRelative (w.offset 9)).toNat =
      wrap (m.numbers.pc + lowSigned w.toNat 9) :=
    Word.toNat_displace_offset m.regs.pc w (by decide) (by decide)
  have based : ((m.regs.get w.middleRegister).displace (w.offset 6)).toNat =
      wrap ((m.regs.get w.middleRegister).toNat + lowSigned w.toNat 6) :=
    Word.toNat_displace_offset _ w (by decide) (by decide)
  have code := Opcode.code_ofWord w
  cases op : Opcode.ofWord w <;> rw [op] at code <;>
    simp only [Instruction.decode, op, operate, NumberMachine.execute, ← code, Opcode.code,
      reg_upper, reg_middle]
  case br =>
    have asked := Flag.isIn_conditionMask m.regs.cond w
    by_cases taken : m.regs.cond.isIn w.conditionMask = true
    · have bit : w.toNat / 2 ^ askedAt m.numbers.cond % 2 = 1 := asked.mp taken
      simp [taken, bit, near]
    · have bit : ¬ w.toNat / 2 ^ askedAt m.numbers.cond % 2 = 1 := mt asked.mpr taken
      rw [if_neg taken, if_neg bit]
  case add =>
    rw [← Word.toNat_add_eq_wrap _ (m.toNat_operandValue w)]
    exact m.numbers_assign upper _
  case and =>
    rw [← toNat_operandValue, ← UInt16.toNat_and]
    exact m.numbers_assign upper _
  case not =>
    refine (m.numbers_assign upper _).trans ?_
    rw [UInt16.toNat_not]
    rfl
  case ld =>
    rw [← near, mem_numbers]
    exact m.numbers_assign upper _
  case ldi =>
    rw [← near, mem_numbers, mem_numbers]
    exact m.numbers_assign upper _
  case ldr =>
    rw [← based, mem_numbers]
    exact m.numbers_assign upper _
  case lea =>
    rw [← near]
    exact m.numbers_assign upper _
  case st =>
    rw [← near]
    exact m.numbers_store full _ _
  case sti =>
    rw [← near, mem_numbers]
    exact m.numbers_store full _ _
  case str =>
    rw [← based]
    exact m.numbers_store full _ _
  case jmp => rw [numbers_jump]
  case jsr => rw [numbers_link, toNat_targetAddress, reg_middle]

end

theorem size_operate (m : Machine) (i : Instruction) :
    (m.operate i).mem.cells.size = m.mem.cells.size := by
  cases i with
  | st sr offset => exact Memory.size_write _ _ _
  | sti sr offset => exact Memory.size_write _ _ _
  | str sr base offset => exact Memory.size_write _ _ _
  | br mask offset =>
    simp only [operate]
    split <;> rfl
  | _ => rfl

/-- A step over a word that is no service call finishes without a console call and moves the
numbers of the machine as the bits of the word say. -/
theorem step_on_numbers {σ : Type} (console : Console σ) (state : σ) (m : Machine)
    (full : m.mem.cells.size = Memory.size) (running : m.state = .running)
    (room : m.cycles.toNat < 2 ^ 64 - 1) (plain : m.nextWord.toNat / 4096 ≠ 15) :
    ∃ after : Machine,
      m.step.interp console.handler state = ((.ok (.decode m.nextWord), after), state) ∧
      m.step.calls console.handler state = [] ∧
      after.state = .running ∧
      after.cycles.toNat = m.cycles.toNat + 1 ∧
      after.mem.cells.size = Memory.size ∧
      after.numbers = m.numbers.step := by
  have silent : m.nextInstruction.routine? = none := by
    apply Instruction.routine?_of_ne_trap
    intro h
    apply plain
    rw [← Opcode.code_ofWord, ← Instruction.opcode_decode]
    exact congrArg Opcode.code h
  obtain ⟨value, quiet⟩ := step_of_silent console state running silent
  have plainly : (m.finished none).numbers = (m.advance.operate m.nextInstruction).numbers := by
    rw [finished, entered_of_silent silent]
    rfl
  have fetched : m.numbers.mem m.numbers.pc = m.nextWord.toNat := m.mem_numbers m.regs.pc
  refine ⟨m.finished none, value, quiet, ?_, toNat_cycles_finished m none room, ?_, ?_⟩
  · rw [state_finished, entered_of_silent silent]
    exact running
  · rw [finished, entered_of_silent silent]
    exact (size_operate _ _).trans full
  · rw [plainly, nextInstruction, m.advance.numbers_operate m.nextWord full, numbers_advance,
      NumberMachine.step, fetched]

/-- LEA in the last cell: its base is address zero, and the offset leads back to the cell. -/
theorem step_on_numbers_of_lea :
    ∃ after : Machine,
      (about 0xFFFF 0xE1FF).step.interp ScriptedConsole.console.handler (.ofInput []) =
        ((.ok (.lea 0 (-1)), after), .ofInput []) ∧
      after.numbers.reg 0 = 0xFFFF ∧ after.numbers.pc = 0 ∧ after.numbers.cond = .negative := by
  have word := nextWord_about 0xFFFF 0xE1FF
  obtain ⟨after, value, -, -, -, -, moved⟩ :=
    step_on_numbers ScriptedConsole.console (.ofInput []) (about 0xFFFF 0xE1FF)
      (size_about _ _) rfl (Nat.zero_lt_succ _) (by rw [word]; decide)
  have fetched : (about 0xFFFF 0xE1FF).numbers.mem (about 0xFFFF 0xE1FF).numbers.pc = 0xE1FF :=
    (mem_numbers _ _).trans (congrArg UInt16.toNat word)
  rw [NumberMachine.step, fetched] at moved
  have read : Instruction.decode 0xE1FF = .lea 0 (-1) := by decide +kernel
  rw [word, read] at value
  refine ⟨after, value, ?_⟩
  rw [moved]
  exact ⟨rfl, rfl, rfl⟩

end Machine

end LittleComputer
