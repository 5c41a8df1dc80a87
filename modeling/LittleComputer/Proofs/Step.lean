import Mathlib
import LittleComputer.Machine.Run
import LittleComputer.Proofs.Transcript

/-!
# What a step can do

A step notes the instruction it fetched, executes it and counts it. Only an instruction with a
service routine talks to the console. If the console refuses a call, the step ends there, and
the machine is the one that entered the instruction: PC has moved on, and HALT has stopped it.
Otherwise the machine is changed by the plain operation of the instruction, and by a word for
R0 after GETC and IN.
-/

namespace LittleComputer

open Dialogue (Careful)

/-- Whether a routine puts a character into R0. -/
def Service.reads : Service → Bool
  | .getc | .input => true
  | .out | .puts | .putsp | .halt => false

namespace Word

/-- Two's-complement numbers of at most sixteen bits are signed words. -/
theorem toInt_ofInt_bmod (x : Int) {width : Nat} (high : width ≤ 16) :
    (Int16.ofInt (Int.bmod x (2 ^ width))).toInt = Int.bmod x (2 ^ width) := by
  have wide : 2 ^ width ≤ 2 ^ 16 := Nat.pow_le_pow_right (by decide) high
  have below := Int.le_bmod (x := x) (Nat.two_pow_pos width)
  have above := Int.bmod_lt (x := x) (Nat.two_pow_pos width)
  exact Int16.toInt_ofInt_of_le (by omega) (by omega)

theorem toInt_offset_eq_bmod (w : Word) {width : Nat} (high : width ≤ 16) :
    (w.offset width).toInt = Int.bmod w.toNat (2 ^ width) := toInt_ofInt_bmod w.toNat high

end Word

theorem Opcode.code_ofWord (w : Word) : (ofWord w).code = w.toNat / 4096 := by
  have bound := w.toNat_lt
  rw [ofWord, code_ofCode (w.field_lt 12 4), Word.field, Nat.pow_eq, Nat.pow_eq]
  omega

namespace Instruction

/-- The service routine that an instruction calls. -/
def routine? : Instruction → Option Service
  | .trap vector => Service.ofVector? vector
  | _ => none

/-- Whether an instruction puts a character into R0. -/
def reads (i : Instruction) : Bool := i.routine?.any Service.reads

theorem opcode_decode (w : Word) : (decode w).opcode = Opcode.ofWord w := by
  cases op : Opcode.ofWord w <;> simp [decode, op, opcode]

theorem decode_of_code {w : Word} {vector : Byte} (code : w.toNat / 4096 = 15)
    (low : w.toNat % 256 = vector.toNat) : decode w = .trap vector := by
  have op : Opcode.ofWord w = .trap := by
    rw [← Opcode.ofCode_code (.ofWord w), Opcode.code_ofWord, code]
    rfl
  have field : w.trapVector = vector := by
    apply UInt8.toNat.inj
    rw [← low, Word.trapVector, w.field_toUInt8_toNat (Nat.le_refl 8), Word.field, Nat.pow_eq,
      Nat.pow_eq]
    omega
  simp only [decode, op, field]

theorem decode_eq_trap_iff {w : Word} {vector : Byte} :
    decode w = .trap vector ↔ w.toNat / 4096 = 15 ∧ w.toNat % 256 = vector.toNat := by
  constructor
  · intro h
    have op : Opcode.ofWord w = .trap := by rw [← opcode_decode, h, opcode]
    have field : w.trapVector = vector := by simpa only [decode, op, trap.injEq] using h
    have low : w.trapVector.toNat = w.toNat / 1 % 256 := w.field_toUInt8_toNat (Nat.le_refl 8)
    rw [← Opcode.code_ofWord, op, ← field, low, Nat.div_one]
    exact ⟨rfl, rfl⟩
  · rintro ⟨code, low⟩
    exact decode_of_code code low

theorem routine?_eq_some_iff {i : Instruction} {routine : Service} :
    i.routine? = some routine ↔ i = .trap routine.vector := by
  cases i with
  | trap vector => simp [routine?, Service.ofVector?_eq_some_iff]
  | _ => simp [routine?]

theorem reads_trap_iff {vector : Byte} :
    (trap vector).reads = true ↔ vector = 0x20 ∨ vector = 0x23 := by
  constructor
  · intro h
    obtain ⟨routine, found, reads⟩ := (Option.any_eq_true _ _).mp h
    have vector := Service.ofVector?_eq_some_iff.mp found
    cases routine with
    | getc => exact Or.inl vector
    | input => exact Or.inr vector
    | _ => cases reads
  · rintro (rfl | rfl)
    · rfl
    · rfl

theorem routine?_trap_of_outside {vector : Byte} (h : vector < 0x20 ∨ 0x25 < vector) :
    (trap vector).routine? = none := by
  cases found : (trap vector).routine? with
  | none => rfl
  | some routine =>
    have vector := Service.ofVector?_eq_some_iff.mp found
    subst vector
    cases routine <;> simp [Service.vector] at h

theorem routine?_of_ne_trap {i : Instruction} (plain : i.opcode ≠ .trap) : i.routine? = none := by
  cases i with
  | trap vector => exact absurd rfl plain
  | _ => rfl

end Instruction

namespace Machine

/-- The instruction that the next step executes. -/
def nextInstruction (m : Machine) : Instruction := .decode m.nextWord

/-- The machine once it has entered its next instruction. -/
def entered (m : Machine) : Machine :=
  { m.advance with
    state := if m.nextInstruction.routine? = some .halt then .halted else m.state }

/-- The machine after its next instruction, with a word for R0 if there is one. -/
def finished (m : Machine) (word : Option Word) : Machine :=
  ((m.entered.operate m.nextInstruction).leaving word).retire

/-- A machine that is about to execute a word, the only one in its memory. -/
def about (address word : Word) : Machine :=
  { initial with
    regs := initial.regs.jump address
    mem := Memory.initial.write address word }

@[simp] theorem size_about (address word : Word) :
    (about address word).mem.cells.size = Memory.size :=
  (Memory.size_write _ _ _).trans Memory.size_initial

@[simp] theorem nextWord_about (address word : Word) : (about address word).nextWord = word :=
  (Memory.read_write _ _ _ _ Memory.size_initial).trans (if_pos rfl)

@[simp] theorem state_leaving (m : Machine) (word : Option Word) :
    (m.leaving word).state = m.state := by
  cases word <;> rfl

@[simp] theorem cycles_leaving (m : Machine) (word : Option Word) :
    (m.leaving word).cycles = m.cycles := by
  cases word <;> rfl

@[simp] theorem state_finished (m : Machine) (word : Option Word) :
    (m.finished word).state = m.entered.state :=
  (state_leaving _ word).trans (state_operate _ _)

@[simp] theorem cycles_finished (m : Machine) (word : Option Word) :
    (m.finished word).cycles = m.cycles + 1 := by
  rw [finished, retire, cycles_leaving, cycles_operate]
  rfl

theorem toNat_cycles_finished (m : Machine) (word : Option Word)
    (room : m.cycles.toNat < 2 ^ 64 - 1) :
    (m.finished word).cycles.toNat = m.cycles.toNat + 1 := by
  have one : (1 : UInt64).toNat = 1 := rfl
  rw [cycles_finished, UInt64.toNat_add, one]
  exact Nat.mod_eq_of_lt (by omega)

theorem step_of_running {m : Machine} (running : m.state = .running) :
    m.step = .ask (.note (.executing m.regs.pc m.nextWord m.nextInstruction)) fun _ =>
      (m.advance.execute m.nextInstruction).andThen fun outcome =>
        .done (finish m.nextInstruction outcome) := by
  rw [step, running]
  rfl

theorem entering_advance {m : Machine} {routine : Service}
    (h : m.nextInstruction.routine? = some routine) :
    m.advance.entering routine = m.entered := by
  cases routine <;> simp [entered, entering, h] <;> rfl

theorem entered_of_silent {m : Machine} (h : m.nextInstruction.routine? = none) :
    m.entered = m.advance := by
  simp [entered, h]
  rfl

theorem execute_of_routine (m : Machine) {i : Instruction} {routine : Service}
    (h : i.routine? = some routine) :
    m.execute i = (m.converse routine).run.andThen fun outcome =>
      .done ((m.entering routine).afterWork outcome) := by
  simp [Instruction.routine?_eq_some_iff.mp h, execute, call]

/-- An instruction without a routine reports at most one event, and then it has its plain effect. -/
theorem execute_of_silent (m : Machine) {i : Instruction} (h : i.routine? = none) :
    m.execute i = .done (.ok (), m.operate i) ∨
      ∃ event, m.execute i = .ask (.note event) fun _ => .done (.ok (), m.operate i) := by
  cases i with
  | trap vector =>
    rw [Instruction.routine?] at h
    refine Or.inr ⟨.unknownVector vector (m.regs.pc - 1), ?_⟩
    rw [execute, call, h]
    rfl
  | rti => exact Or.inr ⟨_, rfl⟩
  | res => exact Or.inr ⟨_, rfl⟩
  | _ => exact Or.inl rfl

/-- HALT asks for a flush, and notes the stopped machine if that succeeds. -/
theorem run_converse_halt (m : Machine) :
    (m.converse .halt).run = Conversation.flush.run.andThen (ExceptT.bindCont fun _ =>
      Conversation.report (.halted (m.regs.pc - 1) (m.cycles + 1)) >>= fun _ => pure none) := rfl

open Conversation in
theorem careful_converse (m : Machine) (routine : Service) :
    Conversation.Careful (fun word => word.isSome = routine.reads)
      (m.converse routine) := by
  cases routine with
  | getc =>
    apply careful_bind careful_flush
    intro _ _
    apply careful_bind careful_readByte
    intro char _
    exact careful_pure rfl
  | out =>
    apply careful_bind (careful_writeByte _)
    intro _ _
    exact careful_pure rfl
  | puts =>
    apply careful_bind (careful_writeAll _)
    intro _ _
    exact careful_pure rfl
  | input =>
    apply careful_bind (careful_writeAll _)
    intro _ _
    apply careful_bind careful_flush
    intro _ _
    apply careful_bind careful_readByte
    intro char _
    apply careful_bind (careful_writeAll _)
    intro _ _
    exact careful_pure rfl
  | putsp =>
    apply careful_bind (careful_writeAll _)
    intro _ _
    apply careful_bind careful_flush
    intro _ _
    exact careful_pure rfl
  | halt =>
    apply careful_bind careful_flush
    intro _ _
    apply careful_bind (careful_report _)
    intro _ _
    exact careful_pure rfl

/-- Executing an instruction ends with the entered machine at a refused call, and else with
the effect of the instruction. -/
theorem careful_execute (m : Machine) :
    Careful (fun fault => (.error fault, m.entered))
      (fun outcome => ∃ word, word.isSome = m.nextInstruction.reads ∧
        outcome = (.ok (), (m.entered.operate m.nextInstruction).leaving word))
      (m.advance.execute m.nextInstruction) := by
  cases h : m.nextInstruction.routine? with
  | some routine =>
    have plain : m.entered.operate m.nextInstruction = m.entered := by
      rw [Instruction.routine?_eq_some_iff.mp h]
      rfl
    rw [execute_of_routine _ h, entering_advance h, plain]
    refine (careful_converse m.advance routine).andThen (fun fault => rfl) ?_
    rintro _ ⟨word, rfl, reads⟩
    refine .done ⟨word, ?_, rfl⟩
    simpa [Instruction.reads, h] using reads
  | none =>
    have unread : (none : Option Word).isSome = m.nextInstruction.reads := by
      simp [Instruction.reads, h]
    rw [entered_of_silent h]
    rcases m.advance.execute_of_silent h with now | ⟨event, now⟩
    · rw [now]
      exact .done ⟨none, unread, rfl⟩
    · rw [now]
      exact .ask (fun _ _ fault => nomatch fault) fun _ _ => .done ⟨none, unread, rfl⟩

/-- Everything that a step of a running machine can do. -/
theorem careful_step {m : Machine} (running : m.state = .running) :
    Careful (fun fault => (.error (.console fault), m.entered))
      (fun outcome => ∃ word, word.isSome = m.nextInstruction.reads ∧
        outcome = (.ok m.nextInstruction, m.finished word)) m.step := by
  rw [step_of_running running]
  refine .ask (fun _ _ fault => nomatch fault) fun _ _ => ?_
  refine (careful_execute m).andThen (fun fault => rfl) ?_
  rintro _ ⟨word, reads, rfl⟩
  exact .done ⟨word, reads, rfl⟩

/-- Without a routine a step asks nothing of the console, whatever it is. -/
theorem step_of_silent {σ : Type} (console : Console σ) (state : σ) {m : Machine}
    (running : m.state = .running) (h : m.nextInstruction.routine? = none) :
    m.step.interp console.handler state = ((.ok m.nextInstruction, m.finished none), state) ∧
      m.step.calls console.handler state = [] := by
  rw [step_of_running running, finished, entered_of_silent h]
  rcases m.advance.execute_of_silent h with now | ⟨event, now⟩
  · rw [now]
    exact ⟨rfl, rfl⟩
  · rw [now]
    exact ⟨rfl, rfl⟩

end Machine

end LittleComputer
