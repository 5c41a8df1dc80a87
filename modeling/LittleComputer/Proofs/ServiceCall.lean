import LittleComputer.Console.Faulty
import LittleComputer.Console.Scripted
import LittleComputer.Proofs.Step

/-!
# What a service call leaves alone

A step over a service word keeps the memory, the flag and all registers but R0, and moves PC
by one, whether the console refuses a call or not. Only a finished GETC or IN changes R0, and
only HALT changes the run state, also if its flush is refused. A refused call is the last one
of its step, and the step is then not counted.
-/

namespace LittleComputer

namespace Machine

/-- What every service call keeps of a machine, and where it goes on. -/
structure Frame (m after : Machine) : Prop where
  mem : after.mem = m.mem
  cond : after.regs.cond = m.regs.cond
  upper : ∀ number : Byte, number.toNat % 8 ≠ 0 → after.regs.get number = m.regs.get number
  pc : after.regs.pc.toNat = (m.regs.pc.toNat + 1) % 65536

theorem frame_entered (m : Machine) : Frame m m.entered where
  mem := rfl
  cond := rfl
  upper _ _ := rfl
  pc := UInt16.toNat_add _ _

theorem Frame.leaving {m after : Machine} (frame : Frame m after) (word : Option Word) :
    Frame m (after.leaving word) := by
  cases word with
  | none => exact frame
  | some value =>
    refine ⟨frame.mem, frame.cond, ?_, frame.pc⟩
    intro number upper
    have zero : ¬ (0 : Byte).toNat % 8 = number.toNat % 8 := fun h => upper h.symm
    exact ((Registers.get_set _ _ _ _).trans (if_neg zero)).trans (frame.upper number upper)

theorem finished_of_trap {m : Machine} {vector : Byte} (h : m.nextInstruction = .trap vector)
    (word : Option Word) : m.finished word = (m.entered.leaving word).retire := by
  rw [finished, h]
  rfl

theorem frame_finished {m : Machine} {vector : Byte} (h : m.nextInstruction = .trap vector)
    (word : Option Word) : Frame m (m.finished word) := by
  rw [finished_of_trap h]
  obtain ⟨mem, cond, upper, pc⟩ := m.frame_entered.leaving word
  exact ⟨mem, cond, upper, pc⟩

theorem reads_of_changed {m : Machine} {vector : Byte} {word : Option Word}
    (h : m.nextInstruction = .trap vector) (reads : word.isSome = m.nextInstruction.reads)
    (changed : (m.finished word).regs.get 0 ≠ m.regs.get 0) : vector = 0x20 ∨ vector = 0x23 := by
  rw [← Instruction.reads_trap_iff, ← h, ← reads]
  cases word with
  | none =>
    rw [finished_of_trap h] at changed
    exact absurd rfl changed
  | some value => rfl

theorem state_entered_of_trap {m : Machine} {vector : Byte} (running : m.state = .running)
    (h : m.nextInstruction = .trap vector) :
    m.entered.state = if vector = 0x25 then .halted else .running := by
  have halts : m.nextInstruction.routine? = some .halt ↔ vector = 0x25 := by
    rw [Instruction.routine?_eq_some_iff, h]
    exact ⟨Instruction.trap.inj, congrArg Instruction.trap⟩
  by_cases stop : vector = 0x25
  · simp [entered, halts.mpr stop, stop]
  · simp [entered, mt halts.mp stop, stop, running]

/-- A step over a service word, on any console. -/
theorem step_on_service_word {σ : Type} (console : Console σ) (state : σ) (m : Machine)
    (vector : Byte) (running : m.state = .running) (room : m.cycles.toNat < 2 ^ 64 - 1)
    (code : m.nextWord.toNat / 4096 = 15) (low : m.nextWord.toNat % 256 = vector.toNat) :
    ∃ result after,
      (m.step.interp console.handler state).1 = (result, after) ∧
      Frame m after ∧
      (after.regs.get 0 ≠ m.regs.get 0 →
        (vector = 0x20 ∨ vector = 0x23) ∧ result = .ok (.trap vector)) ∧
      (after.state = if vector = 0x25 then .halted else .running) ∧
      ((result = .ok (.trap vector) ∧ after.cycles.toNat = m.cycles.toNat + 1 ∧
          ∀ call ∈ m.step.calls console.handler state, call.fault? = none) ∨
        ∃ fault before refused, result = .error (.console fault) ∧ after.cycles = m.cycles ∧
          m.step.calls console.handler state = before ++ [refused] ∧
          refused.fault? = some fault ∧ ∀ call ∈ before, call.fault? = none) ∧
      (vector < 0x20 ∨ 0x25 < vector →
        m.step.calls console.handler state = [] ∧ result = .ok (.trap vector)) := by
  have h : m.nextInstruction = .trap vector := Instruction.decode_of_code code low
  have silent : vector < 0x20 ∨ 0x25 < vector →
      (m.step.interp console.handler state).1.1 = .ok (.trap vector) ∧
        m.step.calls console.handler state = [] := by
    intro outside
    have none := Instruction.routine?_trap_of_outside outside
    rw [← h] at none
    obtain ⟨value, quiet⟩ := step_of_silent console state running none
    rw [value, h]
    exact ⟨rfl, quiet⟩
  have stops := state_entered_of_trap running h
  rcases (careful_step running).calls_outcome console.handler state with
    ⟨⟨word, reads, value⟩, quiet⟩ | ⟨before, refused, fault, calls, last, quiet, value⟩
  · rw [value] at silent
    refine ⟨_, _, value, frame_finished h word, ?_, ?_, ?_, ?_⟩
    · intro changed
      exact ⟨reads_of_changed h reads changed, by rw [h]⟩
    · simp [stops]
    · exact Or.inl ⟨by rw [h], toNat_cycles_finished m word room, quiet⟩
    · intro outside
      exact (silent outside).symm
  · rw [value] at silent
    refine ⟨_, _, value, m.frame_entered, ?_, stops, ?_, ?_⟩
    · intro changed
      exact absurd rfl changed
    · exact Or.inr ⟨fault, before, refused, rfl, rfl, calls, last, quiet⟩
    · intro outside
      exact (silent outside).symm

/-- IN on a console that refuses every read: the prompt is out, and R0 is as it was. -/
theorem step_on_service_word_of_refused_read :
    ∃ after,
      ((about start 0xF023).step.interp
        (ScriptedConsole.console.faulty (.refusing .read)).handler
        (.ofInput [65], .none)).1 = (.error (.console (.refused .read)), after) ∧
      Frame (about start 0xF023) after ∧ after.regs.get 0 = 0 ∧ after.state = .running := by
  have word := nextWord_about start 0xF023
  have input : (about start 0xF023).nextInstruction = .trap 0x23 := by
    rw [nextInstruction, word]
    exact Instruction.decode_of_code rfl rfl
  obtain ⟨result, after, value, frame, changed, state, -⟩ :=
    step_on_service_word (ScriptedConsole.console.faulty (.refusing .read))
      (.ofInput [65], .none) (about start 0xF023) 0x23 rfl (Nat.zero_lt_succ _)
      (by rw [word]; decide) (by rw [word]; decide)
  have answer := congrArg Prod.fst value
  rw [step_of_running rfl, input] at answer
  obtain rfl : .error (.console (.refused .read)) = result := answer
  refine ⟨after, value, frame, ?_, state⟩
  by_cases zero : after.regs.get 0 = 0
  · exact zero
  · cases (changed zero).2

end Machine

end LittleComputer
