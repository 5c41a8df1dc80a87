import LittleComputer.Proofs.Halting

/-!
# The flag remembers the last value

Seven instructions load a register and set the flag from the loaded value; nothing else touches
the flag, not even what writes a register by the way. So the flag at any point of a run is the
sign of the value that was loaded last, whatever has become of that register since, and a
branch is taken if its mask asks for this sign.
-/

namespace LittleComputer

/-- The register that an instruction loads with a value that the flag is set from. -/
def Instruction.destination? : Instruction → Option Byte
  | add dr _ _ | and dr _ _ | not dr _ | ld dr _ | ldi dr _ | ldr dr _ _ | lea dr _ => some dr
  | br .. | st .. | sti .. | str .. | jmp _ | jsr _ | trap _ | rti | res => none

/-- Whether a branch mask asks for the sign of a word in two's complement: bit 2 for a negative
one, bit 1 for zero and bit 0 for a positive one. -/
def asksForSign (mask : Byte) (value : Word) : Bool :=
  if 0x8000 ≤ value.toNat then mask.toNat.testBit 2
  else if value.toNat = 0 then mask.toNat.testBit 1
  else mask.toNat.testBit 0

theorem Flag.isIn_ofWord (value : Word) (mask : Byte) :
    (ofWord value).isIn mask = asksForSign mask value := by
  have bound := value.toNat_lt
  have sign : ofWord value = if value.toNat = 0 then .zero
      else if value.toNat < 0x8000 then .positive else .negative := by
    simp only [ofWord, UInt16.lt_iff_toNat_lt, ← UInt16.toNat_inj]
    rfl
  have bit (flag : Flag) (i : Nat) (h : flag.bits = 2 ^ i) :
      flag.isIn mask = mask.toNat.testBit i := by
    rw [isIn, h, Nat.testBit_eq_decide_div_mod_eq]
    rfl
  rw [sign, asksForSign]
  by_cases zero : value.toNat = 0
  · rw [if_pos zero, if_neg (by omega), if_pos zero]
    exact bit .zero 1 rfl
  · rw [if_neg zero, if_neg zero]
    by_cases small : value.toNat < 0x8000
    · rw [if_pos small, if_neg (Nat.not_le_of_lt small)]
      exact bit .positive 0 rfl
    · rw [if_neg small, if_pos (Nat.le_of_not_lt small)]
      exact bit .negative 2 rfl

namespace Machine

/-- An instruction with a destination sets the flag from what it leaves there, and any other
leaves the flag alone. -/
theorem cond_operate (m : Machine) (i : Instruction) :
    (m.operate i).regs.cond =
      (i.destination?.map fun dr => Flag.ofWord ((m.operate i).regs.get dr)).getD m.regs.cond := by
  have loaded (dr : Byte) (value : Word) :
      (m.assign dr value).regs.cond = Flag.ofWord ((m.assign dr value).regs.get dr) := by
    simp [assign, Registers.get_assign]
  cases i with
  | add dr sr1 operand => exact loaded dr _
  | and dr sr1 operand => exact loaded dr _
  | not dr sr => exact loaded dr _
  | ld dr offset => exact loaded dr _
  | ldi dr offset => exact loaded dr _
  | ldr dr base offset => exact loaded dr _
  | lea dr offset => exact loaded dr _
  | br mask offset =>
    rw [operate]
    split <;> rfl
  | _ => rfl

section
variable {σ : Type} {console : Console σ} {p : Machine × σ} {k : Nat}

/-- The values that the first steps loaded, in order: each is what stood in the destination
right after the step. -/
def loadedWithin (handler : Handler Channel σ) (p : Machine × σ) (k : Nat) : List Word :=
  (List.range k).filterMap fun j =>
    (course handler p j).1.nextInstruction.destination?.map (course handler p (j + 1)).1.regs.get

theorem course_succ_of_silent (running : (course console.handler p k).1.state = .running)
    (h : (course console.handler p k).1.nextInstruction.routine? = none) :
    (course console.handler p (k + 1)).1 = (course console.handler p k).1.finished none := by
  simp [stepped, (step_of_silent console _ running h).1]

theorem cond_course_succ (running : (course console.handler p k).1.state = .running) :
    (course console.handler p (k + 1)).1.regs.cond =
      ((course console.handler p k).1.nextInstruction.destination?.map fun dr =>
        Flag.ofWord ((course console.handler p (k + 1)).1.regs.get dr)).getD
          (course console.handler p k).1.regs.cond := by
  cases h : (course console.handler p k).1.nextInstruction.routine? with
  | none =>
    rw [course_succ_of_silent running h, finished, entered_of_silent h]
    exact cond_operate _ _
  | some routine =>
    have called := Instruction.routine?_eq_some_iff.mp h
    rw [(frame_course_succ running called).cond, called]
    rfl

theorem getLast?_loadedWithin_succ (handler : Handler Channel σ) :
    (loadedWithin handler p (k + 1)).getLast? =
      ((course handler p k).1.nextInstruction.destination?.map
        (course handler p (k + 1)).1.regs.get).or (loadedWithin handler p k).getLast? := by
  rw [loadedWithin, List.range_succ, List.filterMap_append, List.getLast?_append]
  cases destination : (course handler p k).1.nextInstruction.destination? with
  | none => simp [destination, loadedWithin]
  | some dr => simp [destination]

/-- After some steps the flag is the sign of the value loaded last, or the flag of the beginning
if there is none. -/
theorem cond_course (running : ∀ j < k, (course console.handler p j).1.state = .running) :
    (course console.handler p k).1.regs.cond =
      ((loadedWithin console.handler p k).getLast?.map Flag.ofWord).getD p.1.regs.cond := by
  induction k with
  | zero => rfl
  | succ k ih =>
    have before := ih fun j lt => running j (Nat.lt_succ_of_lt lt)
    rw [cond_course_succ (running k (Nat.lt_succ_self k)), before, getLast?_loadedWithin_succ]
    cases (course console.handler p k).1.nextInstruction.destination? with
    | none => rfl
    | some dr => rfl

/-- Whether a branch with a mask is taken after some steps: by the sign of the value loaded last,
or by the flag of the beginning if there is none. -/
def branchTaken (handler : Handler Channel σ) (p : Machine × σ) (k : Nat) (mask : Byte) : Bool :=
  match (loadedWithin handler p k).getLast? with
  | some value => asksForSign mask value
  | none => p.1.regs.cond.isIn mask

theorem isIn_cond_course (running : ∀ j < k, (course console.handler p j).1.state = .running)
    (mask : Byte) :
    (course console.handler p k).1.regs.cond.isIn mask = branchTaken console.handler p k mask := by
  rw [cond_course running, branchTaken]
  cases (loadedWithin console.handler p k).getLast? with
  | none => rfl
  | some value => exact Flag.isIn_ofWord value mask

theorem pc_course_succ_of_branch {mask : Byte} {offset : Int16}
    (running : ∀ j ≤ k, (course console.handler p j).1.state = .running)
    (h : (course console.handler p k).1.nextInstruction = .br mask offset) :
    (course console.handler p (k + 1)).1.regs.pc =
      if branchTaken console.handler p k mask then
        ((course console.handler p k).1.regs.pc + 1).displace offset
      else (course console.handler p k).1.regs.pc + 1 := by
  have silent : (course console.handler p k).1.nextInstruction.routine? = none := by
    rw [h]
    rfl
  have flag := isIn_cond_course (fun j lt => running j (Nat.le_of_lt lt)) mask
  rw [course_succ_of_silent (running k (Nat.le_refl k)) silent, finished, entered_of_silent silent,
    h, ← flag]
  simp only [operate]
  split <;> rename_i asked
  · exact (if_pos asked).symm
  · exact (if_neg asked).symm

/-- The flag and the branches of so many steps. -/
structure FlagHistory (handler : Handler Channel σ) (p : Machine × σ) (k : Nat) : Prop where
  /-- The flag is the sign of the value loaded last, or as it was in the beginning. -/
  flag : (course handler p k).1.regs.cond =
    ((loadedWithin handler p k).getLast?.map Flag.ofWord).getD p.1.regs.cond
  /-- A branch goes to its target if its mask asks for this sign, and to the next address else. -/
  branch : ∀ j < k, ∀ mask offset,
    (course handler p j).1.nextInstruction = .br mask offset →
      (course handler p (j + 1)).1.regs.pc =
        if branchTaken handler p j mask then ((course handler p j).1.regs.pc + 1).displace offset
        else (course handler p j).1.regs.pc + 1

theorem flagHistory_of_running
    (running : ∀ j < k, (course console.handler p j).1.state = .running) :
    FlagHistory console.handler p k := by
  refine ⟨cond_course running, ?_⟩
  intro j lt mask offset branch
  exact pc_course_succ_of_branch (fun i le => running i (Nat.lt_of_le_of_lt le lt)) branch

end

/-- The flag and the branches of every run, on every console: of any number of steps of a running
machine, also if the last one fails, and so of any bounded run and of any unbounded run that ends.
-/
theorem flag_of_run {σ : Type} (console : Console σ) (m : Machine) (state : σ) :
    (∀ k, (∀ j < k, (course console.handler (m, state) j).1.state = .running) →
      FlagHistory console.handler (m, state) k) ∧
    (∀ n result last, ReturnsWithin console.handler (m, state) n result last →
      ∃ k, last = course console.handler (m, state) k ∧
        (m.runLimited n).turns console.handler state = transcript console.handler (m, state) k ∧
        FlagHistory console.handler (m, state) k) ∧
    ∀ fuel result (last : Machine × σ),
      (m.run fuel).interp console.handler state = (some (result, last.1), last.2) →
        ∃ k, last = course console.handler (m, state) k ∧
          (m.run fuel).turns console.handler state = transcript console.handler (m, state) k ∧
          FlagHistory console.handler (m, state) k := by
  refine ⟨fun k running => flagHistory_of_running running, ?_, ?_⟩
  · intro n result last returns
    obtain ⟨k, result', ends, -, within, said⟩ :=
      exists_endsAfter_runLimited console.handler (m, state) n
    obtain ⟨-, rfl⟩ := returns.unique within
    exact ⟨k, rfl, said, flagHistory_of_running fun j lt => (ends.lasts j lt).2⟩
  · intro fuel result last answer
    obtain ⟨k, ends, rfl, said, -⟩ := exists_endsAfter_run (p := (m, state)) answer
    exact ⟨k, rfl, said, flagHistory_of_running fun j lt => (ends.lasts j lt).2⟩

end Machine

end LittleComputer
