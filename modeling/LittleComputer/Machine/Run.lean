import LittleComputer.Instruction.Encoding
import LittleComputer.Machine.Routine

/-!
# Running the machine

A step fetches the word at PC, moves PC past it, executes the instruction and counts it. A
console fault ends a step without counting it. A bounded run makes steps until the machine has
stopped, a step has failed or the count has reached its limit; an unbounded run has no limit
and is given fuel, which only decides how long it is followed.
-/

namespace LittleComputer

/-- Why a step could not be finished. -/
inductive StepError where
  | notRunning
  | console (fault : IoError)
  deriving DecidableEq, Repr

def StepError.message : StepError → String
  | notRunning => "CPU not running: " ++ RunState.halted.name
  | console fault => "console I/O error: " ++ fault.message

namespace Machine

def nextWord (m : Machine) : Word := m.mem.read m.regs.pc

/-- Execute an instruction, once PC has moved past it. -/
def execute (m : Machine) (i : Instruction) : Dialogue Channel (Except IoError Unit × Machine) :=
  match i with
  | .trap vector => m.call vector
  | .rti | .res => do
    note (.reservedIgnored (m.regs.pc - 1) i)
    return (.ok (), m)
  | .br .. | .add .. | .ld .. | .st .. | .jsr .. | .and .. | .ldr .. | .str .. | .not ..
  | .ldi .. | .sti .. | .jmp .. | .lea .. => return (.ok (), m.operate i)

/-- Count an executed instruction, unless its console work failed. -/
def finish (i : Instruction) :
    Except IoError Unit × Machine → Except StepError Instruction × Machine
  | (.ok (), m) => (.ok i, m.retire)
  | (.error fault, m) => (.error (.console fault), m)

def step (m : Machine) : Dialogue Channel (Except StepError Instruction × Machine) :=
  match m.state with
  | .halted => return (.error .notRunning, m)
  | .running => do
    let word := m.nextWord
    let i := Instruction.decode word
    note (.executing m.regs.pc word i)
    let outcome ← m.advance.execute i
    return finish i outcome

/-- Make steps while the machine runs and its count is below a limit, at most `fuel` of them. -/
def stepsBelow (limit : UInt64) :
    Nat → Machine → Dialogue Channel (Except StepError Unit × Machine)
  | 0, m => return (.ok (), m)
  | fuel + 1, m =>
    if m.state = .running ∧ m.cycles < limit then do
      match ← m.step with
      | (.ok _, m) => stepsBelow limit fuel m
      | (.error fault, m) => return (.error fault, m)
    else return (.ok (), m)

/-- The count that a bounded run stops at. -/
def limitAfter (cycles maximum : UInt64) : UInt64 :=
  if maximum ≤ 0xFFFFFFFFFFFFFFFF - cycles then cycles + maximum else 0xFFFFFFFFFFFFFFFF

/-- The result of a run with the number of instructions counted since it began. -/
def counted (start : UInt64) : Except StepError Unit × Machine → Except StepError UInt64 × Machine
  | (.ok (), m) => (.ok (m.cycles - start), m)
  | (.error fault, m) => (.error fault, m)

/-- Run for at most `maximum` instructions, and say how many were finished. -/
def runLimited (m : Machine) (maximum : UInt64) :
    Dialogue Channel (Except StepError UInt64 × Machine) :=
  let start := m.cycles
  let limit := limitAfter start maximum
  counted start <$> stepsBelow limit (limit - start).toNat m

/-- Make steps until the machine has stopped; without an answer if the fuel runs out first. -/
def stepsToHalt : Nat → Machine → Dialogue Channel (Option (Except StepError Unit × Machine))
  | 0, m => return if m.state = .halted then some (.ok (), m) else none
  | fuel + 1, m =>
    if m.state = .halted then return some (.ok (), m)
    else do
      match ← m.step with
      | (.ok _, m) => stepsToHalt fuel m
      | (.error fault, m) => return some (.error fault, m)

/-- Run until the machine has stopped, and say how many instructions were finished; without an
answer if the fuel runs out first. -/
def run (fuel : Nat) (m : Machine) :
    Dialogue Channel (Option (Except StepError UInt64 × Machine)) :=
  let start := m.cycles
  Option.map (counted start) <$> stepsToHalt fuel m

theorem step_of_halted (m : Machine) (h : m.state = .halted) :
    m.step = .done (.error .notRunning, m) := by
  simp [step, h]

theorem stepsToHalt_of_halted (fuel : Nat) (m : Machine) (h : m.state = .halted) :
    stepsToHalt fuel m = .done (some (.ok (), m)) := by
  cases fuel <;> simp [stepsToHalt, h]

theorem stepsBelow_of_halted (limit : UInt64) (fuel : Nat) (m : Machine) (h : m.state = .halted) :
    stepsBelow limit fuel m = .done (.ok (), m) := by
  cases fuel <;> simp [stepsBelow, h]

theorem runLimited_of_halted (m : Machine) (maximum : UInt64) (h : m.state = .halted) :
    m.runLimited maximum = .done (.ok 0, m) := by
  simp [runLimited, stepsBelow_of_halted _ _ m h, ← Dialogue.pure_eq_done, counted]

theorem run_of_halted (fuel : Nat) (m : Machine) (h : m.state = .halted) :
    m.run fuel = .done (some (.ok 0, m)) := by
  simp [run, stepsToHalt_of_halted fuel m h, ← Dialogue.pure_eq_done, counted]

end Machine

end LittleComputer
