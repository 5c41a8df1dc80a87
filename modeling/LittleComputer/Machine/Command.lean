import LittleComputer.Machine.Checked

/-!
# Commands

What can be done to a machine from outside, as data: to let it work, to put words into its memory
and its registers, and to reset it. A command is carried out without checks or with them.
-/

namespace LittleComputer

namespace Machine

/-- What can be asked of a machine or done to it. -/
inductive Command where
  | step
  | runLimited (maximum : UInt64)
  | loadProgram (program : Array Word)
  | load (origin : Word) (program : Array Word)
  | write (address value : Word)
  | get (number : Byte)
  | set (number : Byte) (value : Word)
  | updateFlag (number : Byte)
  | assign (number : Byte) (value : Word)
  | jump (address : Word)
  | setPc (address : Word)
  | setCond (flag : Flag)
  | setCycles (count : UInt64)
  | reset

/-- What a command gives back. -/
inductive Response where
  | executed (result : Except StepError Instruction)
  | counted (result : Except StepError UInt64)
  | loaded (result : Except ProgramTooLarge Unit)
  | word (value : Word)
  | done

/-- A machine with a memory that a program was loaded into, or as it was. -/
def afterLoad (m : Machine) : Except ProgramTooLarge Memory → Response × Machine
  | .ok mem => (.loaded (.ok ()), { m with mem })
  | .error refusal => (.loaded (.error refusal), m)

def perform (m : Machine) : Command → Dialogue Channel (Response × Machine)
  | .step => Prod.map .executed id <$> m.step
  | .runLimited maximum => Prod.map .counted id <$> m.runLimited maximum
  | .loadProgram program => Prod.map .loaded id <$> m.loadProgram program
  | .load origin program => return m.afterLoad (m.mem.load origin program)
  | .write address value => return (.done, m.store address value)
  | .get number => return (.word (m.regs.get number), m)
  | .set number value => return (.done, { m with regs := m.regs.set number value })
  | .updateFlag number => return (.done, { m with regs := m.regs.updateFlag number })
  | .assign number value => return (.done, m.assign number value)
  | .jump address => return (.done, m.jump address)
  | .setPc address => return (.done, { m with regs.pc := address })
  | .setCond flag => return (.done, { m with regs.cond := flag })
  | .setCycles count => return (.done, { m with cycles := count })
  | .reset => return (.done, m.reset)

open Checked in
/-- Carry out a command with all checks. -/
def perform? (m : Machine) : Command → Checked (Response × Machine)
  | .step => Prod.map .executed id <$> m.step?
  | .runLimited maximum => Prod.map .counted id <$> m.runLimited? maximum
  | .loadProgram program => Prod.map .loaded id <$> m.loadProgram? program
  | .load origin program => do return m.afterLoad (← check (m.mem.load? origin program))
  | .write address value => do return (.done, ← check (m.store? address value))
  | .get number => do return (.word (← check (m.regs.get? number)), m)
  | .set number value => do
    return (.done, { m with regs := ← check (m.regs.set? number value) })
  | .updateFlag number => do
    return (.done, { m with regs := ← check (m.regs.updateFlag? number) })
  | .assign number value => do return (.done, ← check (m.assign? number value))
  | .jump address => plain (m.perform (.jump address))
  | .setPc address => plain (m.perform (.setPc address))
  | .setCond flag => plain (m.perform (.setCond flag))
  | .setCycles count => plain (m.perform (.setCycles count))
  | .reset => plain (m.perform .reset)

/-- Carry out commands one after the other. -/
def performAll : List Command → Machine → Dialogue Channel (List Response × Machine)
  | [], m => return ([], m)
  | command :: rest, m => do
    let (response, m) ← m.perform command
    let (responses, m) ← performAll rest m
    return (response :: responses, m)

end Machine

end LittleComputer
