import LittleComputer.Machine.Basic
import LittleComputer.Channel
import LittleComputer.Service

/-!
# What the service routines do

A routine is console work on an unchanging machine, and answers with the word for R0 if it
sets one. Calling it changes the machine only around that work: HALT stops the machine before
its work begins, and R0 is set after the work has succeeded. So a routine whose console refuses
a call leaves R0 alone.
-/

namespace LittleComputer

/-- The bytes of the prompt of IN, which are written one by one. -/
def Service.promptBytes : List Byte := Service.prompt.toList.map Char.toUInt8

namespace Machine

/-- The bytes that PUTSP writes for a word: the low one, and the high one unless it is zero. -/
def packedBytes (w : Word) : List Byte :=
  if w.highByte = 0 then [w.lowByte] else [w.lowByte, w.highByte]

/-- The string at R0. -/
def stringAtR0 (m : Machine) : List Word := m.mem.stringAt (m.regs.get 0)

/-- The word for R0 after a read. -/
def wordOfRead : Option Byte → Word
  | some byte => byte.toUInt16
  | none => Service.endOfInput

open Conversation in
/-- The console work of a routine, and the word for R0 if the routine sets it. -/
def converse (m : Machine) : Service → Conversation (Option Word)
  | .getc => do
    flush
    let char ← readByte
    return some (wordOfRead char)
  | .out => do
    writeByte (m.regs.get 0).lowByte
    return none
  | .puts => do
    writeAll (m.stringAtR0.map Word.lowByte)
    return none
  | .input => do
    writeAll Service.promptBytes
    flush
    let char ← readByte
    writeAll char.toList
    return some (wordOfRead char)
  | .putsp => do
    writeAll (m.stringAtR0.flatMap packedBytes)
    flush
    return none
  | .halt => do
    flush
    report (.halted (m.regs.pc - 1) (m.cycles + 1))
    return none

/-- The machine while a routine does its console work. -/
def entering (m : Machine) : Service → Machine
  | .halt => { m with state := .halted }
  | .getc | .out | .puts | .input | .putsp => m

/-- The machine after the console work of a routine. -/
def leaving (m : Machine) : Option Word → Machine
  | some value => { m with regs := m.regs.set 0 value }
  | none => m

/-- The machine after a routine, with the fault that ended it if there was one. -/
def afterWork (m : Machine) : Except IoError (Option Word) → Except IoError Unit × Machine
  | .ok result => (.ok (), m.leaving result)
  | .error fault => (.error fault, m)

/-- Call the routine of a trap vector; a vector without a routine is reported and has no effect. -/
def call (m : Machine) (vector : Byte) : Dialogue Channel (Except IoError Unit × Machine) :=
  match Service.ofVector? vector with
  | some routine => do
    let outcome ← (m.converse routine).run
    return (m.entering routine).afterWork outcome
  | none => do
    note (.unknownVector vector (m.regs.pc - 1))
    return (.ok (), m)

end Machine

end LittleComputer
