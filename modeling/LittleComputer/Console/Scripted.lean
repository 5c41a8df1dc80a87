import LittleComputer.Console.Basic
import LittleComputer.Inspection
import LittleComputer.Text.Lossy

/-!
# Scripted consoles

A console in memory: its input is fixed beforehand, its output is kept and its flushes are
counted. It never refuses a call, and once its input is used up it stays at the end of input.
-/

namespace LittleComputer

/-- The state of a console in memory. -/
structure ScriptedConsole where
  input : List Byte
  output : Array Byte
  flushes : Nat
  deriving DecidableEq

namespace ScriptedConsole

/-- A console with the given input that nothing was written to. -/
def ofInput (input : List Byte) : ScriptedConsole := ⟨input, #[], 0⟩

def read : ScriptedConsole → Except IoError (Option Byte) × ScriptedConsole
  | ⟨[], output, flushes⟩ => (.ok none, ⟨[], output, flushes⟩)
  | ⟨byte :: rest, output, flushes⟩ => (.ok (some byte), ⟨rest, output, flushes⟩)

def write (byte : Byte) : ScriptedConsole → Except IoError Unit × ScriptedConsole
  | ⟨input, output, flushes⟩ => (.ok (), ⟨input, output.push byte, flushes⟩)

def flush : ScriptedConsole → Except IoError Unit × ScriptedConsole
  | ⟨input, output, flushes⟩ => (.ok (), ⟨input, output, flushes + 1⟩)

def console : Console ScriptedConsole := ⟨read, write, flush⟩

def remaining (c : ScriptedConsole) : Nat := c.input.length

/-- The output as text, with replacements for bytes that are no text. -/
def text (c : ScriptedConsole) : String := Text.lossy c.output

instance : Inspect ScriptedConsole where
  inspect c := Inspect.record "BufferConsole"
    [("input", inspect c.input), ("output", inspect c.output.toList),
      ("flushes", inspect c.flushes)]

end ScriptedConsole

end LittleComputer
