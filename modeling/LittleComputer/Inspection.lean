import LittleComputer.Instruction.Basic
import LittleComputer.Numeral

/-!
# Inspection text

How values are shown to someone who watches the machine: records with named fields, applied
names and bracketed lists. Types of the library state their inspection text as instances of
one class.
-/

namespace LittleComputer

/-- Values with an inspection text. -/
class Inspect (α : Type) where
  inspect : α → String

export Inspect (inspect)

namespace Inspect

def applied (name value : String) : String := name ++ "(" ++ value ++ ")"

/-- A named record; a record without fields is its name alone. -/
def record (name : String) (fields : List (String × String)) : String :=
  if fields.isEmpty then name
  else name ++ " \x7b " ++ ", ".intercalate (fields.map fun f => f.1 ++ ": " ++ f.2) ++ " \x7d"

/-- Values in square brackets, separated by commas. -/
def bracketed (items : List String) : String := "[" ++ ", ".intercalate items ++ "]"

end Inspect

open Inspect

instance : Inspect Nat := ⟨fun n => Numeral.decimal n⟩
instance : Inspect UInt8 := ⟨fun b => Numeral.decimal b.toNat⟩
instance : Inspect UInt16 := ⟨fun w => Numeral.decimal w.toNat⟩
instance : Inspect UInt64 := ⟨fun n => Numeral.decimal n.toNat⟩
instance : Inspect Int16 := ⟨fun v => Numeral.decimal v.toInt⟩

instance {α : Type} [Inspect α] : Inspect (List α) := ⟨fun items => bracketed (items.map inspect)⟩

instance : Inspect Operand where
  inspect
    | .register number => applied "Register" (inspect number)
    | .immediate value => applied "Immediate" (inspect value)

instance : Inspect CallTarget where
  inspect
    | .offset value => applied "Offset" (inspect value)
    | .register number => applied "Register" (inspect number)

/-- The named fields of an instruction with their inspection texts. -/
def Instruction.inspectedFields : Instruction → List (String × String)
  | .br mask offset => [("mask", inspect mask), ("offset", inspect offset)]
  | .add dr sr1 operand | .and dr sr1 operand =>
    [("dr", inspect dr), ("sr1", inspect sr1), ("operand", inspect operand)]
  | .ld dr offset | .ldi dr offset | .lea dr offset =>
    [("dr", inspect dr), ("offset", inspect offset)]
  | .st sr offset | .sti sr offset => [("sr", inspect sr), ("offset", inspect offset)]
  | .jsr target => [("target", inspect target)]
  | .ldr dr base offset =>
    [("dr", inspect dr), ("base", inspect base), ("offset", inspect offset)]
  | .str sr base offset =>
    [("sr", inspect sr), ("base", inspect base), ("offset", inspect offset)]
  | .not dr sr => [("dr", inspect dr), ("sr", inspect sr)]
  | .jmp base => [("base", inspect base)]
  | .trap vector => [("vector", inspect vector)]
  | .rti | .res => []

instance : Inspect Instruction := ⟨fun i => record i.opcode.name i.inspectedFields⟩

example : inspect (Instruction.add 0 1 (.immediate (-3))) =
    "Add \x7b dr: 0, sr1: 1, operand: Immediate(-3) \x7d" := by decide

end LittleComputer
