import LittleComputer.Exchange
import LittleComputer.Instruction.Assembly
import LittleComputer.Output

/-!
# Dumps

A dump shows a machine at one of three moments: after its program was loaded, after it halted
and when a limit stopped it. It lists the occupied memory cells and, except at the first moment,
the registers, as text or as JSON.
-/

namespace LittleComputer

namespace Dump

inductive Format where
  /-- A listing for people. -/
  | text
  /-- Indented JSON. -/
  | json
  /-- Nothing at all. -/
  | none
  deriving DecidableEq, Repr

namespace Format

def all : List Format := [text, json, none]

def standard : Format := text

def option : Format → String
  | text => "text" | json => "json" | none => "none"

def name : Format → String
  | text => "Text" | json => "Json" | none => "None"

end Format

/-- When a dump is taken. -/
inductive Stage where
  | afterLoad
  | afterHalt
  /-- A limit ended the run before it halted. -/
  | stopped
  deriving DecidableEq, Repr

namespace Stage

def name : Stage → String
  | afterLoad => "after_load" | afterHalt => "after_halt" | stopped => "stopped"

def memoryTitle : Stage → String
  | afterLoad => "Occupied memory after program load:"
  | afterHalt => "Occupied memory after program execution:"
  | stopped => "Occupied memory when the step limit was reached:"

/-- The title of the register section, if the dump has one. -/
def registersTitle? : Stage → Option String
  | afterLoad => none
  | afterHalt => some "Registers after program execution:"
  | stopped => some "Registers when the step limit was reached:"

/-- The stage of a machine whose run is over. -/
def afterRun (m : Machine) : Stage := if m.isHalted then afterHalt else stopped

end Stage

/-- A title between two rules of its length. -/
def titleLines (title : String) : List String :=
  let rule := String.ofList (List.replicate title.length '-') ++ "\n"
  [rule, title ++ "\n", rule]

/-- The line of an occupied cell. -/
def cellLine (cell : Word × Word) : String :=
  "x" ++ Numeral.hexWord cell.1 ++ ": x" ++ Numeral.hexWord cell.2 ++ "  " ++
    Assembly.ofWord cell.2 ++ "\n"

def memoryLines (mem : Memory) : List String := mem.occupied.map cellLine

/-- The line of a register: its name in six columns, its word and the signed value of it. -/
def registerLine (name : String) (value : Word) : String :=
  let label := name ++ ":"
  label ++ String.ofList (List.replicate (6 - label.length) ' ') ++ "x" ++ Numeral.hexWord value ++
    "  (" ++ Numeral.decimal value.signed ++ ")\n"

example : registerLine "R3" 0x8000 = "R3:   x8000  (-32768)\n" := by decide

def registerLines (regs : Registers) : List String :=
  let words := regs.general.toList ++ [regs.pc]
  (Registers.names.zip words).map (fun (name, value) => registerLine name value) ++
    ["COND: " ++ String.singleton regs.cond.letter ++ "\n"]

def cellJson (cell : Word × Word) : Json :=
  .record [("address", toJson cell.1), ("value", toJson cell.2)]

def json (m : Machine) (stage : Stage) : Json :=
  .record ([("stage", .text stage.name), ("cycles", toJson m.cycles)] ++
    (match stage with
      | .afterLoad => []
      | .afterHalt | .stopped => [("registers", toJson m.regs)]) ++
    [("memory", .list (m.mem.occupied.map cellJson))])

def lines (m : Machine) (stage : Stage) : List String :=
  titleLines stage.memoryTitle ++ memoryLines m.mem ++
    match stage.registersTitle? with
    | some title => titleLines title ++ registerLines m.regs
    | none => []

/-- The pieces of a dump, in the order in which they are written. -/
def pieces (m : Machine) (stage : Stage) : Format → List String
  | .text => lines m stage
  | .json => (json m stage).indentedPieces.toList ++ ["\n"]
  | .none => []

def write (m : Machine) (stage : Stage) (format : Format) : Output.Writing Unit :=
  Output.putAll (pieces m stage format)

end Dump

end LittleComputer
