import LittleComputer.Inspection

/-!
# Events

What the machine and the image reader report while they work. An event has a level, the part
that reports it, a message and named fields; a log keeps the events up to a level, in order.
-/

namespace LittleComputer

/-- How severe an event is, the most severe first. -/
inductive Level where
  | error | warn | info | debug | trace
  deriving DecidableEq, Repr

namespace Level

/-- The place of a level, counted from the most severe. -/
def rank : Level → Nat
  | error => 0 | warn => 1 | info => 2 | debug => 3 | trace => 4

def label : Level → String
  | error => "ERROR" | warn => "WARN" | info => "INFO" | debug => "DEBUG" | trace => "TRACE"

/-- The level with a lower-case name. -/
def ofName? : String → Option Level
  | "error" => some error
  | "warn" => some warn
  | "info" => some info
  | "debug" => some debug
  | "trace" => some trace
  | _ => none

end Level

/-- A report of the machine or the image reader. -/
inductive Event where
  /-- An instruction was fetched from an address and is about to be executed. -/
  | executing (pc word : Word) (instruction : Instruction)
  | programLoaded (words : Nat) (origin : Word)
  /-- A reserved instruction had no effect. -/
  | reservedIgnored (pc : Word) (instruction : Instruction)
  /-- The machine was stopped after a number of instructions. -/
  | halted (pc : Word) (cycles : UInt64)
  /-- A trap vector outside the table had no effect. -/
  | unknownVector (vector : Byte) (pc : Word)
  /-- An image of an odd number of bytes lost its last byte. -/
  | oddImage (length : Nat)
  | imageLoaded (path : String) (words : Nat)
  deriving DecidableEq, Repr

inductive FieldValue where
  | number (value : Nat)
  | text (value : String)
  deriving DecidableEq, Repr

def FieldValue.toText : FieldValue → String
  | number value => Numeral.decimal value
  | text value => value

namespace Event

def level : Event → Level
  | executing .. => .trace
  | programLoaded .. | reservedIgnored .. | halted .. | imageLoaded .. => .debug
  | unknownVector .. | oddImage .. => .warn

/-- The part of the program that reports an event. -/
def target : Event → String
  | executing .. | programLoaded .. | reservedIgnored .. => "lc3::cpu::execute"
  | halted .. | unknownVector .. => "lc3::cpu::trap"
  | oddImage .. | imageLoaded .. => "lc3::image::loader"

def message : Event → String
  | executing .. => "execute"
  | programLoaded .. => "program loaded"
  | reservedIgnored .. => "reserved opcode ignored"
  | halted .. => "halted"
  | unknownVector .. => "unknown trap vector ignored"
  | oddImage .. => "image has an odd number of bytes; trailing byte ignored"
  | imageLoaded .. => "image loaded"

def fields : Event → List (String × FieldValue)
  | executing pc word instruction =>
    [("pc", .number pc.toNat), ("word", .number word.toNat), ("instr", .text (inspect instruction))]
  | programLoaded words origin => [("words", .number words), ("origin", .number origin.toNat)]
  | reservedIgnored pc instruction =>
    [("pc", .number pc.toNat), ("instr", .text (inspect instruction))]
  | halted pc cycles => [("pc", .number pc.toNat), ("cycles", .number cycles.toNat)]
  | unknownVector vector pc => [("vector", .number vector.toNat), ("pc", .number pc.toNat)]
  | oddImage length => [("len", .number length)]
  | imageLoaded path words => [("path", .text path), ("words", .number words)]

/-- Whether a log that keeps events up to a level keeps this one; without a level it keeps none. -/
def isKept (event : Event) : Option Level → Bool
  | none => false
  | some threshold => event.level.rank ≤ threshold.rank

def line (event : Event) : String :=
  let shown := event.fields.map fun f => " " ++ f.1 ++ "=" ++ f.2.toText
  event.level.label ++ " " ++ event.target ++ ": " ++ event.message ++ "".intercalate shown

example : (unknownVector 0x30 0x3000).line =
    "WARN lc3::cpu::trap: unknown trap vector ignored vector=48 pc=12288" := by decide

@[simp] theorem isKept_trace (event : Event) : event.isKept (some .trace) = true := by
  cases event <;> rfl

end Event

end LittleComputer
