import LittleComputer.Word

/-!
# Instructions

The sixteen operations of the machine and the decoded form of an instruction word.
Register numbers, masks and vectors are bytes and offsets are signed words: an instruction
value may therefore hold a field that is wider than the one in its word.
-/

namespace LittleComputer

/-- The sixteen operations, in the order of their four-bit codes. -/
inductive Opcode where
  | br | add | ld | st | jsr | and | ldr | str | rti | not | ldi | sti | jmp | res | lea | trap
  deriving DecidableEq, Repr

namespace Opcode

def code : Opcode → Nat
  | br => 0 | add => 1 | ld => 2 | st => 3 | jsr => 4 | and => 5 | ldr => 6 | str => 7
  | rti => 8 | not => 9 | ldi => 10 | sti => 11 | jmp => 12 | res => 13 | lea => 14 | trap => 15

/-- The operation with a given code; codes above fifteen do not occur in words. -/
def ofCode : Nat → Opcode
  | 0 => br | 1 => add | 2 => ld | 3 => st | 4 => jsr | 5 => and | 6 => ldr | 7 => str
  | 8 => rti | 9 => not | 10 => ldi | 11 => sti | 12 => jmp | 13 => res | 14 => lea | _ => trap

def all : List Opcode :=
  [br, add, ld, st, jsr, and, ldr, str, rti, not, ldi, sti, jmp, res, lea, trap]

def name : Opcode → String
  | br => "Br" | add => "Add" | ld => "Ld" | st => "St" | jsr => "Jsr" | and => "And"
  | ldr => "Ldr" | str => "Str" | rti => "Rti" | not => "Not" | ldi => "Ldi" | sti => "Sti"
  | jmp => "Jmp" | res => "Res" | lea => "Lea" | trap => "Trap"

theorem code_lt (op : Opcode) : op.code < 16 := by cases op <;> decide

@[simp] theorem ofCode_code (op : Opcode) : ofCode op.code = op := by cases op <;> rfl

theorem code_ofCode {n : Nat} (h : n < 16) : (ofCode n).code = n := by
  have all : ∀ k : Fin 16, (ofCode k).code = k := by decide
  exact all ⟨n, h⟩

end Opcode

/-- The second operand of ADD and AND. -/
inductive Operand where
  | register (number : Byte)
  | immediate (value : Int16)
  deriving DecidableEq, Repr

/-- Where a subroutine call goes. -/
inductive CallTarget where
  | offset (value : Int16)
  | register (number : Byte)
  deriving DecidableEq, Repr

inductive Instruction where
  /-- Move PC by the offset if the mask contains the current condition flag. -/
  | br (mask : Byte) (offset : Int16)
  /-- Destination := source + operand. -/
  | add (dr sr1 : Byte) (operand : Operand)
  /-- Destination := the cell at PC + offset. -/
  | ld (dr : Byte) (offset : Int16)
  /-- The cell at PC + offset := source. -/
  | st (sr : Byte) (offset : Int16)
  /-- R7 := PC, then PC := the target. -/
  | jsr (target : CallTarget)
  /-- Destination := the bits common to source and operand. -/
  | and (dr sr1 : Byte) (operand : Operand)
  /-- Destination := the cell at base + offset. -/
  | ldr (dr base : Byte) (offset : Int16)
  /-- The cell at base + offset := source. -/
  | str (sr base : Byte) (offset : Int16)
  /-- Reserved: return from interrupt, without effect. -/
  | rti
  /-- Destination := the complement of source. -/
  | not (dr sr : Byte)
  /-- Destination := the cell whose address is in the cell at PC + offset. -/
  | ldi (dr : Byte) (offset : Int16)
  /-- The cell whose address is in the cell at PC + offset := source. -/
  | sti (sr : Byte) (offset : Int16)
  /-- PC := base. -/
  | jmp (base : Byte)
  /-- Reserved: no operation. -/
  | res
  /-- Destination := PC + offset. -/
  | lea (dr : Byte) (offset : Int16)
  /-- Call a service routine. -/
  | trap (vector : Byte)
  deriving DecidableEq, Repr

namespace Instruction

def opcode : Instruction → Opcode
  | br .. => .br | add .. => .add | ld .. => .ld | st .. => .st | jsr .. => .jsr
  | and .. => .and | ldr .. => .ldr | str .. => .str | rti => .rti | not .. => .not
  | ldi .. => .ldi | sti .. => .sti | jmp .. => .jmp | res => .res | lea .. => .lea
  | trap .. => .trap

end Instruction

end LittleComputer
