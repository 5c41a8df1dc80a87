import LittleComputer.Image
import LittleComputer.Machine.Run

/-!
# Checked operations

The operations of the machine once more, with a check wherever one of them could leave a range:
an index into the cells or the registers, a range of cells, a shift, a difference of numbers
without sign, and the sums that must not wrap around. Words are taken apart by shifts and masks
here, and a string is read cell by cell while it is written. An operation that fails a check has
no answer, whatever it has said so far.
-/

namespace LittleComputer

/-- A computation that may fail a check. -/
abbrev Checked (α : Type) : Type := OptionT (Dialogue Channel) α

/-- Console work that may fail a check. -/
abbrev CheckedTalk (α : Type) : Type := ExceptT IoError Checked α

namespace Checked

variable {α : Type}

def check (answer : Option α) : Checked α := OptionT.mk (.done answer)

def plain (d : Dialogue Channel α) : Checked α := OptionT.lift d

/-- The difference of two numbers without sign. -/
def difference? (a b : Nat) : Option Nat := if b ≤ a then some (a - b) else none

/-- The sum of two sizes. -/
def sum? (a b : Nat) : Option Nat := if a + b < UInt64.size then some (a + b) else none

end Checked

namespace CheckedTalk

variable {α : Type}

def check (answer : Option α) : CheckedTalk α := ExceptT.lift (Checked.check answer)

def plain (talk : Conversation α) : CheckedTalk α := ExceptT.mk (Checked.plain talk.run)

end CheckedTalk

open Checked (difference? sum?)

namespace Word

def shiftRight? (w : Word) (amount : Nat) : Option Word :=
  if amount < 16 then some (w >>> amount.toUInt16) else none

def shiftLeft? (w : Word) (amount : Nat) : Option Word :=
  if amount < 16 then some (w <<< amount.toUInt16) else none

def subtract? (w v : Word) : Option Word := if v ≤ w then some (w - v) else none

/-- The mask of the lowest bits of a word. -/
def lowBits? (width : Nat) : Option Word := do (← shiftLeft? 1 width).subtract? 1

/-- Widen a field of fewer than sixteen bits. -/
def signExtend? (w : Word) (width : Nat) : Option Word :=
  if 0 < width ∧ width < 16 then do
    let mask ← lowBits? width
    let field := w &&& mask
    let sign ← field.shiftRight? (← difference? width 1)
    if sign &&& 1 = 1 then
      let above ← shiftLeft? 0xFFFF width
      return field ||| above
    else return field
  else none

def offset? (w : Word) (width : Nat) : Option Int16 := do
  let wide ← w.signExtend? width
  return wide.toInt16

/-- A register number or a mask of three bits. -/
def number? (w : Word) (low : Nat) : Option Byte := do
  let shifted ← w.shiftRight? low
  return (shifted &&& 7).toUInt8

def bit? (w : Word) (i : Nat) : Option Bool := do
  let shifted ← w.shiftRight? i
  return shifted &&& 1 == 1

def operand? (w : Word) : Option Operand := do
  if ← w.bit? 5 then return .immediate (← w.offset? 5)
  else return .register (w &&& 7).toUInt8

def callTarget? (w : Word) : Option CallTarget := do
  if ← w.bit? 11 then return .offset (← w.offset? 11)
  else return .register (← w.number? 6)

end Word

def Opcode.ofWord? (w : Word) : Option Opcode := do
  let code ← w.shiftRight? 12
  return .ofCode code.toNat

def Instruction.decode? (w : Word) : Option Instruction := do
  match ← Opcode.ofWord? w with
  | .br => return .br (← w.number? 9) (← w.offset? 9)
  | .add => return .add (← w.number? 9) (← w.number? 6) (← w.operand?)
  | .ld => return .ld (← w.number? 9) (← w.offset? 9)
  | .st => return .st (← w.number? 9) (← w.offset? 9)
  | .jsr => return .jsr (← w.callTarget?)
  | .and => return .and (← w.number? 9) (← w.number? 6) (← w.operand?)
  | .ldr => return .ldr (← w.number? 9) (← w.number? 6) (← w.offset? 6)
  | .str => return .str (← w.number? 9) (← w.number? 6) (← w.offset? 6)
  | .rti => return .rti
  | .not => return .not (← w.number? 9) (← w.number? 6)
  | .ldi => return .ldi (← w.number? 9) (← w.offset? 9)
  | .sti => return .sti (← w.number? 9) (← w.offset? 9)
  | .jmp => return .jmp (← w.number? 6)
  | .res => return .res
  | .lea => return .lea (← w.number? 9) (← w.offset? 9)
  | .trap => return .trap (w &&& 0xFF).toUInt8

def Flag.ofWord? (w : Word) : Option Flag :=
  if w = 0 then some zero
  else do
    let top ← w.shiftRight? 15
    return if top = 1 then negative else positive

namespace Registers

def get? (regs : Registers) (number : Byte) : Option Word :=
  regs.general.toArray[(number &&& 7).toNat]?

def set? (regs : Registers) (number : Byte) (value : Word) : Option Registers :=
  if bound : (number &&& 7).toNat < 8 then
    some { regs with general := regs.general.set (number &&& 7).toNat value }
  else none

def updateFlag? (regs : Registers) (number : Byte) : Option Registers := do
  let flag ← Flag.ofWord? (← regs.get? number)
  return { regs with cond := flag }

def assign? (regs : Registers) (number : Byte) (value : Word) : Option Registers := do
  (← regs.set? number value).updateFlag? number

end Registers

namespace Memory

def read? (mem : Memory) (address : Word) : Option Word := mem.cells[address.toNat]?

def write? (mem : Memory) (address value : Word) : Option Memory :=
  if bound : address.toNat < mem.cells.size then some ⟨mem.cells.set address.toNat value⟩
  else none

/-- Copy words over a range of cells of the same length. -/
def copy? (mem : Memory) (start stop : Nat) (words : Array Word) : Option Memory :=
  if start ≤ stop ∧ stop ≤ mem.cells.size ∧ stop - start = words.size then
    some ⟨mem.cells.extract 0 start ++ words ++ mem.cells.extract stop mem.cells.size⟩
  else none

def load? (mem : Memory) (origin : Word) (program : Array Word) :
    Option (Except ProgramTooLarge Memory) := do
  let start := origin.toNat
  let available ← difference? size start
  if available < program.size then return .error ⟨program.size, available⟩
  else
    let loaded ← mem.copy? start (← sum? start program.size) program
    return .ok loaded

/-- Write the string at an address, word by word up to the first zero cell; the last argument
bounds the number of cells that are read. -/
def writeText? (mem : Memory) (write : Word → CheckedTalk Unit) (start : Word) (passed : Nat) :
    Nat → CheckedTalk Unit
  | 0 => pure ()
  | fuel + 1 => do
    let word ← CheckedTalk.check (mem.read? (start + passed.toUInt16))
    if word = 0 then pure ()
    else do
      write word
      mem.writeText? write start (passed + 1) fuel

end Memory

namespace Machine

/-- The counter after one more instruction. -/
def nextCount? (count : UInt64) : Option UInt64 :=
  if count.toNat + 1 < UInt64.size then some (count + 1) else none

/-- The number of instructions since a count. -/
def countSince? (start count : UInt64) : Option UInt64 :=
  if start ≤ count then some (count - start) else none

def assign? (m : Machine) (number : Byte) (value : Word) : Option Machine := do
  let regs ← m.regs.assign? number value
  return { m with regs }

def store? (m : Machine) (address value : Word) : Option Machine := do
  let mem ← m.mem.write? address value
  return { m with mem }

def operandValue? (m : Machine) : Operand → Option Word
  | .register number => m.regs.get? number
  | .immediate value => some value.toUInt16

def targetAddress? (m : Machine) : CallTarget → Option Word
  | .offset value => some (m.regs.pcRelative value)
  | .register number => m.regs.get? number

def operate? (m : Machine) : Instruction → Option Machine
  | .add dr sr1 operand => do m.assign? dr ((← m.regs.get? sr1) + (← m.operandValue? operand))
  | .and dr sr1 operand => do m.assign? dr ((← m.regs.get? sr1) &&& (← m.operandValue? operand))
  | .not dr sr => do m.assign? dr (~~~ (← m.regs.get? sr))
  | .ld dr offset => do m.assign? dr (← m.mem.read? (m.regs.pcRelative offset))
  | .ldi dr offset => do
    let pointer ← m.mem.read? (m.regs.pcRelative offset)
    m.assign? dr (← m.mem.read? pointer)
  | .ldr dr base offset => do
    m.assign? dr (← m.mem.read? ((← m.regs.get? base).displace offset))
  | .lea dr offset => m.assign? dr (m.regs.pcRelative offset)
  | .st sr offset => do m.store? (m.regs.pcRelative offset) (← m.regs.get? sr)
  | .sti sr offset => do
    let pointer ← m.mem.read? (m.regs.pcRelative offset)
    m.store? pointer (← m.regs.get? sr)
  | .str sr base offset => do
    m.store? ((← m.regs.get? base).displace offset) (← m.regs.get? sr)
  | .br mask offset =>
    if m.regs.cond.isIn mask then some (m.jump (m.regs.pcRelative offset)) else some m
  | .jmp base => do return m.jump (← m.regs.get? base)
  | .jsr target => do
    let address ← m.targetAddress? target
    let regs ← m.regs.set? 7 m.regs.pc
    return { m with regs := regs.jump address }
  | .trap _ | .rti | .res => some m

section

open CheckedTalk

/-- Write a word as PUTSP does: its low byte, and its high byte unless it is zero. -/
def writePacked? (w : Word) : CheckedTalk Unit := do
  plain (Conversation.writeByte w.lowByte)
  let high ← check (w.shiftRight? 8)
  if high.toUInt8 = 0 then pure () else plain (Conversation.writeByte high.toUInt8)

def converse? (m : Machine) : Service → CheckedTalk (Option Word)
  | .getc => plain (m.converse .getc)
  | .out => do
    let word ← check (m.regs.get? 0)
    plain (Conversation.writeByte word.lowByte)
    return none
  | .puts => do
    let start ← check (m.regs.get? 0)
    m.mem.writeText? (fun w => plain (Conversation.writeByte w.lowByte)) start 0 Memory.size
    return none
  | .input => plain (m.converse .input)
  | .putsp => do
    let start ← check (m.regs.get? 0)
    m.mem.writeText? writePacked? start 0 Memory.size
    plain Conversation.flush
    return none
  | .halt => do
    plain Conversation.flush
    let count ← check (nextCount? m.cycles)
    plain (Conversation.report (.halted (m.regs.pc - 1) count))
    return none

end

section

open Checked

def leaving? (m : Machine) : Option Word → Option Machine
  | some value => do
    let regs ← m.regs.set? 0 value
    return { m with regs }
  | none => some m

def afterWork? (m : Machine) :
    Except IoError (Option Word) → Option (Except IoError Unit × Machine)
  | .ok result => do return (.ok (), ← m.leaving? result)
  | .error fault => some (.error fault, m)

def call? (m : Machine) (vector : Byte) : Checked (Except IoError Unit × Machine) :=
  match Service.ofVector? vector with
  | some routine => do
    let outcome ← (m.converse? routine).run
    check ((m.entering routine).afterWork? outcome)
  | none => plain (m.call vector)

def execute? (m : Machine) (i : Instruction) : Checked (Except IoError Unit × Machine) :=
  match i with
  | .trap vector => m.call? vector
  | .rti | .res => plain (m.execute i)
  | .br .. | .add .. | .ld .. | .st .. | .jsr .. | .and .. | .ldr .. | .str .. | .not ..
  | .ldi .. | .sti .. | .jmp .. | .lea .. => do return (.ok (), ← check (m.operate? i))

def finish? (i : Instruction) :
    Except IoError Unit × Machine → Option (Except StepError Instruction × Machine)
  | (.ok (), m) => do return (.ok i, { m with cycles := ← nextCount? m.cycles })
  | (.error fault, m) => some (.error (.console fault), m)

def step? (m : Machine) : Checked (Except StepError Instruction × Machine) :=
  match m.state with
  | .halted => return (.error .notRunning, m)
  | .running => do
    let word ← check (m.mem.read? m.regs.pc)
    let i ← check (Instruction.decode? word)
    plain (note (.executing m.regs.pc word i))
    let outcome ← m.advance.execute? i
    check (finish? i outcome)

def stepsBelow? (limit : UInt64) : Nat → Machine → Checked (Except StepError Unit × Machine)
  | 0, m => return (.ok (), m)
  | fuel + 1, m =>
    if m.state = .running ∧ m.cycles < limit then do
      match ← m.step? with
      | (.ok _, m) => stepsBelow? limit fuel m
      | (.error fault, m) => return (.error fault, m)
    else return (.ok (), m)

def counted? (start : UInt64) :
    Except StepError Unit × Machine → Option (Except StepError UInt64 × Machine)
  | (.ok (), m) => do return (.ok (← countSince? start m.cycles), m)
  | (.error fault, m) => some (.error fault, m)

def runLimited? (m : Machine) (maximum : UInt64) :
    Checked (Except StepError UInt64 × Machine) := do
  let start := m.cycles
  let limit := limitAfter start maximum
  let answer ← stepsBelow? limit (limit - start).toNat m
  check (counted? start answer)

def loadProgram? (m : Machine) (program : Array Word) :
    Checked (Except ProgramTooLarge Unit × Machine) := do
  match ← check (m.mem.load? start program) with
  | .ok mem => do
    plain (note (.programLoaded program.size start))
    return (.ok (), { m with mem })
  | .error refusal => return (.error refusal, m)

end

end Machine

end LittleComputer
