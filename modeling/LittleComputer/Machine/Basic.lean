import LittleComputer.Instruction.Basic
import LittleComputer.Memory
import LittleComputer.Registers

/-!
# The machine and its plain instructions

The machine is a register file, a memory, a run state and a count of finished instructions.
Every instruction other than a service call is a function on machines: it reads all its
operands, then writes. A service call and the reserved instructions change nothing here.
-/

namespace LittleComputer

inductive RunState where
  | running | halted
  deriving DecidableEq, Repr

def RunState.name : RunState → String
  | running => "Running" | halted => "Halted"

structure Machine where
  regs : Registers
  mem : Memory
  state : RunState
  /-- The number of instructions finished so far, modulo 2^64. -/
  cycles : UInt64
  deriving DecidableEq

namespace Machine

/-- Where programs are put and execution begins. -/
def start : Word := 0x3000

/-- A running machine with empty memory, about to execute at the start address. -/
def initial : Machine := ⟨Registers.initial.jump start, .initial, .running, 0⟩

/-- Clear the memory and put everything else back to the beginning. -/
def reset (m : Machine) : Machine :=
  ⟨Registers.initial.jump start, m.mem.clear, .running, 0⟩

def isHalted (m : Machine) : Bool := m.state == .halted

def isRunning (m : Machine) : Bool := m.state == .running

/-- Put a word into a register and set the flag from it. -/
def assign (m : Machine) (number : Byte) (value : Word) : Machine :=
  { m with regs := m.regs.assign number value }

def store (m : Machine) (address value : Word) : Machine :=
  { m with mem := m.mem.write address value }

def jump (m : Machine) (address : Word) : Machine := { m with regs := m.regs.jump address }

/-- Move PC past the instruction it points to. -/
def advance (m : Machine) : Machine := { m with regs := m.regs.advance }

def retire (m : Machine) : Machine := { m with cycles := m.cycles + 1 }

def operandValue (m : Machine) : Operand → Word
  | .register number => m.regs.get number
  | .immediate value => value.toUInt16

def targetAddress (m : Machine) : CallTarget → Word
  | .offset value => m.regs.pcRelative value
  | .register number => m.regs.get number

/-- The address of the cell that LDI and STI use. -/
def pointerAt (m : Machine) (offset : Int16) : Word := m.mem.read (m.regs.pcRelative offset)

/-- The effect of an instruction once PC has moved past it; a service call has none here. -/
def operate (m : Machine) : Instruction → Machine
  | .add dr sr1 operand => m.assign dr (m.regs.get sr1 + m.operandValue operand)
  | .and dr sr1 operand => m.assign dr (m.regs.get sr1 &&& m.operandValue operand)
  | .not dr sr => m.assign dr (~~~ m.regs.get sr)
  | .ld dr offset => m.assign dr (m.mem.read (m.regs.pcRelative offset))
  | .ldi dr offset => m.assign dr (m.mem.read (m.pointerAt offset))
  | .ldr dr base offset => m.assign dr (m.mem.read ((m.regs.get base).displace offset))
  | .lea dr offset => m.assign dr (m.regs.pcRelative offset)
  | .st sr offset => m.store (m.regs.pcRelative offset) (m.regs.get sr)
  | .sti sr offset => m.store (m.pointerAt offset) (m.regs.get sr)
  | .str sr base offset => m.store ((m.regs.get base).displace offset) (m.regs.get sr)
  | .br mask offset =>
    if m.regs.cond.isIn mask then m.jump (m.regs.pcRelative offset) else m
  | .jmp base => m.jump (m.regs.get base)
  | .jsr target =>
    let address := m.targetAddress target
    { m with regs := (m.regs.set 7 m.regs.pc).jump address }
  | .trap _ | .rti | .res => m

@[simp] theorem state_operate (m : Machine) (i : Instruction) : (m.operate i).state = m.state := by
  cases i <;> try rfl
  simp only [operate]
  split <;> rfl

@[simp] theorem cycles_operate (m : Machine) (i : Instruction) :
    (m.operate i).cycles = m.cycles := by
  cases i <;> try rfl
  simp only [operate]
  split <;> rfl

end Machine

end LittleComputer
