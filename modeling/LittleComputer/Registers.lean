import LittleComputer.Word

/-!
# Registers and condition flags

Eight general registers, the program counter and one condition flag. The flag is the sign of
the word it was last set from. Register numbers count modulo eight.
-/

namespace LittleComputer

/-- The sign of a word in two's complement. -/
inductive Flag where
  | positive | zero | negative
  deriving DecidableEq, Repr

namespace Flag

/-- All flags, from the lowest mask bit to the highest. -/
def all : List Flag := [positive, zero, negative]

def ofWord (w : Word) : Flag :=
  if w = 0 then zero else if w < 0x8000 then positive else negative

/-- The bit of a branch mask that tests for a flag. -/
def bits : Flag → Nat
  | positive => 1 | zero => 2 | negative => 4

def letter : Flag → Char
  | positive => 'P' | zero => 'Z' | negative => 'N'

def name : Flag → String
  | positive => "Positive" | zero => "Zero" | negative => "Negative"

/-- Whether a branch mask contains a flag. -/
def isIn (flag : Flag) (mask : Byte) : Bool := mask.toNat / flag.bits % 2 == 1

end Flag

structure Registers where
  /-- R0 to R7. -/
  general : Vector Word 8
  pc : Word
  cond : Flag
  deriving DecidableEq, Repr

namespace Registers

/-- All registers zero, with the flag of zero. -/
def initial : Registers := ⟨Vector.replicate 8 0, 0, .zero⟩

/-- The names of the registers, in the order of a listing. -/
def names : List String := ["R0", "R1", "R2", "R3", "R4", "R5", "R6", "R7", "PC", "COND"]

def get (regs : Registers) (number : Byte) : Word :=
  have bound : number.toNat % 8 < 8 := Nat.mod_lt _ (by decide)
  regs.general[number.toNat % 8]

def set (regs : Registers) (number : Byte) (value : Word) : Registers :=
  have bound : number.toNat % 8 < 8 := Nat.mod_lt _ (by decide)
  { regs with general := regs.general.set (number.toNat % 8) value }

def updateFlag (regs : Registers) (number : Byte) : Registers :=
  { regs with cond := .ofWord (regs.get number) }

/-- Put a word into a general register and set the flag from it. -/
def assign (regs : Registers) (number : Byte) (value : Word) : Registers :=
  (regs.set number value).updateFlag number

/-- Continue at an address. -/
def jump (regs : Registers) (address : Word) : Registers := { regs with pc := address }

/-- Move PC to the next address. -/
def advance (regs : Registers) : Registers := regs.jump (regs.pc + 1)

/-- The address at a signed offset from PC. -/
def pcRelative (regs : Registers) (offset : Int16) : Word := regs.pc.displace offset

theorem get_set (regs : Registers) (i j : Byte) (value : Word) :
    (regs.set i value).get j = if i.toNat % 8 = j.toNat % 8 then value else regs.get j := by
  simp only [get, set]
  exact Vector.getElem_set _ _

@[simp] theorem get_set_self (regs : Registers) (i : Byte) (value : Word) :
    (regs.set i value).get i = value := by
  simp [get_set]

theorem get_assign (regs : Registers) (i j : Byte) (value : Word) :
    (regs.assign i value).get j = if i.toNat % 8 = j.toNat % 8 then value else regs.get j :=
  get_set regs i j value

@[simp] theorem pc_assign (regs : Registers) (i : Byte) (value : Word) :
    (regs.assign i value).pc = regs.pc := rfl

@[simp] theorem cond_assign (regs : Registers) (i : Byte) (value : Word) :
    (regs.assign i value).cond = .ofWord value := by
  simp [assign, updateFlag]

@[simp] theorem get_jump (regs : Registers) (address : Word) (i : Byte) :
    (regs.jump address).get i = regs.get i := rfl

theorem ext_get {regs regs' : Registers}
    (general : ∀ number, regs.get number = regs'.get number) (pc : regs.pc = regs'.pc)
    (cond : regs.cond = regs'.cond) : regs = regs' := by
  obtain ⟨general₁, pc₁, cond₁⟩ := regs
  obtain ⟨general₂, pc₂, cond₂⟩ := regs'
  cases pc
  cases cond
  have same : general₁ = general₂ := by
    apply Vector.ext
    intro i bound
    have low : i.toUInt8.toNat % 8 = i := by simp; omega
    have here := general i.toUInt8
    simp only [get, low] at here
    exact here
  rw [same]

end Registers

end LittleComputer
