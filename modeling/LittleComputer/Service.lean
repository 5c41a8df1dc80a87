import LittleComputer.Word

/-!
# Service routines

The routines that a TRAP instruction can call, and the table from vectors to routines. A
vector outside the table names no routine.
-/

namespace LittleComputer

/-- The six service routines, in the order of the table. -/
inductive Service where
  /-- Read one character into R0. -/
  | getc
  /-- Write the low byte of R0. -/
  | out
  /-- Write the string at R0, one character per word. -/
  | puts
  /-- Prompt, read one character, echo it and put it into R0. -/
  | input
  /-- Write the string at R0, two characters per word. -/
  | putsp
  /-- Stop the machine. -/
  | halt
  deriving DecidableEq, Repr

namespace Service

def all : List Service := [getc, out, puts, input, putsp, halt]

def firstVector : Byte := 0x20

def vector : Service → Byte
  | getc => 0x20 | out => 0x21 | puts => 0x22 | input => 0x23 | putsp => 0x24 | halt => 0x25

/-- The routine of a vector. -/
def ofVector? (v : Byte) : Option Service := all.find? fun s => s.vector == v

/-- The assembler's name of a routine. -/
def mnemonic : Service → String
  | getc => "GETC" | out => "OUT" | puts => "PUTS" | input => "IN" | putsp => "PUTSP"
  | halt => "HALT"

def name : Service → String
  | getc => "Getc" | out => "Out" | puts => "Puts" | input => "In" | putsp => "Putsp"
  | halt => "Halt"

/-- What IN writes before it reads. -/
def prompt : String := "Enter a character: "

/-- What GETC and IN leave in R0 at the end of input. -/
def endOfInput : Word := 0xFFFF

@[simp] theorem ofVector?_vector (s : Service) : ofVector? s.vector = some s := by cases s <;> rfl

theorem ofVector?_eq_some_iff {v : Byte} {s : Service} : ofVector? v = some s ↔ v = s.vector := by
  constructor
  · intro h
    have found := List.find?_some h
    exact (beq_iff_eq.mp found).symm
  · rintro rfl
    exact ofVector?_vector s

/-- Every vector of the table has its routine. -/
theorem exists_vector_eq {vector : Byte} (inside : ¬ (vector < 0x20 ∨ 0x25 < vector)) :
    ∃ routine : Service, vector = routine.vector := by
  rw [not_or, UInt8.not_lt, UInt8.not_lt, UInt8.le_iff_toNat_le, UInt8.le_iff_toNat_le] at inside
  have first : (0x20 : Byte).toNat = 32 := rfl
  have last : (0x25 : Byte).toNat = 37 := rfl
  have number : vector.toNat = 32 ∨ vector.toNat = 33 ∨ vector.toNat = 34 ∨ vector.toNat = 35 ∨
      vector.toNat = 36 ∨ vector.toNat = 37 := by omega
  rcases number with h | h | h | h | h | h
  · exact ⟨.getc, UInt8.toNat.inj h⟩
  · exact ⟨.out, UInt8.toNat.inj h⟩
  · exact ⟨.puts, UInt8.toNat.inj h⟩
  · exact ⟨.input, UInt8.toNat.inj h⟩
  · exact ⟨.putsp, UInt8.toNat.inj h⟩
  · exact ⟨.halt, UInt8.toNat.inj h⟩

end Service

end LittleComputer
