import LittleComputer.Instruction.Encoding
import LittleComputer.Numeral
import LittleComputer.Service

/-!
# Assembly text

Instructions as an assembler writes them, and listings of consecutive words. The text shows
the fields of the instruction value, also where they do not fit its word. A branch with an
empty mask never branches and is written NOP whatever its offset.
-/

namespace LittleComputer

namespace Assembly

def register (number : Byte) : String := "R" ++ Numeral.decimal number.toNat

def constant (value : Int16) : String := "#" ++ Numeral.decimal value.toInt

def operand : Operand → String
  | .register number => register number
  | .immediate value => constant value

/-- The condition letters of a branch mask, from its highest bit down. -/
def conditions (mask : Byte) : String :=
  let tested := mask.toNat
  String.ofList ((if tested / 4 % 2 = 1 then ['n'] else []) ++
    (if tested / 2 % 2 = 1 then ['z'] else []) ++ (if tested % 2 = 1 then ['p'] else []))

/-- A service call by the routine's name, or by its vector outside the table. -/
def call (vector : Byte) : String :=
  match Service.ofVector? vector with
  | some routine => routine.mnemonic
  | none => "TRAP x" ++ Numeral.hexByte vector

/-- A mnemonic with its operands, separated by commas. -/
def line (mnemonic : String) (operands : List String) : String :=
  mnemonic ++ " " ++ ", ".intercalate operands

end Assembly

open Assembly in
def Instruction.assembly : Instruction → String
  | .add dr sr1 second => line "ADD" [register dr, register sr1, operand second]
  | .and dr sr1 second => line "AND" [register dr, register sr1, operand second]
  | .not dr sr => line "NOT" [register dr, register sr]
  | .ld dr offset => line "LD" [register dr, constant offset]
  | .ldi dr offset => line "LDI" [register dr, constant offset]
  | .ldr dr base offset => line "LDR" [register dr, register base, constant offset]
  | .lea dr offset => line "LEA" [register dr, constant offset]
  | .st sr offset => line "ST" [register sr, constant offset]
  | .sti sr offset => line "STI" [register sr, constant offset]
  | .str sr base offset => line "STR" [register sr, register base, constant offset]
  | .br mask offset =>
    if mask = 0 then "NOP" else line ("BR" ++ conditions mask) [constant offset]
  | .jmp base => if base = 7 then "RET" else line "JMP" [register base]
  | .jsr (.offset offset) => line "JSR" [constant offset]
  | .jsr (.register base) => line "JSRR" [register base]
  | .trap vector => call vector
  | .rti => "RTI"
  | .res => "RES"

namespace Assembly

/-- The assembly text of the instruction in a word. -/
def ofWord (w : Word) : String := (Instruction.decode w).assembly

/-- The line of a listing for a word at an address. -/
def listingLine (address w : Word) : String :=
  "x" ++ Numeral.hexWord address ++ ": " ++ ofWord w ++ "  ; x" ++ Numeral.hexWord w ++ "\n"

/-- A listing of consecutive words behind the text written so far. -/
def appendListing (written : String) (origin : Word) : List Word → String
  | [] => written
  | w :: rest => appendListing (written ++ listingLine origin w) (origin + 1) rest

/-- The listing of words laid out from an origin, wrapping at the top of memory. -/
def listing (origin : Word) (words : List Word) : String := appendListing "" origin words

example : ofWord 0x0DFE = "BRnz #-2" := by decide

example : listingLine 0x3000 0x107D = "x3000: ADD R0, R1, #-3  ; x107D\n" := by decide

theorem appendListing_eq (written : String) (origin : Word) (words : List Word) :
    appendListing written origin words = written ++ listing origin words := by
  induction words generalizing written origin with
  | nil => simp [listing, appendListing]
  | cons w rest ih =>
    simp only [listing, appendListing]
    rw [ih, ih ("" ++ listingLine origin w)]
    simp [String.append_assoc]

theorem listing_cons (origin w : Word) (rest : List Word) :
    listing origin (w :: rest) = listingLine origin w ++ listing (origin + 1) rest := by
  simp only [listing, appendListing]
  rw [appendListing_eq]
  simp [listing]

end Assembly

end LittleComputer
