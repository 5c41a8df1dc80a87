import LittleComputer.Machine.Basic
import LittleComputer.Channel

/-!
# Program images

An image is a program as bytes, two for each word with the high byte first. A last byte that
has no partner is left out, and reported. Loading an image puts its words at the start address
or changes nothing.
-/

namespace LittleComputer

inductive FileError where
  | notFound
  | io (fault : IoError)
  deriving DecidableEq, Repr

inductive ImageError where
  | notFound (path : String)
  | io (path : String) (fault : IoError)
  | tooLarge (refusal : ProgramTooLarge)
  deriving DecidableEq, Repr

namespace ImageError

/-- The failure to read the file at a path. -/
def ofFile (path : String) : FileError → ImageError
  | .notFound => notFound path
  | .io fault => io path fault

def message : ImageError → String
  | notFound path => path ++ ": file not found"
  | io path fault => path ++ ": " ++ fault.message
  | tooLarge refusal => refusal.message

end ImageError

namespace Machine

/-- Put a program at the start address. -/
def load (m : Machine) (program : Array Word) : Except ProgramTooLarge Machine :=
  match m.mem.load start program with
  | .ok mem => .ok { m with mem := mem }
  | .error refusal => .error refusal

/-- Put a program at the start address and report it; a program that does not fit changes
nothing. -/
def loadProgram (m : Machine) (program : Array Word) :
    Dialogue Channel (Except ProgramTooLarge Unit × Machine) :=
  match m.load program with
  | .ok loaded => do
    note (.programLoaded program.size start)
    return (.ok (), loaded)
  | .error refusal => return (.error refusal, m)

end Machine

namespace Image

def defaultPath : String := "out.obj"

/-- The words of an image; a last byte without a partner is left out. -/
def words (bytes : Array Byte) : Array Word :=
  Array.ofFn fun i : Fin (bytes.size / 2) =>
    Word.ofBytes (bytes.getD (2 * i.val) 0) (bytes.getD (2 * i.val + 1) 0)

/-- The bytes of words, each high byte first. -/
def bytes (words : Array Word) : Array Byte :=
  words.flatMap fun w => #[w.highByte, w.lowByte]

/-- The words of an image, with a report if a byte is left out. -/
def parse (bytes : Array Byte) : Dialogue Channel (Array Word) :=
  if bytes.size % 2 = 1 then do
    note (.oddImage bytes.size)
    return words bytes
  else return words bytes

/-- The words of the image in a file, given what reading the file gave. -/
def read (path : String) (contents : Except FileError (Array Byte)) :
    Dialogue Channel (Except ImageError (Array Word)) :=
  match contents with
  | .ok bytes => .ok <$> parse bytes
  | .error failure => return .error (.ofFile path failure)

/-- Load the image in a file, given what reading the file gave, and say how many words it has. -/
def load (m : Machine) (path : String) (contents : Except FileError (Array Byte)) :
    Dialogue Channel (Except ImageError Nat × Machine) := do
  match ← read path contents with
  | .error failure => return (.error failure, m)
  | .ok program =>
    match ← m.loadProgram program with
    | (.error refusal, m) => return (.error (.tooLarge refusal), m)
    | (.ok (), m) =>
      note (.imageLoaded path program.size)
      return (.ok program.size, m)

@[simp] theorem size_words (bytes : Array Byte) : (words bytes).size = bytes.size / 2 := by
  simp [words]

end Image

end LittleComputer
