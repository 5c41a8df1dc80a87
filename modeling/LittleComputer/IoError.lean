/-!
# Input and output faults

What can go wrong outside the machine: a console call, a file or an output stream that
refuses. Faults are named by cause; their wording is in one place.
-/

namespace LittleComputer

/-- The three calls of a console. -/
inductive Call where
  | read | write | flush
  deriving DecidableEq, Repr

def Call.name : Call → String
  | read => "read" | write => "write" | flush => "flush"

/-- A fault of input or output. -/
inductive IoError where
  | notADirectory
  | isADirectory
  | noSpace
  /-- A path or one of its names is too long. -/
  | nameTooLong
  /-- A path contains a zero byte. -/
  | zeroInPath
  | refused (call : Call)
  | writerFull
  /-- Another fault, with its wording. -/
  | other (message : String)
  deriving DecidableEq, Repr

namespace IoError

/-- The fault with a number of the operating system, if it is one of those with a name here. -/
def ofCode? : Nat → Option IoError
  | 20 => some notADirectory
  | 21 => some isADirectory
  | 28 => some noSpace
  | 36 => some nameTooLong
  | _ => none

def message : IoError → String
  | notADirectory => "Not a directory (os error 20)"
  | isADirectory => "Is a directory (os error 21)"
  | noSpace => "No space left on device (os error 28)"
  | nameTooLong => "File name too long (os error 36)"
  | zeroInPath => "file name contained an unexpected NUL byte"
  | refused call => call.name ++ " refused"
  | writerFull => "writer full"
  | other text => text

end IoError

end LittleComputer
