import LittleComputer.CommandLine.Session

/-!
# The program

The command line of the machine: it reads the words of the command line, holds the session they
ask for with the files and streams of the process, and ends with the session's status. Nothing
is decided here but where a request of the session goes.
-/

namespace LittleComputer.Main

/-- The fault of a failure with a number of the operating system, which may be negated. -/
def faultOfCode (code : UInt32) (failure : IO.Error) : IoError :=
  let number := if code < 0x80000000 then code else 0 - code
  (IoError.ofCode? number.toNat).getD (.other failure.toString)

/-- The fault behind a failure of the process's files and streams. -/
def faultOf (failure : IO.Error) : IoError :=
  match failure with
  | .inappropriateType _ code _ | .resourceExhausted _ code _ | .invalidArgument _ code _ =>
    faultOfCode code failure
  | .otherError code _ => faultOfCode code failure
  | _ => .other failure.toString

/-- The result of an action, with its failure as a fault. -/
def attempt {α : Type} (action : IO α) : IO (Except IoError α) := do
  try
    return .ok (← action)
  catch failure =>
    return .error (faultOf failure)

def contentsOf (path : String) : IO (Except FileError (Array Byte)) := do
  if path.toList.contains '\x00' then return .error (.io .zeroInPath)
  try
    return .ok (← IO.FS.readBinFile path).data
  catch failure =>
    match failure with
    | .noFileOrDirectory .. => return .error .notFound
    | failure => return .error (.io (faultOf failure))

def readByte : IO (Option Byte) := do
  let bytes ← (← IO.getStdin).read 1
  return bytes.data[0]?

/-- Answer a request of a session. -/
def answer (threshold : Option Level) : (request : Session.Request) → IO (Session.Answer request)
  | .contents path => contentsOf path
  | .machine .read => attempt readByte
  | .machine (.write byte) => attempt do (← IO.getStdout).write ⟨#[byte]⟩
  | .machine .flush => attempt do (← IO.getStdout).flush
  | .machine (.note event) => do if event.isKept threshold then IO.eprintln event.line
  | .output (.put text) => attempt do (← IO.getStdout).putStr text
  | .output .flush => attempt do (← IO.getStdout).flush
  | .complain line => IO.eprintln line

/-- Hold a dialogue with the process. -/
def hold {α : Type} (threshold : Option Level) : Dialogue Session α → IO α
  | .done value => return value
  | .ask request next => do hold threshold (next (← answer threshold request))

/-- For how many instructions a machine without a limit is followed. -/
def patience : Nat := 1 <<< 62

/-- Do what a command line asks for, and say with which status the process ends. -/
def serve (threshold : Option Level) (request : CommandLine.Request) : IO Nat := do
  match ← hold threshold (Session.serve patience request) with
  | some status => return status.code
  | none => return Session.Status.consoleFailed.code

end LittleComputer.Main

open LittleComputer in
def main (words : List String) : IO UInt32 := do
  let threshold := CommandLine.logThreshold (← IO.getEnv "RUST_LOG")
  match CommandLine.read words with
  | .ok request => return (← Main.serve threshold request).toUInt32
  | .error failure =>
    IO.eprintln ("error: " ++ failure.message ++ "\n\n" ++ CommandLine.usage)
    return 2
