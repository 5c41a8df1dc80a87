import LittleComputer.CommandLine.Options
import LittleComputer.Machine.Run

/-!
# Sessions

A session loads an image, dumps the loaded machine, runs it and dumps it again. It talks to the
file system, to the machine's console, to an output for the dumps and to whoever reads its
complaints. What it could not do is told by its exit status: 1 if the image cannot be loaded or
a dump cannot be written, 2 if the console fails. A command line that asks for a text is served
without an image, and succeeds even if the text cannot be written.
-/

namespace LittleComputer

namespace Session

inductive Request where
  | contents (path : String)
  | machine (request : Channel.Request)
  | output (request : Output.Request)
  | complain (line : String)
  deriving DecidableEq

@[reducible] def Answer : Request → Type
  | .contents _ => Except FileError (Array Byte)
  | .machine request => Channel.Answer request
  | .output _ => Except IoError Unit
  | .complain _ => Unit

end Session

@[reducible] def Session : Signature := ⟨Session.Request, Session.Answer⟩

namespace Session

open CommandLine (Options)

def contents (path : String) : Dialogue Session (Except FileError (Array Byte)) :=
  .ask (.contents path) .done

/-- Let the machine talk. -/
def onChannel {α : Type} (work : Dialogue Channel α) : Dialogue Session α :=
  work.relay fun request => .ask (.machine request) .done

def onOutput {α : Type} (work : Output.Writing α) : Dialogue Session (Except IoError α) :=
  Dialogue.relay (fun request => .ask (.output request) .done) work.run

def complain (line : String) : Dialogue Session Unit := .ask (.complain line) .done

/-- The exit status of a session. -/
inductive Status where
  | success
  /-- The image could not be loaded or a dump could not be written. -/
  | unavailable
  /-- The console failed. -/
  | consoleFailed
  deriving DecidableEq, Repr

def Status.code : Status → Nat
  | success => 0 | unavailable => 1 | consoleFailed => 2

/-- Write and send on a dump; a failure is told and ends the session. -/
def dump (m : Machine) (stage : Dump.Stage) (format : Dump.Format) :
    Dialogue Session (Except Status Unit) := do
  let work : Output.Writing Unit := do
    Dump.write m stage format
    Output.flush
  match ← onOutput work with
  | .ok () => return .ok ()
  | .error fault =>
    complain ("❌ Failed to write dump: " ++ fault.message)
    return .error .unavailable

/-- Run the machine, with a limit if there is one; without a limit it is followed for `fuel`
instructions. -/
def execute (options : Options) (fuel : Nat) (m : Machine) :
    Dialogue Channel (Option (Except StepError UInt64 × Machine)) :=
  match options.maxSteps with
  | some maximum => some <$> m.runLimited maximum
  | none => m.run fuel

def failureLine (m : Machine) (failure : StepError) : String :=
  "❌ CPU error at PC=x" ++ Numeral.hexWord m.regs.pc ++ ": " ++ failure.message

/-- What is told when the limit has stopped the machine. -/
def limitLine (options : Options) : String :=
  "⚠️  Reached max steps limit (" ++ (options.maxSteps.getD 0).toNat.repr ++ ") without HALT."

/-- The end of a session, after the run. -/
def conclude (options : Options) :
    Except StepError UInt64 × Machine → Dialogue Session Status
  | (.error failure, m) => do
    complain (failureLine m failure)
    return .consoleFailed
  | (.ok _, m) => do
    if m.isRunning then complain (limitLine options)
    match ← dump m (.afterRun m) options.dump with
    | .ok () => return .success
    | .error status => return status

/-- A whole session; without an answer if the machine runs longer than it is followed. -/
def run (options : Options) (fuel : Nat) : Dialogue Session (Option Status) := do
  let found ← contents options.image
  match ← onChannel (Image.load .initial options.image found) with
  | (.error failure, _) =>
    complain ("❌ Cannot load image: " ++ failure.message)
    return some .unavailable
  | (.ok _, m) =>
    match ← dump m .afterLoad options.dump with
    | .error status => return some status
    | .ok () =>
      match ← onChannel (execute options fuel m) with
      | none => return none
      | some outcome => some <$> conclude options outcome

/-- Write a text that was asked for; nobody is told if it cannot be written. -/
def display (text : String) : Dialogue Session (Option Status) := do
  let _ ← onOutput (Output.put text)
  return some .success

def serve (fuel : Nat) : CommandLine.Request → Dialogue Session (Option Status)
  | .version => display CommandLine.versionText
  | .help => display CommandLine.helpText
  | .run options => run options fuel

end Session

end LittleComputer
