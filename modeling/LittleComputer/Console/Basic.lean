import LittleComputer.Channel

/-!
# Consoles

A console answers the three calls of the machine, with a state of any type. Each answer may be
a fault. A run of bytes is written by single writes; a console that takes a run in one call is
seen here by its answers to these. Answering the machine's requests by a console leaves out its
notes or collects those that a log keeps.
-/

namespace LittleComputer

/-- Answers to the three console calls, with a state. -/
structure Console (σ : Type) where
  read : σ → Except IoError (Option Byte) × σ
  write : Byte → σ → Except IoError Unit × σ
  flush : σ → Except IoError Unit × σ

namespace Console

variable {σ : Type}

/-- Answer the machine's requests by a console and pass over its notes. -/
def handler (console : Console σ) : Handler Channel σ
  | .read, state => console.read state
  | .write byte, state => console.write byte state
  | .flush, state => console.flush state
  | .note _, state => ((), state)

/-- Answer the machine's requests by a console and collect the notes up to a level. -/
def loggingHandler (console : Console σ) (threshold : Option Level) :
    Handler Channel (σ × Array Event)
  | .read, (state, log) =>
    match console.read state with
    | (answer, state) => (answer, state, log)
  | .write byte, (state, log) =>
    match console.write byte state with
    | (answer, state) => (answer, state, log)
  | .flush, (state, log) =>
    match console.flush state with
    | (answer, state) => (answer, state, log)
  | .note event, (state, log) =>
    ((), state, if event.isKept threshold then log.push event else log)

end Console

end LittleComputer
