import LittleComputer.Dialogue
import LittleComputer.Event
import LittleComputer.IoError

/-!
# The channel of the machine

What the machine asks of its surroundings: to read a byte, to write one, to flush what was
written, and to take note of an event. A console call may be refused; a note never is. A
conversation is console work that ends at the first refused call with its fault.

There is no request for a run of bytes. Only the prompt of IN is written as a run, and here it
is written byte by byte, as by a console that has no way of its own to write a run. Of a console
that writes it in one call the machine learns as much: either all of it was written, or the call
was refused and is the last one.
-/

namespace LittleComputer

namespace Channel

inductive Request where
  | read
  | write (byte : Byte)
  | flush
  | note (event : Event)
  deriving DecidableEq

@[reducible] def Answer : Request → Type
  | .read => Except IoError (Option Byte)
  | .write _ | .flush => Except IoError Unit
  | .note _ => Unit

end Channel

@[reducible] def Channel : Signature := ⟨Channel.Request, Channel.Answer⟩

def note (event : Event) : Dialogue Channel Unit := .ask (.note event) .done

/-- Console work that ends at the first refused call. -/
abbrev Conversation (α : Type) : Type := ExceptT IoError (Dialogue Channel) α

namespace Conversation

/-- Read one byte; no byte at the end of input. -/
def readByte : Conversation (Option Byte) := ExceptT.mk (.ask .read .done)

def writeByte (byte : Byte) : Conversation Unit := ExceptT.mk (.ask (.write byte) .done)

def flush : Conversation Unit := ExceptT.mk (.ask .flush .done)

def report (event : Event) : Conversation Unit := ExceptT.lift (note event)

theorem run_bind {α β : Type} (talk : Conversation α) (next : α → Conversation β) :
    (talk >>= next).run = talk.run.andThen (ExceptT.bindCont next) := rfl

/-- Write bytes one by one, up to the first that is refused. -/
def writeAll : List Byte → Conversation Unit
  | [] => pure ()
  | byte :: rest => do
    writeByte byte
    writeAll rest

@[simp] theorem writeAll_nil : writeAll [] = pure () := rfl

@[simp] theorem writeAll_cons (byte : Byte) (rest : List Byte) :
    writeAll (byte :: rest) = writeByte byte >>= fun _ => writeAll rest := rfl

theorem writeAll_singleton (byte : Byte) : writeAll [byte] = writeByte byte :=
  bind_pure_unit

theorem writeAll_append (first second : List Byte) :
    writeAll (first ++ second) = writeAll first >>= fun _ => writeAll second := by
  induction first with
  | nil => simp
  | cons byte rest ih => simp [ih]

end Conversation

end LittleComputer
