import LittleComputer.Dialogue
import LittleComputer.IoError
import LittleComputer.Word

/-!
# Output

Writing text to something that may refuse it. Two such things are described: a writer with room
for a number of bytes, and a stream that is buffered by lines in front of a device that may be
full. Writing ends at the first fault.
-/

namespace LittleComputer

namespace Output

inductive Request where
  | put (text : String)
  | flush
  deriving DecidableEq

end Output

/-- Requests for output and their answers. -/
@[reducible] def Output : Signature := ⟨Output.Request, fun _ => Except IoError Unit⟩

namespace Output

/-- Work that writes and ends at the first fault. -/
abbrev Writing (α : Type) : Type := ExceptT IoError (Dialogue Output) α

def put (text : String) : Writing Unit := ExceptT.mk (.ask (.put text) .done)

def flush : Writing Unit := ExceptT.mk (.ask .flush .done)

def putAll : List String → Writing Unit
  | [] => pure ()
  | text :: rest => do
    put text
    putAll rest

end Output

/-- A writer that takes a number of bytes and then refuses, or takes any number. -/
structure BoundedWriter where
  taken : ByteArray
  /-- How many more bytes there is room for, if there is a bound. -/
  room : Option Nat

namespace BoundedWriter

/-- Take as much of a text as there is room for. -/
def put (text : String) (writer : BoundedWriter) : Except IoError Unit × BoundedWriter :=
  let bytes := text.toUTF8
  match writer.room with
  | none => (.ok (), ⟨writer.taken ++ bytes, none⟩)
  | some room =>
    if bytes.size ≤ room then (.ok (), ⟨writer.taken ++ bytes, some (room - bytes.size)⟩)
    else (.error .writerFull, ⟨writer.taken ++ bytes.extract 0 room, some 0⟩)

def handler : Handler Output BoundedWriter
  | .put text, writer => writer.put text
  | .flush, writer => (.ok (), writer)

end BoundedWriter

/-- What a stream leads to. -/
inductive Device where
  | accepting
  | full
  deriving DecidableEq, Repr

/-- A stream that is buffered by lines. -/
structure LineStream where
  device : Device
  delivered : ByteArray
  pending : ByteArray

namespace LineStream

def capacity : Nat := 1024

def ofDevice (device : Device) : LineStream := ⟨device, .empty, .empty⟩

/-- Empty the buffer into the device; an empty buffer needs no space. -/
def flush (stream : LineStream) : Except IoError Unit × LineStream :=
  match stream.device with
  | .accepting => (.ok (), ⟨.accepting, stream.delivered ++ stream.pending, .empty⟩)
  | .full => (if stream.pending.isEmpty then .ok () else .error .noSpace, stream)

def hold (byte : Byte) (stream : LineStream) : LineStream :=
  { stream with pending := stream.pending.push byte }

/-- Write a byte: the end of a line empties the buffer, and so does a byte that finds it full. -/
def write (byte : Byte) (stream : LineStream) : Except IoError Unit × LineStream :=
  if byte = 10 then (stream.hold byte).flush
  else if stream.pending.size < capacity then (.ok (), stream.hold byte)
  else
    match stream.flush with
    | (.ok (), stream) => (.ok (), stream.hold byte)
    | (.error fault, stream) => (.error fault, stream)

def writeAll (stream : LineStream) : List Byte → Except IoError Unit × LineStream
  | [] => (.ok (), stream)
  | byte :: rest =>
    match stream.write byte with
    | (.ok (), stream) => stream.writeAll rest
    | (.error fault, stream) => (.error fault, stream)

def handler : Handler Output LineStream
  | .put text, stream => stream.writeAll text.toUTF8.toList
  | .flush, stream => stream.flush

/-- What the device has received once the stream is closed. -/
def received (stream : LineStream) : ByteArray :=
  match stream.device with
  | .accepting => stream.delivered ++ stream.pending
  | .full => .empty

end LineStream

end LittleComputer
