import LittleComputer.CommandLine.Session
import LittleComputer.FileTree
import LittleComputer.Text.Lines

/-!
# Hosts

The surroundings of a session, in memory: the files below a working directory, a standard input,
a standard output that is buffered by lines, and the lines told to whoever watches. The console
and the dumps share the standard output; log lines and complaints share the lines told, in the
order in which they come. What is told may hold the path of an image, and a path may hold the
end of a line: it is then told as more than one line. A standard input may be a directory, which
can be opened but not read.
-/

namespace LittleComputer

structure Host where
  tree : FileTree
  /-- What is left of the standard input, unless it is a directory. -/
  input : Option (List Byte)
  output : LineStream
  told : Array String

namespace Host

def read (host : Host) : Except IoError (Option Byte) × Host :=
  match host.input with
  | none => (.error .isADirectory, host)
  | some [] => (.ok none, host)
  | some (byte :: rest) => (.ok (some byte), { host with input := some rest })

def onOutput (host : Host) (act : LineStream → Except IoError Unit × LineStream) :
    Except IoError Unit × Host :=
  match host with
  | ⟨tree, input, output, told⟩ =>
    match act output with
    | (answer, output) => (answer, ⟨tree, input, output, told⟩)

/-- Tell a text and end its last line. -/
def tell (host : Host) (text : String) : Host :=
  { host with told := host.told ++ Text.lines (text ++ "\n") }

/-- Answer the requests of a session; events up to a level are told as log lines. -/
def handler (threshold : Option Level) : Handler Session Host
  | .contents path, host => (host.tree.read path, host)
  | .machine .read, host => host.read
  | .machine (.write byte), host => host.onOutput (LineStream.write byte)
  | .machine .flush, host => host.onOutput LineStream.flush
  | .machine (.note event), host =>
    ((), if event.isKept threshold then host.tell event.line else host)
  | .output request, host => host.onOutput (LineStream.handler request)
  | .complain line, host => ((), host.tell line)

end Host

end LittleComputer
