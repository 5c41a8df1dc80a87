import LittleComputer.Dump
import LittleComputer.Image

/-!
# Command lines

What the words of a command line ask for. There is one place for an image and two options with
a value; a value stands in the same word as its option or in the next one. Two dashes end the
options. The first word that cannot be understood decides, but a request for the version or for
help that comes before it wins.
-/

namespace LittleComputer.CommandLine

structure Options where
  image : String
  dump : Dump.Format
  /-- The number of instructions after which to stop, if there is one. -/
  maxSteps : Option UInt64
  deriving DecidableEq, Repr

/-- Why a command line cannot be understood. -/
inductive UsageError where
  | unknownOption (word : String)
  | missingValue (name : String)
  | unexpectedValue (name : String)
  | invalidValue (name value : String)
  | repeated (name : String)
  | unexpectedArgument (word : String)
  | emptyImage
  deriving DecidableEq, Repr

def UsageError.message : UsageError → String
  | unknownOption word => "unexpected argument '" ++ word ++ "' found"
  | missingValue name => "a value is required for '--" ++ name ++ "' but none was supplied"
  | unexpectedValue name => "unexpected value for '--" ++ name ++ "' found"
  | invalidValue name value => "invalid value '" ++ value ++ "' for '--" ++ name ++ "'"
  | repeated name => "the argument '--" ++ name ++ "' cannot be used multiple times"
  | unexpectedArgument word => "unexpected argument '" ++ word ++ "' found"
  | emptyImage => "a value is required for '[IMAGE]' but none was supplied"

inductive Request where
  | run (options : Options)
  | version
  | help
  deriving DecidableEq, Repr

/-- What the words read so far have given. -/
structure Given where
  image : Option String
  dump : Option Dump.Format
  maxSteps : Option UInt64

namespace Given

def none : Given := ⟨.none, .none, .none⟩

/-- The options, with the standard value for each that was not given. -/
def options (given : Given) : Options :=
  ⟨given.image.getD Image.defaultPath, given.dump.getD .standard, given.maxSteps⟩

def takeImage (given : Given) (path : String) : Except UsageError Given :=
  if given.image.isSome then .error (.unexpectedArgument path)
  else if path.isEmpty then .error .emptyImage
  else .ok { given with image := some path }

end Given

/-- A number of instructions in decimal, below 2^64, with an optional plus sign. -/
def steps? (value : String) : Option UInt64 := do
  let digits := match value.toList with
    | '+' :: digits => digits
    | digits => digits
  let n ← Numeral.ofDecimal? digits
  if n < UInt64.size then some n.toUInt64 else none

inductive Setting where
  | dump | maxSteps
  deriving DecidableEq, Repr

namespace Setting

def name : Setting → String
  | dump => "dump" | maxSteps => "max-steps"

/-- Give an option its value. -/
def take (setting : Setting) (given : Given) (value : String) : Except UsageError Given :=
  match setting with
  | dump =>
    if given.dump.isSome then .error (.repeated setting.name)
    else match Dump.Format.all.find? fun format => format.option == value with
      | some format => .ok { given with dump := some format }
      | none => .error (.invalidValue setting.name value)
  | maxSteps =>
    if given.maxSteps.isSome then .error (.repeated setting.name)
    else match steps? value with
      | some steps => .ok { given with maxSteps := some steps }
      | none => .error (.invalidValue setting.name value)

end Setting

/-- What one word does. -/
inductive Effect where
  | given (given : Given)
  /-- The next word is the value of an option. -/
  | awaits (setting : Setting)
  /-- The word decides what is asked for. -/
  | asks (request : Request)

/-- The text after the first of a list of characters, if the character is there, and the text
before it. -/
def cut (mark : Char) (word : List Char) : List Char × Option (List Char) :=
  match word.dropWhile (· ≠ mark) with
  | [] => (word, none)
  | _ :: after => (word.takeWhile (· ≠ mark), some after)

/-- A word of two dashes and a name, perhaps with a value. -/
def takeLong (given : Given) (word : List Char) : Except UsageError Effect :=
  let (name, value) := cut '=' word
  let setting (s : Setting) : Except UsageError Effect :=
    match value with
    | some value => .given <$> s.take given (String.ofList value)
    | none => .ok (.awaits s)
  let request (r : Request) : Except UsageError Effect :=
    if value.isSome then .error (.unexpectedValue (String.ofList name)) else .ok (.asks r)
  match String.ofList name with
  | "dump" => setting .dump
  | "max-steps" => setting .maxSteps
  | "version" => request .version
  | "help" => request .help
  | other => .error (.unknownOption ("--" ++ other))

/-- A word of one dash and letters; the rest of the word is the value of an option that takes
one, with or without an equals sign. -/
def takeShort (given : Given) : List Char → Except UsageError Effect
  | [] => .ok (.given given)
  | letter :: rest =>
    let setting (s : Setting) : Except UsageError Effect :=
      match rest with
      | [] => .ok (.awaits s)
      | '=' :: value => .given <$> s.take given (String.ofList value)
      | value => .given <$> s.take given (String.ofList value)
    match letter with
    | 'd' => setting .dump
    | 'm' => setting .maxSteps
    | 'V' => .ok (.asks .version)
    | 'h' => .ok (.asks .help)
    | other => .error (.unknownOption ("-" ++ String.singleton other))

/-- Take one word that is not the value of an option before it. -/
def takeWord (given : Given) (word : String) : Except UsageError Effect :=
  match word.toList with
  | '-' :: '-' :: name => takeLong given name
  | '-' :: letter :: letters => takeShort given (letter :: letters)
  | _ => .given <$> given.takeImage word

/-- Whether a word can be the value of the option before it. -/
def isValue (word : String) : Bool :=
  match word.toList with
  | '-' :: _ :: _ => false
  | _ => true

/-- Read the words of a command line; an option may wait for its value, and after two dashes
every word is an image. -/
def readWords (given : Given) (awaiting : Option Setting) (literal : Bool) :
    List String → Except UsageError Request
  | [] =>
    match awaiting with
    | some setting => .error (.missingValue setting.name)
    | none => .ok (.run given.options)
  | word :: rest =>
    match awaiting with
    | some setting =>
      if isValue word then do
        readWords (← setting.take given word) none false rest
      else .error (.missingValue setting.name)
    | none =>
      if literal then do
        readWords (← given.takeImage word) none true rest
      else if word = "--" then readWords given none true rest
      else do
        match ← takeWord given word with
        | .given given => readWords given none false rest
        | .awaits setting => readWords given (some setting) false rest
        | .asks request => return request

def read (words : List String) : Except UsageError Request := readWords .none none false words

/-- The level up to which events are logged, by its name; `off` logs none, and without a name
warnings are logged. -/
def logThreshold : Option String → Option Level
  | some "off" => none
  | some name => some ((Level.ofName? name).getD .warn)
  | none => some .warn

def versionText : String := "lc3-vm 0.1.0\n"

def usage : String := "Usage: lc3-vm [OPTIONS] [IMAGE]\n"

def helpText : String :=
  "Run a program image on a 16-bit LC-3 style virtual machine\n\n" ++ usage ++
  "\nArguments:\n  [IMAGE]  Path to the raw big-endian image to execute [default: out.obj]\n" ++
  "\nOptions:\n  -d, --dump <DUMP>            How dumps are written: text, json or none" ++
  " [default: text]\n" ++
  "  -m, --max-steps <MAX_STEPS>  Stop after this many instructions\n" ++
  "  -h, --help                   Print help\n  -V, --version                Print version\n"

end LittleComputer.CommandLine
