import LittleComputer.Json.Reader
import LittleComputer.Json.Writer
import LittleComputer.Machine.Basic
import LittleComputer.Service

/-!
# JSON forms of the machine's types

How machines and their parts are written as JSON values and read back. A number must be in the
range of its type. A record is an object with its fields in a fixed order, of which the reader
takes any order, and also a list of the fields. A variant without fields is its name, any other
an object with the name as its only key. Instructions can also be read by a stricter rule, by
which the fields must have their names.
-/

namespace LittleComputer

/-- Types with a JSON form. -/
class Exchange (α : Type) where
  toJson : α → Json
  ofJson? : Json → Option α

export Exchange (toJson ofJson?)

namespace Exchange

def toText {α : Type} [Exchange α] (value : α) : String := (toJson value).compact

def ofText? {α : Type} [Exchange α] (text : String) : Option α := do
  let json ← Json.parse? text
  ofJson? json

/-- An integer from 0 up to, but not including, a bound. -/
def naturalBelow? (bound : Nat) : Json → Option Nat
  | .integer value => if 0 ≤ value ∧ value < bound then some value.toNat else none
  | _ => none

/-- The value with a given name among some values. -/
def named? {α : Type} (values : List α) (name : α → String) (wanted : String) : Option α :=
  values.find? fun value => name value == wanted

/-- A variant without fields, by its name. -/
def ofName? {α : Type} (values : List α) (name : α → String) (json : Json) : Option α := do
  match ← json.variant? with
  | (wanted, .null) => named? values name wanted
  | _ => none

/-- A variant with contents. -/
def variant (name : String) (contents : Json) : Json := .record [(name, contents)]

end Exchange

open Exchange

instance : Exchange UInt8 where
  toJson b := .integer b.toNat
  ofJson? json := (naturalBelow? UInt8.size json).map Nat.toUInt8

instance : Exchange UInt16 where
  toJson w := .integer w.toNat
  ofJson? json := (naturalBelow? UInt16.size json).map Nat.toUInt16

instance : Exchange UInt64 where
  toJson n := .integer n.toNat
  ofJson? json := (naturalBelow? UInt64.size json).map Nat.toUInt64

instance : Exchange Int16 where
  toJson v := .integer v.toInt
  ofJson?
    | .integer value =>
      if -32768 ≤ value ∧ value < 32768 then some (Int16.ofInt value) else none
    | _ => none

instance {α : Type} [Exchange α] : Exchange (List α) where
  toJson items := .list (items.map toJson)
  ofJson?
    | .list items => items.mapM ofJson?
    | _ => none

instance : Exchange Opcode where
  toJson op := .text op.name
  ofJson? := ofName? Opcode.all Opcode.name

instance : Exchange Service where
  toJson routine := .text routine.name
  ofJson? := ofName? Service.all Service.name

instance : Exchange Flag where
  toJson flag := .text flag.name
  ofJson? := ofName? Flag.all Flag.name

instance : Exchange RunState where
  toJson state := .text state.name
  ofJson? := ofName? [.running, .halted] RunState.name

instance : Exchange Operand where
  toJson
    | .register number => variant "Register" (toJson number)
    | .immediate value => variant "Immediate" (toJson value)
  ofJson? json := do
    match ← json.variant? with
    | ("Register", contents) => return .register (← ofJson? contents)
    | ("Immediate", contents) => return .immediate (← ofJson? contents)
    | _ => none

instance : Exchange CallTarget where
  toJson
    | .offset value => variant "Offset" (toJson value)
    | .register number => variant "Register" (toJson number)
  ofJson? json := do
    match ← json.variant? with
    | ("Offset", contents) => return .offset (← ofJson? contents)
    | ("Register", contents) => return .register (← ofJson? contents)
    | _ => none

namespace Instruction

/-- The names of the fields of the instructions of an operation. -/
def fieldNames : Opcode → List String
  | .br => ["mask", "offset"]
  | .add | .and => ["dr", "sr1", "operand"]
  | .ld | .ldi | .lea => ["dr", "offset"]
  | .st | .sti => ["sr", "offset"]
  | .jsr => ["target"]
  | .ldr => ["dr", "base", "offset"]
  | .str => ["sr", "base", "offset"]
  | .not => ["dr", "sr"]
  | .jmp => ["base"]
  | .trap => ["vector"]
  | .rti | .res => []

def fieldValues : Instruction → List Json
  | br mask offset => [toJson mask, toJson offset]
  | add dr sr1 operand | and dr sr1 operand => [toJson dr, toJson sr1, toJson operand]
  | ld r offset | ldi r offset | lea r offset | st r offset | sti r offset =>
    [toJson r, toJson offset]
  | jsr target => [toJson target]
  | ldr r base offset | str r base offset => [toJson r, toJson base, toJson offset]
  | not dr sr => [toJson dr, toJson sr]
  | jmp base => [toJson base]
  | trap vector => [toJson vector]
  | rti | res => []

/-- The instruction of an operation with the given fields. -/
def ofFields? : Opcode → List Json → Option Instruction
  | .br, [mask, offset] => return .br (← ofJson? mask) (← ofJson? offset)
  | .add, [dr, sr1, operand] => return .add (← ofJson? dr) (← ofJson? sr1) (← ofJson? operand)
  | .and, [dr, sr1, operand] => return .and (← ofJson? dr) (← ofJson? sr1) (← ofJson? operand)
  | .ld, [dr, offset] => return .ld (← ofJson? dr) (← ofJson? offset)
  | .ldi, [dr, offset] => return .ldi (← ofJson? dr) (← ofJson? offset)
  | .lea, [dr, offset] => return .lea (← ofJson? dr) (← ofJson? offset)
  | .st, [sr, offset] => return .st (← ofJson? sr) (← ofJson? offset)
  | .sti, [sr, offset] => return .sti (← ofJson? sr) (← ofJson? offset)
  | .jsr, [target] => return .jsr (← ofJson? target)
  | .ldr, [dr, base, offset] => return .ldr (← ofJson? dr) (← ofJson? base) (← ofJson? offset)
  | .str, [sr, base, offset] => return .str (← ofJson? sr) (← ofJson? base) (← ofJson? offset)
  | .not, [dr, sr] => return .not (← ofJson? dr) (← ofJson? sr)
  | .jmp, [base] => return .jmp (← ofJson? base)
  | .trap, [vector] => return .trap (← ofJson? vector)
  | _, _ => none

def toJsonForm (i : Instruction) : Json :=
  match i with
  | rti | res => .text i.opcode.name
  | br .. | add .. | ld .. | st .. | jsr .. | and .. | ldr .. | str .. | not .. | ldi .. | sti ..
  | jmp .. | lea .. | trap .. =>
    variant i.opcode.name (.record ((fieldNames i.opcode).zip i.fieldValues))

/-- The instruction of a variant, given a way to find its fields by their names. -/
def ofVariant? (fields? : List String → Json → Option (List Json)) (json : Json) :
    Option Instruction := do
  let (wanted, contents) ← json.variant?
  match ← named? Opcode.all Opcode.name wanted, contents with
  | .rti, .null => return .rti
  | .res, .null => return .res
  | .rti, _ | .res, _ => none
  | op, contents => ofFields? op (← fields? (fieldNames op) contents)

def ofJsonForm? (json : Json) : Option Instruction := ofVariant? Json.fields? json

/-- The instruction with a JSON form that names each field; a list does not. -/
def ofNamedForm? (json : Json) : Option Instruction := ofVariant? Json.members? json

instance : Exchange Instruction := ⟨toJsonForm, ofJsonForm?⟩

/-- The stricter rule reads nothing else. -/
theorem ofJsonForm?_of_ofNamedForm? {json : Json} {i : Instruction}
    (h : ofNamedForm? json = some i) : ofJsonForm? json = some i := by
  unfold ofNamedForm? ofVariant? at h
  unfold ofJsonForm? ofVariant?
  obtain ⟨⟨wanted, contents⟩, hv, h⟩ := Option.bind_eq_some_iff.1 h
  obtain ⟨op, hn, h⟩ := Option.bind_eq_some_iff.1 h
  simp only [hv, hn, Option.bind_eq_bind, Option.bind_some] at h ⊢
  split at h
  · exact h
  · exact h
  · exact h
  · exact h
  · obtain ⟨values, hm, h⟩ := Option.bind_eq_some_iff.1 h
    simp only [Json.fields?_of_members? hm, Option.bind_some]
    exact h

example : toText (jsr (.offset 2)) = "\x7b\"Jsr\":\x7b\"target\":\x7b\"Offset\":2\x7d\x7d\x7d" := by
  decide

end Instruction

def eightWords? (json : Json) : Option (Vector Word 8) := do
  let words : List Word ← ofJson? json
  if h : words.toArray.size = 8 then some ⟨words.toArray, h⟩ else none

instance : Exchange Registers where
  toJson regs := .record
    [("r", toJson regs.general.toList), ("pc", toJson regs.pc), ("cond", toJson regs.cond)]
  ofJson? json := do
    match ← json.fields? ["r", "pc", "cond"] with
    | [general, pc, cond] => return ⟨← eightWords? general, ← ofJson? pc, ← ofJson? cond⟩
    | _ => none

instance : Exchange Memory where
  toJson mem := .record [("cells", toJson mem.cells.toList)]
  ofJson? json := do
    match ← json.fields? ["cells"] with
    | [cells] =>
      let words : List Word ← ofJson? cells
      return ⟨words.toArray⟩
    | _ => none

instance : Exchange Machine where
  toJson m := .record
    [("regs", toJson m.regs), ("mem", toJson m.mem), ("state", toJson m.state),
      ("cycles", toJson m.cycles)]
  ofJson? json := do
    match ← json.fields? ["regs", "mem", "state", "cycles"] with
    | [regs, mem, state, cycles] =>
      return ⟨← ofJson? regs, ← ofJson? mem, ← ofJson? state, ← ofJson? cycles⟩
    | _ => none

end LittleComputer
