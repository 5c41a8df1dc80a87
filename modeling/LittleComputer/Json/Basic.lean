/-!
# JSON values

The values that JSON text stands for. A number is kept only if it is written as an integer, and
a string only if its escapes name characters: nothing in this library has another use for the
rest than to pass over it.
-/

namespace LittleComputer

inductive Json where
  | null
  | bool (value : Bool)
  /-- A number written as an integer. -/
  | integer (value : Int)
  /-- A number written with a fraction or an exponent, or as minus zero. -/
  | otherNumber
  | text (value : String)
  /-- A string with an escape for half of a surrogate pair. -/
  | otherText
  | list (items : List Json)
  /-- The members in the order of the text; a key that is no text has no name. -/
  | object (members : List (Option String × Json))
  deriving Repr

namespace Json

def record (members : List (String × Json)) : Json :=
  .object (members.map fun m => (some m.1, m.2))

/-- The values of the named members of an object, each of which must be there once, in the order
of the names; other members are passed over. -/
def members? (names : List String) : Json → Option (List Json)
  | .object members =>
    if members.all fun m => m.1.isSome then
      names.mapM fun name =>
        match members.filter fun m => m.1 == some name with
        | [(_, value)] => some value
        | _ => none
    else none
  | _ => none

/-- The values of the named members of an object; a list with as many items stands for the
object. -/
def fields? (names : List String) : Json → Option (List Json)
  | .list items => if items.length = names.length then some items else none
  | json => json.members? names

/-- The name of a variant and its contents, if it has any. -/
def variant? : Json → Option (String × Json)
  | .text name => some (name, .null)
  | .object [(some name, value)] => some (name, value)
  | _ => none

theorem fields?_of_members? {names : List String} {json : Json} {values : List Json}
    (h : json.members? names = some values) : json.fields? names = some values := by
  cases json with
  | list items => simp [members?] at h
  | null | bool _ | integer _ | otherNumber | text _ | otherText | object _ => exact h

end Json

end LittleComputer
