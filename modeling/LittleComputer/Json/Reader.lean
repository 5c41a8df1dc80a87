import LittleComputer.Json.Token

/-!
# Reading JSON

Tokens are put together to a value by a stack of unfinished lists and objects. The reader takes
one token after the other and refuses one that cannot come next. At the end there must be one
value and nothing unfinished.
-/

namespace LittleComputer.Json

/-- An unfinished list or object, with its finished parts in reverse. -/
inductive Frame where
  /-- A list that waits for its next item. -/
  | list (before : List Json)
  /-- An object that waits for the value of a key. -/
  | object (before : List (Option String × Json)) (key : Option String)

/-- What the reader has and what may come next. -/
inductive Reading where
  /-- A value must come. -/
  | wantValue (outer : List Frame)
  /-- A list was opened: a value or its end must come. -/
  | wantItem (outer : List Frame)
  /-- An object was opened: a key or its end must come. -/
  | wantFirstKey (outer : List Frame)
  /-- After a comma in an object a key must come. -/
  | wantKey (before : List (Option String × Json)) (outer : List Frame)
  /-- After a key a colon must come. -/
  | wantColon (before : List (Option String × Json)) (key : Option String) (outer : List Frame)
  /-- A value is finished: a comma or the end of what holds it must come. -/
  | finished (value : Json) (outer : List Frame)

def scalar? : Token → Option Json
  | .null => some .null
  | .bool value => some (.bool value)
  | .integer value => some (.integer value)
  | .otherNumber => some .otherNumber
  | .text value => some (.text value)
  | .otherText => some .otherText
  | .openList | .closeList | .openObject | .closeObject | .comma | .colon => none

def key? : Token → Option (Option String)
  | .text value => some (some value)
  | .otherText => some none
  | _ => none

def Reading.begin (outer : List Frame) : Token → Option Reading
  | .openList => some (.wantItem outer)
  | .openObject => some (.wantFirstKey outer)
  | token => (scalar? token).map (.finished · outer)

/-- Go on after a finished value. -/
def Reading.resume (value : Json) : List Frame → Token → Option Reading
  | .list before :: outer, .comma => some (.wantValue (.list (value :: before) :: outer))
  | .list before :: outer, .closeList => some (.finished (.list (value :: before).reverse) outer)
  | .object before key :: outer, .comma => some (.wantKey ((key, value) :: before) outer)
  | .object before key :: outer, .closeObject =>
    some (.finished (.object ((key, value) :: before).reverse) outer)
  | _, _ => none

def Reading.take : Reading → Token → Option Reading
  | .wantValue outer, token => begin outer token
  | .wantItem outer, .closeList => some (.finished (.list []) outer)
  | .wantItem outer, token => begin (.list [] :: outer) token
  | .wantFirstKey outer, .closeObject => some (.finished (.object []) outer)
  | .wantFirstKey outer, token => (key? token).map fun key => .wantColon [] key outer
  | .wantKey before outer, token => (key? token).map fun key => .wantColon before key outer
  | .wantColon before key outer, token =>
    if token = .colon then some (.wantValue (.object before key :: outer)) else none
  | .finished value outer, token => resume value outer token

/-- The value of a reader that has taken all tokens. -/
def Reading.result? : Reading → Option Json
  | .finished value [] => some value
  | _ => none

def ofTokens? (tokens : List Token) : Option Json := do
  let reading ← tokens.foldlM Reading.take (.wantValue [])
  reading.result?

/-- The value of a text, if the text is one JSON value. -/
def parse? (text : String) : Option Json := do
  let tokens ← tokens? text
  ofTokens? tokens.toList

end LittleComputer.Json
