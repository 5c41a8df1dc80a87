import LittleComputer.Json.Token

/-!
# Writing JSON

A value is written as a sequence of tokens. The compact text is their spellings in a row. The
indented text differs from it in blanks only: each item and member begins a line of its own,
two spaces deeper than the bracket that holds it, and a colon is followed by a space; empty
brackets stay together.
-/

namespace LittleComputer.Json

/-- The token of a key. -/
def keyToken : Option String → Token
  | some name => .text name
  | none => .otherText

/-- The tokens of a key and its colon behind those written so far. -/
def pushKey (written : Array Token) (key : Option String) : Array Token :=
  (written.push (keyToken key)).push .colon

mutual

/-- The tokens of a value behind those written so far. -/
def pushTokens (written : Array Token) : Json → Array Token
  | .null => written.push .null
  | .bool value => written.push (.bool value)
  | .integer value => written.push (.integer value)
  | .otherNumber => written.push .otherNumber
  | .text value => written.push (.text value)
  | .otherText => written.push .otherText
  | .list items => (pushItems (written.push .openList) items).push .closeList
  | .object members => (pushMembers (written.push .openObject) members).push .closeObject

def pushItems (written : Array Token) : List Json → Array Token
  | [] => written
  | item :: rest => pushMoreItems (pushTokens written item) rest

/-- The tokens of the items that follow a first one. -/
def pushMoreItems (written : Array Token) : List Json → Array Token
  | [] => written
  | item :: rest => pushMoreItems (pushTokens (written.push .comma) item) rest

def pushMembers (written : Array Token) : List (Option String × Json) → Array Token
  | [] => written
  | (key, value) :: rest => pushMoreMembers (pushTokens (pushKey written key) value) rest

/-- The tokens of the members that follow a first one. -/
def pushMoreMembers (written : Array Token) : List (Option String × Json) → Array Token
  | [] => written
  | (key, value) :: rest =>
    pushMoreMembers (pushTokens (pushKey (written.push .comma) key) value) rest

end

def tokens (value : Json) : Array Token := pushTokens #[] value

/-- The text of a value without blanks. -/
def compact (value : Json) : String :=
  value.tokens.foldl (fun text token => text ++ token.spelling) ""

/-- Where the indented text stands: how many brackets are open, and whether the last one was
opened just now. -/
structure Margin where
  depth : Nat
  opened : Bool
  deriving DecidableEq, Repr

/-- A new line with two spaces for each open bracket. -/
def Margin.newLine (depth : Nat) : String := "\n" ++ String.ofList (List.replicate (2 * depth) ' ')

/-- The piece of indented text for a token, and where the text stands after it. -/
def Margin.piece (margin : Margin) (token : Token) : String × Margin :=
  let lead := if margin.opened then newLine margin.depth else ""
  match token with
  | .openList | .openObject => (lead ++ token.spelling, ⟨margin.depth + 1, true⟩)
  | .closeList | .closeObject =>
    let inner := margin.depth - 1
    (if margin.opened then token.spelling else newLine inner ++ token.spelling, ⟨inner, false⟩)
  | .comma => (token.spelling ++ newLine margin.depth, ⟨margin.depth, false⟩)
  | .colon => (token.spelling ++ " ", ⟨margin.depth, false⟩)
  | .null | .bool _ | .integer _ | .otherNumber | .text _ | .otherText =>
    (lead ++ token.spelling, ⟨margin.depth, false⟩)

/-- The pieces of indented text for tokens, behind those written so far. -/
def indent (margin : Margin) (written : Array String) : List Token → Array String
  | [] => written
  | token :: rest =>
    match margin.piece token with
    | (piece, margin) => indent margin (written.push piece) rest

/-- The indented text of a value, in pieces. -/
def indentedPieces (value : Json) : Array String := indent ⟨0, false⟩ #[] value.tokens.toList

end LittleComputer.Json
