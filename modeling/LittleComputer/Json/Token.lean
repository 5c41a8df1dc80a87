import LittleComputer.Json.Basic
import LittleComputer.Numeral

/-!
# JSON tokens

The smallest pieces of JSON text: brackets, separators and scalar values. Every token has a
spelling; text is cut into tokens from left to right, with blanks between them left out.
-/

namespace LittleComputer.Json

/-- A piece of JSON text. -/
inductive Token where
  | openList | closeList | openObject | closeObject | comma | colon
  | null
  | bool (value : Bool)
  | integer (value : Int)
  | otherNumber
  | text (value : String)
  | otherText
  deriving DecidableEq, Repr

/-- The spelling of a character inside a string. -/
def escaped (c : Char) : List Char :=
  if c = '"' then ['\\', '"']
  else if c = '\\' then ['\\', '\\']
  else if c = '\n' then ['\\', 'n']
  else if c = '\r' then ['\\', 'r']
  else if c = '\t' then ['\\', 't']
  else if c.toNat = 8 then ['\\', 'b']
  else if c.toNat = 12 then ['\\', 'f']
  else if c.toNat < 32 then
    ['\\', 'u', '0', '0', Nat.digitChar (c.toNat / 16), Nat.digitChar (c.toNat % 16)]
  else [c]

def quoted (value : String) : String :=
  "\"" ++ String.ofList (value.toList.flatMap escaped) ++ "\""

def Token.spelling : Token → String
  | openList => "["
  | closeList => "]"
  | openObject => "\x7b"
  | closeObject => "\x7d"
  | comma => ","
  | colon => ":"
  | null => "null"
  | bool true => "true"
  | bool false => "false"
  | integer value => Numeral.decimal value
  | otherNumber => "-0"
  | text value => quoted value
  | otherText => "\"\\ud800\""

def isBlank (c : Char) : Bool := c == ' ' || c == '\n' || c == '\t' || c == '\r'

/-- A part of a string: a character, or a sixteen-bit unit given by an escape. -/
inductive TextUnit where
  | char (c : Char)
  | unit (n : Nat)
  deriving DecidableEq, Repr

def hexValue? (c : Char) : Option Nat :=
  if c.isDigit then some (c.toNat - 48)
  else if 97 ≤ c.toNat ∧ c.toNat ≤ 102 then some (c.toNat - 87)
  else if 65 ≤ c.toNat ∧ c.toNat ≤ 70 then some (c.toNat - 55)
  else none

/-- The unit named by four hexadecimal digits. -/
def unitOfDigits? (a b c d : Char) : Option TextUnit := do
  let a ← hexValue? a
  let b ← hexValue? b
  let c ← hexValue? c
  let d ← hexValue? d
  return .unit (a * 4096 + b * 256 + c * 16 + d)

/-- The character of a one-letter escape. -/
def simpleEscape? : Char → Option Char
  | '"' => some '"'
  | '\\' => some '\\'
  | '/' => some '/'
  | 'b' => some (Char.ofNat 8)
  | 'f' => some (Char.ofNat 12)
  | 'n' => some '\n'
  | 'r' => some '\r'
  | 't' => some '\t'
  | _ => none

/-- The units of a string up to its closing quote, behind those found so far in reverse, and the
text after the quote. -/
def textUnits? (found : List TextUnit) : List Char → Option (List TextUnit × List Char)
  | [] => none
  | '"' :: rest => some (found.reverse, rest)
  | '\\' :: 'u' :: a :: b :: c :: d :: rest =>
    match unitOfDigits? a b c d with
    | some unit => textUnits? (unit :: found) rest
    | none => none
  | '\\' :: e :: rest =>
    match simpleEscape? e with
    | some c => textUnits? (.char c :: found) rest
    | none => none
  | c :: rest => if c.toNat < 32 ∨ c = '\\' then none else textUnits? (.char c :: found) rest

/-- Whether a sixteen-bit unit is the first half of a surrogate pair. -/
def isHighHalf (n : Nat) : Bool := 0xD800 ≤ n && n < 0xDC00

/-- Whether a sixteen-bit unit is the second half of a surrogate pair. -/
def isLowHalf (n : Nat) : Bool := 0xDC00 ≤ n && n < 0xE000

/-- The characters of units, behind those found so far in reverse; units that are half of a pair
without the other half name none. -/
def charsOfUnits? (found : List Char) : List TextUnit → Option (List Char)
  | [] => some found.reverse
  | .char c :: rest => charsOfUnits? (c :: found) rest
  | .unit n :: rest =>
    if isLowHalf n then none
    else if isHighHalf n then
      match rest with
      | .unit m :: rest =>
        if isLowHalf m then
          charsOfUnits? (Char.ofNat (0x10000 + (n - 0xD800) * 0x400 + (m - 0xDC00)) :: found) rest
        else none
      | _ => none
    else charsOfUnits? (Char.ofNat n :: found) rest

/-- The token of the units of a string. -/
def tokenOfUnits (units : List TextUnit) : Token :=
  match charsOfUnits? [] units with
  | some chars => .text (String.ofList chars)
  | none => .otherText

/-- The integer part of a number: a lone zero, or digits that do not begin with zero. -/
def integerPart? : List Char → Option (List Char × List Char)
  | '0' :: rest => some (['0'], rest)
  | source =>
    let digits := source.takeWhile Char.isDigit
    if digits.isEmpty then none else some (digits, source.drop digits.length)

/-- The text after a run of digits, which must not be empty. -/
def afterDigits? (source : List Char) : Option (List Char) :=
  let digits := source.takeWhile Char.isDigit
  if digits.isEmpty then none else some (source.drop digits.length)

/-- The text after the exponent of a number, if it has one, and whether it has. -/
def exponent? : List Char → Option (Bool × List Char)
  | c :: rest =>
    if c = 'e' ∨ c = 'E' then
      let digits := match rest with
        | '+' :: digits | '-' :: digits => digits
        | digits => digits
      (afterDigits? digits).map (true, ·)
    else some (false, c :: rest)
  | [] => some (false, [])

/-- The text after the fraction and the exponent of a number, and whether it has either. -/
def fraction? : List Char → Option (Bool × List Char)
  | '.' :: rest => do
    let rest ← afterDigits? rest
    let (_, rest) ← exponent? rest
    return (true, rest)
  | source => exponent? source

/-- The number at the beginning of a text without its sign, and the text after it. -/
def number? (negative : Bool) (source : List Char) : Option (Token × List Char) := do
  let (digits, rest) ← integerPart? source
  let (fractional, rest) ← fraction? rest
  let magnitude := Nat.ofDigitChars 10 digits 0
  if fractional ∨ (negative ∧ magnitude = 0) then return (.otherNumber, rest)
  else return (.integer (if negative then -magnitude else magnitude), rest)

/-- The token at the beginning of a text, and the text after it. -/
def token? : List Char → Option (Token × List Char)
  | '[' :: rest => some (.openList, rest)
  | ']' :: rest => some (.closeList, rest)
  | '\x7b' :: rest => some (.openObject, rest)
  | '\x7d' :: rest => some (.closeObject, rest)
  | ',' :: rest => some (.comma, rest)
  | ':' :: rest => some (.colon, rest)
  | 'n' :: 'u' :: 'l' :: 'l' :: rest => some (.null, rest)
  | 't' :: 'r' :: 'u' :: 'e' :: rest => some (.bool true, rest)
  | 'f' :: 'a' :: 'l' :: 's' :: 'e' :: rest => some (.bool false, rest)
  | '"' :: rest => (textUnits? [] rest).map fun (units, rest) => (tokenOfUnits units, rest)
  | '-' :: rest => number? true rest
  | source => number? false source

/-- The tokens of a text behind those found so far; every turn takes at least one character, so
the length of the text is enough fuel. -/
def scan (found : Array Token) : Nat → List Char → Option (Array Token)
  | _, [] => some found
  | 0, _ :: _ => none
  | fuel + 1, c :: rest =>
    if isBlank c then scan found fuel rest
    else
      match token? (c :: rest) with
      | some (token, rest) => scan (found.push token) fuel rest
      | none => none

/-- The tokens of a text, if it is made of tokens and blanks. -/
def tokens? (source : String) : Option (Array Token) :=
  let chars := source.toList
  scan #[] chars.length chars

end LittleComputer.Json
