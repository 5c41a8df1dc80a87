import LittleComputer.Word

/-!
# Text of bytes that may not be text

Bytes are read as UTF-8. Where they are not, each longest beginning of a character, or else each
single byte, becomes one replacement character, and reading goes on with the next byte.
-/

namespace LittleComputer.Text

/-- A character that is not complete yet. -/
structure Partial where
  /-- The bits read so far. -/
  bits : Nat
  /-- How many bytes are missing. -/
  missing : Nat
  /-- The least next byte. -/
  low : Nat
  /-- The greatest next byte. -/
  high : Nat

/-- The characters read so far, in reverse, and the one that is not complete. -/
structure Lossy where
  found : List Char
  pending : Option Partial

/-- Stands for bytes that are no character. -/
def replacement : Char := Char.ofNat 0xFFFD

namespace Lossy

/-- Begin a character with a byte. -/
def start (found : List Char) (b : Nat) : Lossy :=
  if b < 0x80 then ⟨Char.ofNat b :: found, none⟩
  else if 0xC2 ≤ b ∧ b ≤ 0xDF then ⟨found, some ⟨b - 0xC0, 1, 0x80, 0xBF⟩⟩
  else if b = 0xE0 then ⟨found, some ⟨0, 2, 0xA0, 0xBF⟩⟩
  else if b = 0xED then ⟨found, some ⟨0xD, 2, 0x80, 0x9F⟩⟩
  else if 0xE1 ≤ b ∧ b ≤ 0xEF then ⟨found, some ⟨b - 0xE0, 2, 0x80, 0xBF⟩⟩
  else if b = 0xF0 then ⟨found, some ⟨0, 3, 0x90, 0xBF⟩⟩
  else if b = 0xF4 then ⟨found, some ⟨4, 3, 0x80, 0x8F⟩⟩
  else if 0xF1 ≤ b ∧ b ≤ 0xF3 then ⟨found, some ⟨b - 0xF0, 3, 0x80, 0xBF⟩⟩
  else ⟨replacement :: found, none⟩

/-- Take one byte. -/
def take (state : Lossy) (byte : Byte) : Lossy :=
  let b := byte.toNat
  match state.pending with
  | none => start state.found b
  | some p =>
    if p.low ≤ b ∧ b ≤ p.high then
      let bits := p.bits * 64 + (b - 0x80)
      if p.missing = 1 then ⟨Char.ofNat bits :: state.found, none⟩
      else ⟨state.found, some ⟨bits, p.missing - 1, 0x80, 0xBF⟩⟩
    else start (replacement :: state.found) b

/-- The text when no byte follows. -/
def finish (state : Lossy) : String :=
  match state.pending with
  | none => String.ofList state.found.reverse
  | some _ => String.ofList (replacement :: state.found).reverse

end Lossy

def lossy (bytes : Array Byte) : String := (bytes.foldl Lossy.take ⟨[], none⟩).finish

end LittleComputer.Text
