import LittleComputer.Proofs.DumpReading

/-!
# Listings read back

A listing has a line for each of its words: its address, the instruction in it and the word
itself. The address goes on at zero after the top of memory, as often as there are words for it.
Listings of words that follow each other follow each other, and a listing is read back as its
words with their addresses. So listings are equal only if their words and their origins are.
-/

namespace LittleComputer

/-! ## Hexadecimal numbers of any size -/

namespace Numeral

/-- A number in upper-case hexadecimal, filled up with zeros to some digits. -/
def upperHex (width n : Nat) : String :=
  String.ofList (((Nat.toDigits 16 n).map Char.toUpper).leftpad width '0')

theorem toUpper_digitChar {n : Nat} (h : n < 16) : (Nat.digitChar n).toUpper = hexDigit n := by
  have all : ∀ k : Fin 16, (Nat.digitChar k).toUpper = hexDigit k := by decide
  exact all ⟨n, h⟩

theorem toList_upperHex_of_lt (width : Nat) {n : Nat} (h : n < 16) :
    (upperHex (width + 1) n).toList = List.replicate width '0' ++ [hexDigit n] := by
  simp [upperHex, Nat.toDigits_of_lt_base h, toUpper_digitChar h]

/-- Before its last digit a number is written as the sixteenth of it in a digit less. -/
theorem toList_upperHex_succ (width n : Nat) :
    (upperHex (width + 2) n).toList =
      (upperHex (width + 1) (n / 16)).toList ++ [hexDigit (n % 16)] := by
  by_cases small : n < 16
  · have quotient : n / 16 = 0 := Nat.div_eq_of_lt small
    have zero : hexDigit 0 = '0' := rfl
    rw [toList_upperHex_of_lt _ small, quotient, toList_upperHex_of_lt _ (by decide), zero,
      ← List.replicate_succ', Nat.mod_eq_of_lt small]
  · have last : n % 16 < 16 := Nat.mod_lt n (by decide)
    have zeros (length : Nat) : width + 2 - (length + 1) = width + 1 - length := by omega
    simp [upperHex, Nat.toDigits_of_base_le (by decide) (Nat.le_of_not_lt small),
      toUpper_digitChar last, List.leftpad, zeros]

/-- A word is written as its number in four digits. -/
theorem hexWord_eq_upperHex (w : Word) : hexWord w = upperHex 4 w.toNat := by
  have bound := w.toNat_lt
  have first : w.toNat / 16 / 16 / 16 < 16 := by omega
  have d3 : w.field 12 4 = w.toNat / 16 / 16 / 16 := by
    simp only [Word.field, Nat.pow_eq]
    omega
  have d2 : w.field 8 4 = w.toNat / 16 / 16 % 16 := by
    simp only [Word.field, Nat.pow_eq]
    omega
  have d1 : w.field 4 4 = w.toNat / 16 % 16 := rfl
  have d0 : w.field 0 4 = w.toNat % 16 := congrArg (· % 16) (Nat.div_one w.toNat)
  apply String.toList_inj.mp
  rw [hexWord_toList, toList_upperHex_succ, toList_upperHex_succ, toList_upperHex_succ,
    toList_upperHex_of_lt 0 first, d3, d2, d1, d0]
  rfl

example : upperHex 4 0xBEE = "0BEE" := by decide

end Numeral

namespace Assembly

/-! ## Words laid out from an origin -/

/-- The address so many places behind an origin; address zero comes after the last. -/
def addressAt (origin : Word) (i : Nat) : Word := ((origin.toNat + i) % 65536).toUInt16

@[simp] theorem toNat_addressAt (origin : Word) (i : Nat) :
    (addressAt origin i).toNat = (origin.toNat + i) % 65536 := by
  rw [addressAt, Nat.toUInt16, UInt16.toNat_ofNat']
  omega

@[simp] theorem addressAt_zero (origin : Word) : addressAt origin 0 = origin := by
  apply UInt16.toNat.inj
  simp [Nat.mod_eq_of_lt origin.toNat_lt]

@[simp] theorem addressAt_addressAt (origin : Word) (i j : Nat) :
    addressAt (addressAt origin i) j = addressAt origin (i + j) := by
  apply UInt16.toNat.inj
  rw [toNat_addressAt, toNat_addressAt, toNat_addressAt]
  omega

theorem add_one_eq_addressAt (origin : Word) : origin + 1 = addressAt origin 1 := by
  apply UInt16.toNat.inj
  simp [UInt16.toNat_add]

/-- Words with their addresses. -/
def laidOut (origin : Word) (words : List Word) : List (Word × Word) :=
  words.mapIdx fun i w => (addressAt origin i, w)

theorem laidOut_append (origin : Word) (first second : List Word) :
    laidOut origin (first ++ second) =
      laidOut origin first ++ laidOut (addressAt origin first.length) second := by
  have behind : (fun (i : Nat) (w : Word) => (addressAt origin (i + first.length), w)) =
      fun i w => (addressAt (addressAt origin first.length) i, w) := by
    funext i w
    simp [Nat.add_comm]
  rw [laidOut, List.mapIdx_append, behind]
  rfl

theorem laidOut_cons (origin w : Word) (rest : List Word) :
    laidOut origin (w :: rest) = (origin, w) :: laidOut (origin + 1) rest := by
  have head : laidOut origin [w] = [(addressAt origin 0, w)] := rfl
  rw [← List.singleton_append, laidOut_append, head, addressAt_zero, add_one_eq_addressAt]
  rfl

theorem laidOut_words (origin : Word) (words : List Word) :
    (laidOut origin words).map Prod.snd = words := by
  induction words generalizing origin with
  | nil => rfl
  | cons w rest ih => simp [laidOut_cons, ih]

/-- Words with their addresses tell the words, and where they begin if there are any. -/
theorem laidOut_eq_iff {origin origin' : Word} {words words' : List Word} :
    laidOut origin words = laidOut origin' words' ↔
      words = words' ∧ (words ≠ [] → origin = origin') := by
  constructor
  · intro same
    have equal := congrArg (List.map Prod.snd) same
    rw [laidOut_words, laidOut_words] at equal
    subst equal
    refine ⟨rfl, fun nonempty => ?_⟩
    cases words with
    | nil => exact absurd rfl nonempty
    | cons w rest =>
      rw [laidOut_cons, laidOut_cons] at same
      exact congrArg Prod.fst (List.cons.inj same).1
  · rintro ⟨rfl, begins⟩
    cases words with
    | nil => rfl
    | cons w rest => rw [begins (List.cons_ne_nil w rest)]

/-! ## The rows of a listing -/

/-- The row of a word at an address. -/
def listingRow (cell : Word × Word) : String :=
  "x" ++ Numeral.hexWord cell.1 ++ ": " ++ ofWord cell.2 ++ "  ; x" ++ Numeral.hexWord cell.2

/-- A listing is its rows, each ended by a line feed. -/
theorem listing_eq (origin : Word) (words : List Word) :
    listing origin words =
      String.join (((laidOut origin words).map listingRow).map (· ++ "\n")) := by
  induction words generalizing origin with
  | nil => rfl
  | cons w rest ih =>
    rw [listing_cons, laidOut_cons, ih, List.map_cons, List.map_cons, String.join_cons]
    rfl

/-- Listings of words that follow each other follow each other. -/
theorem listing_append (origin : Word) (first second : List Word) :
    listing origin (first ++ second) =
      listing origin first ++ listing (addressAt origin first.length) second := by
  rw [listing_eq, laidOut_append, List.map_append, List.map_append, String.join_append,
    ← listing_eq, ← listing_eq]

theorem unbroken_listingRow (cell : Word × Word) : Text.Unbroken (listingRow cell) := by
  have address := (isWord_hexWord cell.1).unbroken
  have value := (isWord_hexWord cell.2).unbroken
  have meaning : Text.Unbroken (ofWord cell.2) := Instruction.unbroken_assembly _
  simp only [listingRow, Text.unbroken_append_iff]
  exact ⟨⟨⟨⟨⟨by decide, address⟩, by decide⟩, meaning⟩, by decide⟩, value⟩

theorem lines_listing (origin : Word) (words : List Word) :
    Text.lines (listing origin words) = (laidOut origin words).map listingRow := by
  rw [listing_eq, Text.lines_join]
  exact List.forall_mem_map.mpr fun cell _ => unbroken_listingRow cell

/-! ## Reading -/

/-- The address and the word of a row, from its two ends. -/
def cellAtEnds? (row : String) : Option (Word × Word) := Dump.cellOfRow? (row.length - 4) row

/-- The words of a listing with their addresses. -/
def cellsOfListing? (text : String) : Option (List (Word × Word)) :=
  (Text.lines text).mapM cellAtEnds?

theorem cellAtEnds?_listingRow (cell : Word × Word) :
    cellAtEnds? (listingRow cell) = some cell := by
  have spelled : (listingRow cell).toList = ['x'] ++ ((Numeral.hexWord cell.1).toList ++
      ((": " ++ ofWord cell.2 ++ "  ; x").toList ++ ((Numeral.hexWord cell.2).toList ++ []))) := by
    simp [listingRow]
  have place : 5 + (": " ++ ofWord cell.2 ++ "  ; x").toList.length =
      (listingRow cell).length - 4 := by
    rw [← String.length_toList, spelled]
    simp only [List.length_append, List.length_singleton, List.length_nil, Numeral.length_hexWord]
    omega
  exact Dump.cellOfRow?_of_toList spelled place

/-- A listing is read back as its words with their addresses. -/
theorem cellsOfListing?_listing (origin : Word) (words : List Word) :
    cellsOfListing? (listing origin words) = some (laidOut origin words) := by
  rw [cellsOfListing?, lines_listing]
  exact Exchange.mapM_map cellAtEnds?_listingRow _

theorem listing_eq_iff {origin origin' : Word} {words words' : List Word} :
    listing origin words = listing origin' words' ↔
      words = words' ∧ (words ≠ [] → origin = origin') := by
  rw [← laidOut_eq_iff]
  constructor
  · intro same
    have read := cellsOfListing?_listing origin words
    rw [same, cellsOfListing?_listing] at read
    exact (Option.some.inj read).symm
  · intro same
    rw [listing_eq, listing_eq, same]

/-- A listing shows its words. It is made of rows without a line feed in them that end with one, a
row for each word: its address, its instruction and the word itself. If more words follow, their
listing follows. It is read back as the words with their addresses, so equal listings have equal
words and, if there are any, equal origins. -/
theorem listing_recoverable (origin : Word) (words : List Word) :
    (∃ rows : List String, listing origin words = String.join (rows.map (· ++ "\n")) ∧
      (∀ row ∈ rows, '\n' ∉ row.toList) ∧ rows.length = words.length ∧
      ∀ (i : Nat) (inside : i < words.length), rows[i]? = some
        ("x" ++ Numeral.upperHex 4 ((origin.toNat + i) % 65536) ++ ": " ++
          (Instruction.decode words[i]).assembly ++ "  ; x" ++
          Numeral.upperHex 4 words[i].toNat)) ∧
    (∀ more, listing origin (words ++ more) =
      listing origin words ++ listing ((origin.toNat + words.length) % 65536).toUInt16 more) ∧
    cellsOfListing? (listing origin words) = some (laidOut origin words) ∧
    ∀ origin' words', listing origin words = listing origin' words' ↔
      words = words' ∧ (words ≠ [] → origin = origin') := by
  refine ⟨⟨_, listing_eq origin words, ?_, ?_, ?_⟩, listing_append origin words,
    cellsOfListing?_listing origin words, fun _ _ => listing_eq_iff⟩
  · rw [List.forall_mem_map]
    intro cell _ feed
    exact (unbroken_listingRow cell _ feed).1 rfl
  · rw [List.length_map, laidOut, List.length_mapIdx]
  · intro i inside
    rw [List.getElem?_map, laidOut, List.getElem?_mapIdx, List.getElem?_eq_getElem inside,
      ← Numeral.hexWord_eq_upperHex, ← toNat_addressAt, ← Numeral.hexWord_eq_upperHex]
    rfl

end Assembly

end LittleComputer
