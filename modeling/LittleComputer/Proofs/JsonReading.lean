import LittleComputer.Json.Reader
import LittleComputer.Json.Writer
import LittleComputer.Proofs.NumeralReading

/-!
# JSON text read back

Whatever value is written, reading its text gives the value. This is shown in two layers. The
reader takes the tokens of a value one by one and has the value at the end. And where tokens
are spelled with blanks between them, cutting the text gives the tokens, as long as no number
stands right before another; in tokens that can be read none does.
-/

namespace LittleComputer.Json

/-! ## Numbers -/

/-- Whether a character goes on with a number. -/
def isNumberPart (c : Char) : Bool := c.isDigit || c == '.' || c == 'e' || c == 'E'

/-- The text goes on with something that does not belong to a number. -/
def Ended (rest : List Char) : Prop := ∀ c ∈ rest.head?, isNumberPart c = false

theorem takeWhile_append_of_head {α : Type} {p : α → Bool} {first rest : List α}
    (all : ∀ a ∈ first, p a = true) (ended : ∀ a ∈ rest.head?, p a = false) :
    (first ++ rest).takeWhile p = first := by
  rw [List.takeWhile_append_of_pos all]
  cases rest with
  | nil => simp
  | cons a rest =>
    rw [List.takeWhile_cons_of_neg (by simp [ended a rfl]), List.append_nil]

theorem Ended.not_isDigit {rest : List Char} (ended : Ended rest) :
    ∀ c ∈ rest.head?, c.isDigit = false := by
  intro c first
  have other := ended c first
  simp only [isNumberPart, Bool.or_eq_false_iff] at other
  exact other.1.1.1

theorem integerPart?_decimal (n : Nat) {rest : List Char} (ended : Ended rest) :
    integerPart? ((Numeral.decimal n).toList ++ rest) =
      some ((Numeral.decimal n).toList, rest) := by
  rcases Nat.eq_zero_or_pos n with rfl | positive
  · rfl
  · have digits := takeWhile_append_of_head
      (fun c => Numeral.isDigit_of_mem_decimal (n := n) (c := c)) ended.not_isDigit
    have first := Numeral.head?_toDigits_ne positive
    obtain ⟨digit, more, h, -⟩ := Numeral.exists_digit n
    rw [← Numeral.decimal_toList, h] at first
    rw [h, List.cons_append] at digits
    have nonzero : digit ≠ '0' := fun zero => first (congrArg some zero)
    rw [h, List.cons_append, integerPart?]
    · simp only [digits, List.isEmpty_cons, Bool.false_eq_true, if_false]
      rw [← List.cons_append, List.drop_left]
    · intro rest zero
      exact nonzero (List.cons.inj zero).1

theorem fraction?_of_ended {rest : List Char} (ended : Ended rest) :
    fraction? rest = some (false, rest) := by
  cases rest with
  | nil => rfl
  | cons c rest =>
    have other := ended c rfl
    simp only [isNumberPart, Bool.or_eq_false_iff, beq_eq_false_iff_ne] at other
    obtain ⟨⟨⟨-, point⟩, small⟩, large⟩ := other
    have whole : exponent? (c :: rest) = some (false, c :: rest) := by
      simp only [exponent?, small, large, or_self, if_false]
    rw [fraction?, whole]
    intro rest same
    exact point (List.cons.inj same).1

/-- A decimal numeral is read to its end, whatever sign stood before it. -/
theorem number?_decimal (negative : Bool) (n : Nat) {rest : List Char} (ended : Ended rest) :
    number? negative ((Numeral.decimal n).toList ++ rest) =
      some (if negative = true ∧ n = 0 then .otherNumber
        else .integer (if negative then -n else n), rest) := by
  have value : Nat.ofDigitChars 10 (Numeral.decimal n).toList 0 = n := by
    rw [Numeral.decimal_toList, Nat.ofDigitChars_ten_toDigits]
  rw [number?, integerPart?_decimal n ended]
  simp only [Option.bind_eq_bind, Option.bind_some, fraction?_of_ended ended, value,
    Bool.false_eq_true, false_or]
  split <;> rfl

/-! ## Strings -/

theorem textUnits?_printable {c : Char} (printable : 32 ≤ c.toNat) (quote : c ≠ '"')
    (backslash : c ≠ '\\') (found : List TextUnit) (tail : List Char) :
    textUnits? found (c :: tail) = textUnits? (.char c :: found) tail := by
  rw [textUnits?, if_neg]
  · rintro (small | same)
    · omega
    · exact backslash same
  · exact quote
  · intro a b d e rest same
    exact absurd same backslash
  · intro e rest same
    exact absurd same backslash

theorem textUnits?_control {n : Nat} (small : n < 32) (found : List TextUnit) (tail : List Char) :
    textUnits? found ('\\' :: 'u' :: '0' :: '0' ::
      Nat.digitChar (n / 16) :: Nat.digitChar (n % 16) :: tail) =
        textUnits? (.unit n :: found) tail := by
  have unit : ∀ k : Fin 32,
      unitOfDigits? '0' '0' (Nat.digitChar (k / 16)) (Nat.digitChar (k % 16)) = some (.unit k) := by
    decide
  rw [textUnits?, unit ⟨n, small⟩]

theorem charsOfUnits?_control {n : Nat} (small : n < 32) (before : List Char)
    (more : List TextUnit) :
    charsOfUnits? before (.unit n :: more) = charsOfUnits? (Char.ofNat n :: before) more := by
  have low : isLowHalf n = false := by
    simp only [isLowHalf, Bool.and_eq_false_iff, decide_eq_false_iff_not]
    omega
  have high : isHighHalf n = false := by
    simp only [isHighHalf, Bool.and_eq_false_iff, decide_eq_false_iff_not]
    omega
  rw [charsOfUnits?.eq_def]
  simp only [low, high, Bool.false_eq_true, if_false]

/-- Inside a string, what is spelled is read as one unit, which is the character. -/
def Spells (spelled : List Char) (c : Char) : Prop :=
  ∃ unit : TextUnit,
    (∀ found tail, textUnits? found (spelled ++ tail) = textUnits? (unit :: found) tail) ∧
      ∀ before more, charsOfUnits? before (unit :: more) = charsOfUnits? (c :: before) more

theorem spells_of_char {spelled : List Char} {c : Char}
    (taken : ∀ found tail,
      textUnits? found (spelled ++ tail) = textUnits? (.char c :: found) tail) :
    Spells spelled c :=
  ⟨.char c, taken, fun _ _ => rfl⟩

theorem spells_control {c : Char} (small : c.toNat < 32) :
    Spells ['\\', 'u', '0', '0', Nat.digitChar (c.toNat / 16), Nat.digitChar (c.toNat % 16)] c := by
  refine ⟨.unit c.toNat, textUnits?_control small, ?_⟩
  intro before more
  rw [charsOfUnits?_control small, Char.ofNat_toNat]

/-- What is written for a character inside a string is read as the character. -/
theorem spells_escaped (c : Char) : Spells (escaped c) c := by
  have ofCode {n : Nat} (code : c.toNat = n) : c = Char.ofNat n := by
    rw [← code, Char.ofNat_toNat]
  fun_cases escaped c with
  | case1 | case2 | case3 | case4 | case5 =>
    subst c
    exact spells_of_char fun _ _ => rfl
  | case6 _ _ _ _ _ back =>
    rw [ofCode back]
    exact spells_of_char fun _ _ => rfl
  | case7 _ _ _ _ _ _ feed =>
    rw [ofCode feed]
    exact spells_of_char fun _ _ => rfl
  | case8 _ _ _ _ _ _ _ small => exact spells_control small
  | case9 quote backslash _ _ _ _ _ large =>
    exact spells_of_char (textUnits?_printable (Nat.le_of_not_lt large) quote backslash)

/-- A string is read to its closing quote, and its units are its characters. -/
theorem exists_units_of_escaped (chars : List Char) : ∃ units : List TextUnit,
    (∀ found rest, textUnits? found (chars.flatMap escaped ++ '"' :: rest) =
      some (found.reverse ++ units, rest)) ∧
      ∀ before, charsOfUnits? before units = some (before.reverse ++ chars) := by
  induction chars with
  | nil =>
    refine ⟨[], ?_, ?_⟩
    · intro found rest
      rw [List.append_nil]
      rfl
    · intro before
      rw [List.append_nil]
      rfl
  | cons c chars ih =>
    obtain ⟨unit, taken, meant⟩ := spells_escaped c
    obtain ⟨units, read, chars⟩ := ih
    refine ⟨unit :: units, ?_, ?_⟩
    · intro found rest
      simp [taken, read]
    · intro before
      rw [meant, chars, List.reverse_cons, List.append_assoc]
      rfl

/-! ## Tokens -/

/-- Whether a token is a number, which must not stand right before another. -/
def Token.isNumber : Token → Bool
  | integer _ | otherNumber => true
  | openList | closeList | openObject | closeObject | comma | colon | null | bool _ | text _
  | otherText => false

theorem token?_of_isDigit {digit : Char} (h : digit.isDigit = true) (rest : List Char) :
    token? (digit :: rest) = number? false (digit :: rest) := by
  rw [token?]
  all_goals
    intros
    rename_i same
    cases same
    exact absurd h (by decide)

theorem token?_decimal (n : Nat) {rest : List Char} (ended : Ended rest) :
    token? ((Numeral.decimal n).toList ++ rest) = some (.integer n, rest) := by
  have number := number?_decimal false n ended
  obtain ⟨digit, more, h, isDigit⟩ := Numeral.exists_digit n
  rw [h, List.cons_append] at number
  rw [h, List.cons_append, token?_of_isDigit isDigit, number]
  rfl

theorem token?_integer (n : Int) {rest : List Char} (ended : Ended rest) :
    token? ((Numeral.decimal n).toList ++ rest) = some (.integer n, rest) := by
  by_cases negative : n < 0
  · have value : -(n.natAbs : Int) = n := by omega
    have nonzero : ¬ n.natAbs = 0 := by omega
    rw [Numeral.toList_decimal_neg negative, List.cons_append, token?, number?_decimal true _ ended]
    simp only [nonzero, and_false, if_false, if_true, value]
  · obtain ⟨k, rfl⟩ := Int.eq_ofNat_of_zero_le (Int.not_lt.mp negative)
    exact token?_decimal k ended

theorem token?_quoted (value : String) (rest : List Char) :
    token? ((quoted value).toList ++ rest) = some (.text value, rest) := by
  obtain ⟨units, read, chars⟩ := exists_units_of_escaped value.toList
  have spelled : (quoted value).toList ++ rest =
      '"' :: (value.toList.flatMap escaped ++ '"' :: rest) := by
    simp [quoted]
  have token : tokenOfUnits units = .text value := by
    rw [tokenOfUnits, chars]
    exact congrArg Token.text String.ofList_toList
  rw [spelled, token?, read, Option.map_some, List.reverse_nil, List.nil_append, ← token]

/-- A token is read back from its spelling, if it is no number that the text goes on with. -/
theorem token?_spelling (t : Token) {rest : List Char} (ended : t.isNumber = true → Ended rest) :
    token? (t.spelling.toList ++ rest) = some (t, rest) := by
  cases t with
  | openList => rfl
  | closeList => rfl
  | openObject => rfl
  | closeObject => rfl
  | comma => rfl
  | colon => rfl
  | null => rfl
  | bool value => cases value <;> rfl
  | integer n => exact token?_integer n (ended rfl)
  | otherNumber =>
    show token? ('-' :: ((Numeral.decimal 0).toList ++ rest)) = _
    rw [token?]
    exact number?_decimal true 0 (ended rfl)
  | text value => exact token?_quoted value rest
  | otherText =>
    have unit : unitOfDigits? 'd' '8' '0' '0' = some (.unit 0xD800) := by decide
    have read : textUnits? [] ('\\' :: 'u' :: 'd' :: '8' :: '0' :: '0' :: '"' :: rest) =
        some ([.unit 0xD800], rest) := by
      rw [textUnits?, unit]
      rfl
    show token? ('"' :: '\\' :: 'u' :: 'd' :: '8' :: '0' :: '0' :: '"' :: rest) = _
    rw [token?.eq_def]
    simp only [read]
    rfl

theorem isBlank_of_isDigit {c : Char} (h : c.isDigit = true) : isBlank c = false := by
  simp only [isBlank, Bool.or_eq_false_iff, beq_eq_false_iff_ne]
  refine ⟨⟨⟨?_, ?_⟩, ?_⟩, ?_⟩
  all_goals
    rintro rfl
    exact absurd h (by decide)

/-- A spelling begins with a character that is not blank, and that only a number goes on with if
the token is a number itself. -/
theorem exists_spelling (t : Token) : ∃ c more, t.spelling.toList = c :: more ∧
    isBlank c = false ∧ (t.isNumber = false → isNumberPart c = false) := by
  cases t with
  | integer n =>
    by_cases negative : n < 0
    · exact ⟨'-', _, Numeral.toList_decimal_neg negative, rfl, nofun⟩
    · obtain ⟨k, rfl⟩ := Int.eq_ofNat_of_zero_le (Int.not_lt.mp negative)
      obtain ⟨digit, more, spelled, isDigit⟩ := Numeral.exists_digit k
      exact ⟨digit, more, spelled, isBlank_of_isDigit isDigit, nofun⟩
  | bool value => cases value <;> exact ⟨_, _, rfl, rfl, fun _ => rfl⟩
  | text value =>
    refine ⟨'"', value.toList.flatMap escaped ++ ['"'], ?_, rfl, fun _ => rfl⟩
    simp [Token.spelling, quoted]
  | otherNumber => exact ⟨_, _, rfl, rfl, nofun⟩
  | _ => exact ⟨_, _, rfl, rfl, fun _ => rfl⟩

/-! ## Tokens that can be read -/

/-- The reader takes the tokens one by one. -/
def Reads (before : Reading) (tokens : List Token) (after : Reading) : Prop :=
  tokens.foldlM Reading.take before = some after

theorem reads_cons_iff {before after : Reading} {t : Token} {tokens : List Token} :
    Reads before (t :: tokens) after ↔
      ∃ between, before.take t = some between ∧ Reads between tokens after := by
  rw [Reads, List.foldlM_cons]
  exact Option.bind_eq_some_iff

theorem Reads.push {before between after : Reading} {written : Array Token} {t : Token}
    (h : Reads before written.toList between) (next : between.take t = some after) :
    Reads before (written.push t).toList after := by
  rw [Reads, Array.toList_push, List.foldlM_append, h]
  exact (Option.bind_some _ _).trans ((bind_pure _).trans next)

theorem begin_of_isNumber {t : Token} (number : t.isNumber = true) (outer : List Frame) :
    ∃ value, Reading.begin outer t = some (.finished value outer) := by
  cases t with
  | integer n => exact ⟨.integer n, rfl⟩
  | otherNumber => exact ⟨.otherNumber, rfl⟩
  | _ => cases number

theorem resume_of_isNumber {t : Token} (number : t.isNumber = true) (value : Json)
    (outer : List Frame) : Reading.resume value outer t = none := by
  cases t with
  | integer n => rcases outer with _ | ⟨_ | _, _⟩ <;> rfl
  | otherNumber => rcases outer with _ | ⟨_ | _, _⟩ <;> rfl
  | _ => cases number

theorem key?_of_isNumber {t : Token} (number : t.isNumber = true) : key? t = none := by
  cases t with
  | integer n => rfl
  | otherNumber => rfl
  | _ => cases number

/-- A reader that waits for a value, which will be a part of `outer`. -/
def Awaits (reading : Reading) (outer : List Frame) : Prop :=
  ∀ t, t ≠ .closeList → reading.take t = Reading.begin outer t

theorem awaits_wantValue (outer : List Frame) : Awaits (.wantValue outer) outer := fun _ _ => rfl

theorem awaits_wantItem (outer : List Frame) : Awaits (.wantItem outer) (.list [] :: outer) := by
  intro t h
  rw [Reading.take]
  exact fun same => h same

theorem finished_of_take {before between : Reading} {t : Token} (number : t.isNumber = true)
    (taken : before.take t = some between) : ∃ value outer, between = .finished value outer := by
  have begun {outer : List Frame} (awaits : Awaits before outer) :
      ∃ value outer, between = .finished value outer := by
    obtain ⟨value, begins⟩ := begin_of_isNumber number outer
    rw [awaits t (by rintro rfl; cases number), begins] at taken
    exact ⟨value, outer, (Option.some.inj taken).symm⟩
  cases before with
  | wantValue outer => exact begun (awaits_wantValue outer)
  | wantItem outer => exact begun (awaits_wantItem outer)
  | wantFirstKey outer =>
    rw [Reading.take, key?_of_isNumber number] at taken
    · cases taken
    · rintro rfl
      cases number
  | wantKey before outer =>
    rw [Reading.take, key?_of_isNumber number] at taken
    cases taken
  | wantColon before key outer =>
    rw [Reading.take, if_neg] at taken
    · cases taken
    · rintro rfl
      cases number
  | finished value outer =>
    rw [Reading.take, resume_of_isNumber number] at taken
    cases taken

/-- After a number the reader has a value, and takes no number. -/
theorem not_isNumber_of_reads {before between after : Reading} {t next : Token}
    {tokens : List Token} (number : t.isNumber = true) (taken : before.take t = some between)
    (reads : Reads between (next :: tokens) after) : next.isNumber = false := by
  obtain ⟨value, outer, rfl⟩ := finished_of_take number taken
  obtain ⟨_, then_, -⟩ := reads_cons_iff.mp reads
  rw [← Bool.not_eq_true]
  intro another
  rw [Reading.take, resume_of_isNumber another] at then_
  cases then_

section

variable {start : Reading}

theorem reads_scalar {value : Json} {t : Token} {written : Array Token} {outer : List Frame}
    {reading : Reading} (reads : Reads start written.toList reading)
    (awaits : Awaits reading outer) (scalar : scalar? t = some value) :
    Reads start (written.push t).toList (.finished value outer) := by
  refine reads.push ?_
  rw [awaits t (by rintro rfl; cases scalar)]
  cases t <;> cases scalar <;> rfl

theorem reads_pushKey {written : Array Token} {outer : List Frame} {key : Option String}
    {members : List (Option String × Json)} {reading : Reading}
    (reads : Reads start written.toList reading)
    (wants : reading.take (keyToken key) = some (.wantColon members key outer)) :
    Reads start (pushKey written key).toList (.wantValue (.object members key :: outer)) :=
  (reads.push wants).push rfl

mutual

/-- The reader takes the tokens of a value where one must come, and has the value. -/
theorem reads_pushTokens (value : Json) {written : Array Token}
    {outer : List Frame} {reading : Reading} (reads : Reads start written.toList reading)
    (awaits : Awaits reading outer) :
    Reads start (pushTokens written value).toList (.finished value outer) := by
  match value with
  | .null => exact reads_scalar reads awaits rfl
  | .bool value => exact reads_scalar reads awaits rfl
  | .integer value => exact reads_scalar reads awaits rfl
  | .otherNumber => exact reads_scalar reads awaits rfl
  | .text value => exact reads_scalar reads awaits rfl
  | .otherText => exact reads_scalar reads awaits rfl
  | .list items =>
    have opened := reads.push (awaits .openList nofun)
    exact reads_pushItems items opened
  | .object members =>
    have opened := reads.push (awaits .openObject nofun)
    exact reads_pushMembers members opened

theorem reads_pushItems (items : List Json) {written : Array Token}
    {outer : List Frame} (reads : Reads start written.toList (.wantItem outer)) :
    Reads start ((pushItems written items).push .closeList).toList
      (.finished (.list items) outer) := by
  match items with
  | [] => exact reads.push rfl
  | item :: rest =>
    have first := reads_pushTokens item reads (awaits_wantItem outer)
    exact reads_pushMoreItems rest first

theorem reads_pushMoreItems (rest : List Json) {written : Array Token}
    {outer : List Frame} {item : Json} {before : List Json}
    (reads : Reads start written.toList (.finished item (.list before :: outer))) :
    Reads start ((pushMoreItems written rest).push .closeList).toList
      (.finished (.list ((item :: before).reverse ++ rest)) outer) := by
  match rest with
  | [] =>
    rw [List.append_nil]
    exact reads.push rfl
  | next :: rest =>
    have comma := reads.push (t := .comma) rfl
    have more := reads_pushMoreItems rest (reads_pushTokens next comma (awaits_wantValue _))
    rw [List.reverse_cons, List.append_assoc] at more
    exact more

theorem reads_pushMembers (members : List (Option String × Json))
    {written : Array Token} {outer : List Frame}
    (reads : Reads start written.toList (.wantFirstKey outer)) :
    Reads start ((pushMembers written members).push .closeObject).toList
      (.finished (.object members) outer) := by
  match members with
  | [] => exact reads.push rfl
  | (key, value) :: rest =>
    have wants : (Reading.wantFirstKey outer).take (keyToken key) =
        some (.wantColon [] key outer) := by cases key <;> rfl
    have first := reads_pushTokens value (reads_pushKey reads wants) (awaits_wantValue _)
    exact reads_pushMoreMembers rest first

theorem reads_pushMoreMembers (rest : List (Option String × Json))
    {written : Array Token} {outer : List Frame} {key : Option String} {value : Json}
    {before : List (Option String × Json)}
    (reads : Reads start written.toList (.finished value (.object before key :: outer))) :
    Reads start ((pushMoreMembers written rest).push .closeObject).toList
      (.finished (.object (((key, value) :: before).reverse ++ rest)) outer) := by
  match rest with
  | [] =>
    rw [List.append_nil]
    exact reads.push rfl
  | (next, member) :: rest =>
    have comma := reads.push (t := .comma) rfl
    have wants : (Reading.wantKey ((key, value) :: before) outer).take (keyToken next) =
        some (.wantColon ((key, value) :: before) next outer) := by cases next <;> rfl
    have more := reads_pushMoreMembers rest
      (reads_pushTokens member (reads_pushKey comma wants) (awaits_wantValue _))
    rw [List.reverse_cons, List.append_assoc] at more
    exact more

end

end

theorem reads_tokens (value : Json) :
    Reads (.wantValue []) value.tokens.toList (.finished value []) :=
  reads_pushTokens value rfl (awaits_wantValue [])

/-- The tokens of a value are read as the value. -/
theorem ofTokens?_tokens (value : Json) : ofTokens? value.tokens.toList = some value := by
  rw [ofTokens?, reads_tokens value]
  rfl

/-! ## Tokens in a text -/

/-- A text of tokens in their order, with blanks between them. -/
inductive Laid : List Token → List Char → Prop where
  | nil : Laid [] []
  | blank {c : Char} {tokens : List Token} {text : List Char} (blank : isBlank c = true)
      (rest : Laid tokens text) : Laid tokens (c :: text)
  | token {t : Token} {tokens : List Token} {text : List Char} (rest : Laid tokens text) :
      Laid (t :: tokens) (t.spelling.toList ++ text)

theorem Laid.blanks {tokens : List Token} {text blanks : List Char} (h : Laid tokens text)
    (all : ∀ c ∈ blanks, isBlank c = true) : Laid tokens (blanks ++ text) := by
  induction blanks with
  | nil => exact h
  | cons c blanks ih =>
    obtain ⟨now, later⟩ := List.forall_mem_cons.mp all
    exact .blank now (ih later)

theorem isNumberPart_of_isBlank {c : Char} (h : isBlank c = true) : isNumberPart c = false := by
  simp only [isBlank, Bool.or_eq_true, beq_iff_eq] at h
  rcases h with ((rfl | rfl) | rfl) | rfl <;> rfl

/-- Where no number comes first, the text does not go on with one. -/
theorem Laid.ended {tokens : List Token} {text : List Char} (h : Laid tokens text)
    (first : ∀ t ∈ tokens.head?, t.isNumber = false) : Ended text := by
  cases h with
  | nil => exact nofun
  | blank blank rest =>
    rintro _ ⟨⟩
    exact isNumberPart_of_isBlank blank
  | @token t tokens text rest =>
    obtain ⟨c, more, spelled, -, other⟩ := exists_spelling t
    rw [spelled]
    rintro _ ⟨⟩
    exact other (first t rfl)

theorem scan_nil (found : Array Token) (fuel : Nat) : scan found fuel [] = some found := by
  cases fuel <;> rfl

/-- Cutting a text of tokens that can be read gives the tokens. -/
theorem scan_of_laid {tokens : List Token} {text : List Char} (laid : Laid tokens text)
    {before after : Reading} (reads : Reads before tokens after) (found : Array Token) {fuel : Nat}
    (enough : text.length ≤ fuel) : scan found fuel text = some (found ++ tokens.toArray) := by
  induction laid generalizing before found fuel with
  | nil => exact scan_nil found fuel
  | @blank c tokens text blank rest ih =>
    obtain ⟨fuel, rfl⟩ : ∃ less, fuel = less + 1 := Nat.exists_eq_succ_of_ne_zero (by
      rintro rfl
      cases enough)
    rw [scan, if_pos blank]
    exact ih reads found (Nat.le_of_succ_le_succ enough)
  | @token t tokens text rest ih =>
    obtain ⟨between, taken, reads⟩ := reads_cons_iff.mp reads
    have ended : t.isNumber = true → Ended text := by
      intro number
      refine rest.ended ?_
      intro next first
      obtain ⟨more, rfl⟩ := List.head?_eq_some_iff.mp first
      exact not_isNumber_of_reads number taken reads
    have token := token?_spelling t ended
    obtain ⟨c, more, spelled, visible, -⟩ := exists_spelling t
    rw [spelled, List.cons_append] at token enough ⊢
    obtain ⟨fuel, rfl⟩ : ∃ less, fuel = less + 1 := Nat.exists_eq_succ_of_ne_zero (by
      rintro rfl
      cases enough)
    have shorter : text.length ≤ fuel := by
      rw [List.length_cons, List.length_append] at enough
      omega
    simp only [scan, visible, Bool.false_eq_true, if_false, token]
    rw [ih reads (found.push t) shorter, List.toArray_cons, Array.push_eq_append,
      Array.append_assoc]

/-- A text of a value's tokens with blanks between them is read as the value. -/
theorem parse?_of_laid {value : Json} {text : String}
    (laid : Laid value.tokens.toList text.toList) : parse? text = some value := by
  have cut := scan_of_laid laid (reads_tokens value) #[] (Nat.le_refl _)
  rw [parse?, tokens?, cut, Array.empty_append]
  exact ofTokens?_tokens value

/-! ## Indented text -/

theorem isBlank_of_mem_newLine {depth : Nat} {c : Char}
    (h : c ∈ (Margin.newLine depth).toList) : isBlank c = true := by
  simp only [Margin.newLine, String.toList_append, List.mem_append, String.toList_ofList,
    List.mem_replicate] at h
  rcases h with feed | ⟨-, rfl⟩
  · obtain rfl := List.mem_singleton.mp feed
    rfl
  · rfl

/-- A piece of indented text is the spelling of its token between blanks. -/
theorem exists_blanks_of_piece (margin : Margin) (t : Token) : ∃ before behind : List Char,
    (margin.piece t).1.toList = before ++ (t.spelling.toList ++ behind) ∧
      (∀ c ∈ before, isBlank c = true) ∧ ∀ c ∈ behind, isBlank c = true := by
  have led {piece : String} (h : piece =
        (if margin.opened then Margin.newLine margin.depth else "") ++ t.spelling) :
      ∃ before behind : List Char, piece.toList = before ++ (t.spelling.toList ++ behind) ∧
        (∀ c ∈ before, isBlank c = true) ∧ ∀ c ∈ behind, isBlank c = true := by
    refine ⟨_, [], by rw [h, String.toList_append, List.append_nil], ?_, nofun⟩
    intro c mem
    split at mem
    · exact isBlank_of_mem_newLine mem
    · cases mem
  have closed {piece : String} (h : piece = if margin.opened then t.spelling
        else Margin.newLine (margin.depth - 1) ++ t.spelling) :
      ∃ before behind : List Char, piece.toList = before ++ (t.spelling.toList ++ behind) ∧
        (∀ c ∈ before, isBlank c = true) ∧ ∀ c ∈ behind, isBlank c = true := by
    split at h
    · exact ⟨[], [], by simp [h], nofun, nofun⟩
    · exact ⟨_, [], by rw [h, String.toList_append, List.append_nil],
        fun _ => isBlank_of_mem_newLine, nofun⟩
  cases t with
  | closeList | closeObject => exact closed rfl
  | comma => exact ⟨[], _, String.toList_append, nofun, fun _ => isBlank_of_mem_newLine⟩
  | colon => exact ⟨[], _, String.toList_append, nofun, List.forall_mem_singleton.mpr rfl⟩
  | _ => exact led rfl

/-- Indenting adds pieces in which the tokens stand with blanks between them. -/
theorem exists_pieces_of_indent (margin : Margin) (written : Array String)
    (tokens : List Token) : ∃ pieces : List String,
    (indent margin written tokens).toList = written.toList ++ pieces ∧
      ∀ {blanks : List Char}, (∀ c ∈ blanks, isBlank c = true) →
        Laid tokens (pieces.flatMap String.toList ++ blanks) := by
  induction tokens generalizing margin written with
  | nil =>
    refine ⟨[], (List.append_nil _).symm, ?_⟩
    intro blanks all
    have laid := Laid.nil.blanks all
    rwa [List.append_nil] at laid
  | cons t tokens ih =>
    obtain ⟨before, behind, spelled, first, last⟩ := exists_blanks_of_piece margin t
    obtain ⟨pieces, written, laid⟩ := ih (margin.piece t).2 (written.push (margin.piece t).1)
    refine ⟨(margin.piece t).1 :: pieces, ?_, ?_⟩
    · rw [indent, written, Array.toList_push, List.append_assoc]
      rfl
    · intro blanks all
      have rest := ((laid all).blanks last).token (t := t)
      rw [List.flatMap_cons, spelled]
      simpa only [List.append_assoc] using rest.blanks first

/-- The indented text of a value is read as the value, whatever blanks are behind it. -/
theorem parse?_indentedPieces (value : Json) (blanks : String)
    (all : ∀ c ∈ blanks.toList, isBlank c = true) :
    parse? (String.join value.indentedPieces.toList ++ blanks) = some value := by
  obtain ⟨pieces, written, laid⟩ := exists_pieces_of_indent ⟨0, false⟩ #[] value.tokens.toList
  apply parse?_of_laid
  rw [indentedPieces, written, String.toList_append, String.toList_join]
  exact laid all

/-! ## Compact text -/

/-- Tokens may stand without blanks between them. -/
theorem laid_spellings (tokens : List Token) :
    Laid tokens (tokens.flatMap fun t => t.spelling.toList) := by
  induction tokens with
  | nil => exact .nil
  | cons t tokens ih => exact .token ih

theorem toList_foldl_spelling (written : String) (tokens : List Token) :
    (tokens.foldl (fun text t => text ++ t.spelling) written).toList =
      written.toList ++ tokens.flatMap fun t => t.spelling.toList := by
  induction tokens generalizing written with
  | nil => simp
  | cons t tokens ih =>
    simp [ih]

/-- The compact text of a value is read as the value. -/
theorem parse?_compact (value : Json) : parse? value.compact = some value := by
  apply parse?_of_laid
  rw [compact, ← Array.foldl_toList, toList_foldl_spelling]
  exact laid_spellings _

end LittleComputer.Json
