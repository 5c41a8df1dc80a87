import LittleComputer.Instruction.Assembly
import LittleComputer.Machine.Run
import LittleComputer.Proofs.InstructionWord
import LittleComputer.Proofs.NumeralReading
import LittleComputer.Text.Lines

/-!
# Assembly text read back

Assembly text is read in the order it was written: words between blanks, a mnemonic and its
operands, an instruction. What is read back is the instruction itself, but for the branches: an
offset behind NOP and the mask bits that name no condition do not show. So two instructions
with one text differ at most in these, and execute alike.
-/

namespace LittleComputer

namespace Assembly

/-- An operand as it is written. -/
inductive Item where
  | register (number : Byte)
  | constant (value : Int16)
  | vector (number : Byte)
  deriving DecidableEq, Repr

namespace Item

def text : Item → String
  | register number => Assembly.register number
  | constant value => Assembly.constant value
  | vector number => "x" ++ Numeral.hexByte number

def read? : List Char → Option Item
  | 'R' :: digits => (Numeral.ofDecimal? digits).map fun n => register n.toUInt8
  | '#' :: digits => (Numeral.ofSigned? digits).map fun n => constant (Int16.ofInt n)
  | ['x', high, low] => do
    let upper ← Numeral.ofHexDigit? high
    let lower ← Numeral.ofHexDigit? low
    return vector (upper * 16 + lower).toUInt8
  | _ => none

def ofOperand : Operand → Item
  | .register number => register number
  | .immediate value => constant value

def operand? : Item → Option Operand
  | register number => some (.register number)
  | constant value => some (.immediate value)
  | vector _ => none

theorem read?_text (item : Item) : read? item.text.toList = some item := by
  cases item with
  | register number =>
    have digits : (register number).text.toList = 'R' :: (Numeral.decimal number.toNat).toList := by
      simp [text, Assembly.register]
    rw [digits, read?, Numeral.ofDecimal?_decimal]
    simp
  | constant value =>
    have digits : (constant value).text.toList = '#' :: (Numeral.decimal value.toInt).toList := by
      simp [text, Assembly.constant]
    rw [digits, read?, Numeral.ofSigned?_decimal]
    simp
  | vector number =>
    have bound := number.toNat_lt
    have digits : (vector number).text.toList =
        ['x', Numeral.hexDigit (number.toNat / 16), Numeral.hexDigit (number.toNat % 16)] := by
      simp [text, Numeral.hexByte]
    rw [digits, read?, Numeral.ofHexDigit?_hexDigit (by omega),
      Numeral.ofHexDigit?_hexDigit (by omega)]
    show some (vector (number.toNat / 16 * 16 + number.toNat % 16).toUInt8) = _
    rw [Nat.div_add_mod']
    simp

end Item

/-- A text without the marks that separate words and end lines. -/
def IsWord (text : String) : Prop :=
  ∀ c ∈ text.toList, c ≠ ',' ∧ c ≠ ' ' ∧ c ≠ '\n' ∧ c ≠ '\r'

theorem isWord_append {a b : String} (ha : IsWord a) (hb : IsWord b) : IsWord (a ++ b) := by
  intro c mem
  rw [String.toList_append, List.mem_append] at mem
  exact mem.elim (ha c) (hb c)

theorem isWord_decimal (n : Int) : IsWord (Numeral.decimal n) := by
  have natural (k : Nat) : IsWord (Numeral.decimal k) := by
    intro c mem
    have digit := Numeral.isDigit_of_mem_decimal mem
    refine ⟨?_, ?_, ?_, ?_⟩
    all_goals
      rintro rfl
      exact absurd digit (by decide)
  by_cases negative : n < 0
  · rw [Numeral.decimal_neg negative]
    exact isWord_append (by simp [IsWord]) (natural _)
  · obtain ⟨k, rfl⟩ := Int.eq_ofNat_of_zero_le (Int.not_lt.mp negative)
    exact natural k

theorem isWord_ofHexDigits (digits : List Nat) (h : ∀ digit ∈ digits, digit < 16) :
    IsWord (String.ofList (digits.map Numeral.hexDigit)) := by
  have all : ∀ k : Fin 16, Numeral.hexDigit k ≠ ',' ∧ Numeral.hexDigit k ≠ ' ' ∧
      Numeral.hexDigit k ≠ '\n' ∧ Numeral.hexDigit k ≠ '\r' := by decide
  intro c mem
  rw [String.toList_ofList] at mem
  obtain ⟨digit, isDigit, rfl⟩ := List.mem_map.mp mem
  exact all ⟨digit, h digit isDigit⟩

theorem isWord_hexByte (b : Byte) : IsWord (Numeral.hexByte b) := by
  have bound := b.toNat_lt
  refine isWord_ofHexDigits [b.toNat / 16, b.toNat % 16] ?_
  simp only [List.mem_cons, List.not_mem_nil, or_false, forall_eq_or_imp, forall_eq]
  omega

theorem isWord_hexWord (w : Word) : IsWord (Numeral.hexWord w) := by
  refine isWord_ofHexDigits [w.field 12 4, w.field 8 4, w.field 4 4, w.field 0 4] ?_
  simp only [List.mem_cons, List.not_mem_nil, or_false, forall_eq_or_imp, forall_eq]
  exact ⟨w.field_lt 12 4, w.field_lt 8 4, w.field_lt 4 4, w.field_lt 0 4⟩

theorem isWord_conditions (mask : Byte) : IsWord (conditions mask) := by
  intro c mem
  simp only [conditions, String.toList_ofList, List.mem_append, List.mem_ite_nil_right,
    List.mem_singleton] at mem
  rcases mem with (⟨-, rfl⟩ | ⟨-, rfl⟩) | ⟨-, rfl⟩ <;> decide

theorem Item.isWord_text (item : Item) : IsWord item.text := by
  cases item with
  | register number => exact isWord_append (by simp [IsWord]) (isWord_decimal _)
  | constant value => exact isWord_append (by simp [IsWord]) (isWord_decimal _)
  | vector number => exact isWord_append (by simp [IsWord]) (isWord_hexByte number)

/-- A mnemonic with its operands, or alone if it has none. -/
def spell (mnemonic : String) (operands : List String) : String :=
  if operands = [] then mnemonic else line mnemonic operands

/-- What stands between blanks, without commas. -/
def words (text : String) : List (List Char) := (text.toList.filter (· ≠ ',')).splitOn ' '

theorem filter_of_isWord {text : String} (h : IsWord text) :
    text.toList.filter (· ≠ ',') = text.toList :=
  List.filter_eq_self.mpr fun c mem => decide_eq_true (h c mem).1

theorem filter_intercalate {operands : List String} (h : ∀ o ∈ operands, IsWord o) :
    (", ".intercalate operands).toList.filter (· ≠ ',') =
      [' '].intercalate (operands.map String.toList) := by
  induction operands with
  | nil => rfl
  | cons o rest ih =>
    have first := filter_of_isWord (h o List.mem_cons_self)
    cases rest with
    | nil => simpa using first
    | cons next rest =>
      have following := ih fun o mem => h o (List.mem_cons_of_mem _ mem)
      rw [String.intercalate_cons_cons, String.toList_append, String.toList_append,
        List.filter_append, List.filter_append, first, following]
      simp

/-- The words of a line are its mnemonic and its operands. -/
theorem words_spell {mnemonic : String} {operands : List String} (head : IsWord mnemonic)
    (rest : ∀ o ∈ operands, IsWord o) :
    words (spell mnemonic operands) = (mnemonic :: operands).map String.toList := by
  have parts : (spell mnemonic operands).toList.filter (· ≠ ',') =
      [' '].intercalate ((mnemonic :: operands).map String.toList) := by
    rw [spell, List.map_cons]
    split
    · rename_i none
      rw [none, filter_of_isWord head]
      simp
    · rename_i some
      have blank : (" ".toList.filter (· ≠ ',')) = [' '] := rfl
      rw [line, String.toList_append, String.toList_append, List.filter_append, List.filter_append,
        filter_of_isWord head, filter_intercalate rest, blank,
        List.intercalate_cons_of_ne_nil (by simpa using some)]
  have pieces : ∀ o ∈ mnemonic :: operands, IsWord o := List.forall_mem_cons.mpr ⟨head, rest⟩
  rw [words, parts]
  refine List.splitOn_intercalate ' ' ?_ (List.cons_ne_nil _ _)
  intro chars mem blank
  obtain ⟨text, isPiece, rfl⟩ := List.mem_map.mp mem
  exact (pieces text isPiece ' ' blank).2.1 rfl

theorem IsWord.unbroken {text : String} (h : IsWord text) : Text.Unbroken text :=
  fun c mem => (h c mem).2.2

theorem unbroken_spell {mnemonic : String} {operands : List String} (head : IsWord mnemonic)
    (rest : ∀ o ∈ operands, IsWord o) : Text.Unbroken (spell mnemonic operands) := by
  have separated : Text.Unbroken (", ".intercalate operands) := by
    induction operands with
    | nil => nofun
    | cons o operands ih =>
      obtain ⟨first, rest⟩ := List.forall_mem_cons.mp rest
      cases operands with
      | nil => simpa using first.unbroken
      | cons next operands =>
        simp only [String.intercalate_cons_cons, Text.unbroken_append_iff]
        exact ⟨⟨first.unbroken, by decide⟩, ih rest⟩
  rw [spell]
  split
  · exact head.unbroken
  · simp only [line, Text.unbroken_append_iff]
    exact ⟨⟨head.unbroken, by decide⟩, separated⟩

end Assembly

namespace Instruction

open Assembly

/-- The mnemonic that an instruction is written with. -/
def mnemonic : Instruction → String
  | add .. => "ADD" | and .. => "AND" | not .. => "NOT" | ld .. => "LD" | ldi .. => "LDI"
  | ldr .. => "LDR" | lea .. => "LEA" | st .. => "ST" | sti .. => "STI" | str .. => "STR"
  | br mask _ => if mask = 0 then "NOP" else "BR" ++ conditions mask
  | jmp base => if base = 7 then "RET" else "JMP"
  | jsr (.offset _) => "JSR" | jsr (.register _) => "JSRR"
  | trap vector => ((Service.ofVector? vector).map Service.mnemonic).getD "TRAP"
  | rti => "RTI" | res => "RES"

/-- The operands that an instruction is written with. -/
def items : Instruction → List Item
  | add dr sr1 second | and dr sr1 second => [.register dr, .register sr1, .ofOperand second]
  | not dr sr => [.register dr, .register sr]
  | ld r offset | ldi r offset | lea r offset | st r offset | sti r offset =>
    [.register r, .constant offset]
  | ldr r base offset | str r base offset => [.register r, .register base, .constant offset]
  | br mask offset => if mask = 0 then [] else [.constant offset]
  | jmp base => if base = 7 then [] else [.register base]
  | jsr (.offset offset) => [.constant offset]
  | jsr (.register base) => [.register base]
  | trap vector => if (Service.ofVector? vector).isSome then [] else [.vector vector]
  | rti | res => []

theorem isWord_mnemonic (i : Instruction) : IsWord i.mnemonic := by
  cases i with
  | br mask offset =>
    simp only [mnemonic]
    split
    · simp [IsWord]
    · exact isWord_append (by simp [IsWord]) (isWord_conditions mask)
  | jmp base =>
    simp only [mnemonic]
    split <;> simp [IsWord]
  | jsr target => cases target <;> simp [IsWord, mnemonic]
  | trap vector =>
    simp only [mnemonic]
    cases Service.ofVector? vector with
    | none => simp [IsWord]
    | some routine => cases routine <;> simp [IsWord, Service.mnemonic]
  | _ => simp [IsWord, mnemonic]

theorem assembly_eq_spell (i : Instruction) :
    i.assembly = spell i.mnemonic (i.items.map Item.text) := by
  cases i with
  | br mask offset =>
    simp only [assembly, mnemonic, items]
    split <;> rfl
  | jmp base =>
    simp only [assembly, mnemonic, items]
    split <;> rfl
  | jsr target => cases target <;> rfl
  | add dr sr1 second => cases second <;> rfl
  | and dr sr1 second => cases second <;> rfl
  | trap vector =>
    simp only [assembly, call, mnemonic, items]
    cases Service.ofVector? vector with
    | none =>
      show "TRAP x" ++ Numeral.hexByte vector =
        "TRAP" ++ " " ++ ", ".intercalate ["x" ++ Numeral.hexByte vector]
      rw [String.intercalate_singleton, ← String.append_assoc]
      rfl
    | some routine => rfl
  | _ => rfl

theorem isWord_of_mem_items (i : Instruction) : ∀ o ∈ i.items.map Item.text, IsWord o := by
  intro o mem
  obtain ⟨item, -, rfl⟩ := List.mem_map.mp mem
  exact item.isWord_text

/-- Assembly text is on one line. -/
theorem unbroken_assembly (i : Instruction) : Text.Unbroken i.assembly := by
  rw [assembly_eq_spell]
  exact unbroken_spell i.isWord_mnemonic i.isWord_of_mem_items

/-- The condition bits of a mask, or the lowest mask without any. -/
def shownMask (mask : Byte) : Byte := if narrowNumber mask = 0 then 8 else narrowNumber mask

/-- An instruction without what its text does not show: the offset of a branch that never
branches, and the mask bits that name no condition. -/
def shown : Instruction → Instruction
  | br mask offset => if mask = 0 then br 0 0 else br (shownMask mask) offset
  | i => i

/-- The masks that are read back. -/
def shownMasks : List Byte := [1, 2, 3, 4, 5, 6, 7, 8]

/-- The instruction with a mnemonic and operands. -/
def ofParts? (mnemonic : String) (items : List Item) : Option Instruction :=
  match mnemonic, items with
  | "ADD", [.register dr, .register sr1, second] => second.operand?.map (add dr sr1)
  | "AND", [.register dr, .register sr1, second] => second.operand?.map (and dr sr1)
  | "NOT", [.register dr, .register sr] => some (not dr sr)
  | "LD", [.register dr, .constant offset] => some (ld dr offset)
  | "LDI", [.register dr, .constant offset] => some (ldi dr offset)
  | "LDR", [.register dr, .register base, .constant offset] => some (ldr dr base offset)
  | "LEA", [.register dr, .constant offset] => some (lea dr offset)
  | "ST", [.register sr, .constant offset] => some (st sr offset)
  | "STI", [.register sr, .constant offset] => some (sti sr offset)
  | "STR", [.register sr, .register base, .constant offset] => some (str sr base offset)
  | "JMP", [.register base] => some (jmp base)
  | "JSR", [.constant offset] => some (jsr (.offset offset))
  | "JSRR", [.register base] => some (jsr (.register base))
  | "TRAP", [.vector vector] => some (trap vector)
  | "NOP", [] => some (br 0 0)
  | "RET", [] => some (jmp 7)
  | "RTI", [] => some rti
  | "RES", [] => some res
  -- Of the other mnemonics the services stand alone and the branches before a constant.
  | name, [] => (Service.all.find? fun s => s.mnemonic == name).map fun s => trap s.vector
  | name, [.constant offset] =>
    (shownMasks.find? fun mask => "BR" ++ conditions mask == name).map fun mask => br mask offset
  | _, _ => none

theorem ofParts?_branch (offset : Int16) :
    ∀ mask ∈ shownMasks,
      ofParts? ("BR" ++ conditions mask) [.constant offset] = some (br mask offset) := by
  simp only [shownMasks, List.forall_mem_cons]
  refine ⟨rfl, rfl, rfl, rfl, rfl, rfl, rfl, rfl, ?_⟩
  simp

theorem ofParts?_service (s : Service) : ofParts? s.mnemonic [] = some (trap s.vector) := by
  cases s <;> rfl

/-- The shown mask is the only one from 1 to 8 with these condition bits. -/
theorem toNat_shownMask (mask : Byte) :
    (shownMask mask).toNat % 8 = mask.toNat % 8 ∧
      1 ≤ (shownMask mask).toNat ∧ (shownMask mask).toNat ≤ 8 := by
  have bits := toNat_narrowNumber mask
  rw [shownMask]
  split
  · rename_i none
    rw [none] at bits
    exact ⟨bits, by decide, by decide⟩
  · rename_i some
    rw [← UInt8.toNat_inj] at some
    have positive : (narrowNumber mask).toNat ≠ 0 := some
    omega

theorem shownMask_mem (mask : Byte) : shownMask mask ∈ shownMasks := by
  have all : ∀ k : Fin 9, 1 ≤ k.val → k.val.toUInt8 ∈ shownMasks := by decide
  obtain ⟨-, low, high⟩ := toNat_shownMask mask
  simpa using all ⟨(shownMask mask).toNat, Nat.lt_succ_of_le high⟩ low

theorem shownMask_ne_zero (mask : Byte) : shownMask mask ≠ 0 := by
  have low := (toNat_shownMask mask).2.1
  rintro zero
  rw [zero] at low
  exact absurd low (by decide)

theorem shownMask_eq_iff {a b : Byte} : shownMask a = shownMask b ↔ a % 8 = b % 8 := by
  have ha := toNat_shownMask a
  have hb := toNat_shownMask b
  rw [← UInt8.toNat_inj, ← UInt8.toNat_inj, UInt8.toNat_mod, UInt8.toNat_mod]
  show _ ↔ a.toNat % 8 = b.toNat % 8
  omega

theorem conditions_shownMask (mask : Byte) : conditions (shownMask mask) = conditions mask := by
  have value := toNat_shownMask mask
  have n : (shownMask mask).toNat / 4 % 2 = mask.toNat / 4 % 2 := by omega
  have z : (shownMask mask).toNat / 2 % 2 = mask.toNat / 2 % 2 := by omega
  have p : (shownMask mask).toNat % 2 = mask.toNat % 2 := by omega
  simp only [conditions, n, z, p]

theorem isIn_shownMask (flag : Flag) (mask : Byte) :
    flag.isIn (shownMask mask) = flag.isIn mask := by
  have value := toNat_shownMask mask
  have bit : (shownMask mask).toNat / flag.bits % 2 = mask.toNat / flag.bits % 2 := by
    cases flag <;> simp only [Flag.bits] <;> omega
  rw [Flag.isIn, Flag.isIn, bit]

/-- The parts of an instruction determine all of it that is shown. -/
theorem ofParts?_parts (i : Instruction) : ofParts? i.mnemonic i.items = some i.shown := by
  cases i with
  | br mask offset =>
    by_cases empty : mask = 0
    · rw [empty]
      rfl
    · -- The suffix is that of the shown mask, so one of eight.
      simp only [mnemonic, items, shown, if_neg empty]
      rw [← conditions_shownMask]
      exact ofParts?_branch offset _ (shownMask_mem mask)
  | jmp base =>
    by_cases link : base = 7
    · rw [link]
      rfl
    · simp only [mnemonic, items, if_neg link]
      rfl
  | trap vector =>
    simp only [mnemonic, items]
    cases h : Service.ofVector? vector with
    | none => rfl
    | some routine =>
      rw [Service.ofVector?_eq_some_iff.mp h]
      exact ofParts?_service routine
  | jsr target => cases target <;> rfl
  | add dr sr1 second => cases second <;> rfl
  | and dr sr1 second => cases second <;> rfl
  | _ => rfl

end Instruction

namespace Assembly

/-- The instruction that a text is written for. -/
def read? (text : String) : Option Instruction :=
  match words text with
  | [] => none
  | mnemonic :: operands => do
    let items ← operands.mapM Item.read?
    Instruction.ofParts? (String.ofList mnemonic) items

theorem mapM_read?_text (items : List Item) :
    (items.map fun item => item.text.toList).mapM Item.read? = some items := by
  induction items with
  | nil => rfl
  | cons item rest ih => simp [Item.read?_text, ih]

/-- What is read back from the text of an instruction is all of it that is shown. -/
theorem read?_assembly (i : Instruction) : read? i.assembly = some i.shown := by
  rw [read?, i.assembly_eq_spell, words_spell i.isWord_mnemonic i.isWord_of_mem_items,
    List.map_cons, List.map_map]
  show ((i.items.map fun item => item.text.toList).mapM Item.read? >>= fun items =>
    Instruction.ofParts? (String.ofList i.mnemonic.toList) items) = some i.shown
  rw [mapM_read?_text, String.ofList_toList]
  exact i.ofParts?_parts

example : read? "LDR R1, R6, #-12" = some (.ldr 1 6 (-12)) := by decide +kernel

end Assembly

namespace Instruction

theorem assembly_shown (i : Instruction) : i.shown.assembly = i.assembly := by
  cases i with
  | br mask offset =>
    by_cases empty : mask = 0
    · rw [empty]
      rfl
    · simp only [shown, if_neg empty, assembly, if_neg (shownMask_ne_zero mask),
        conditions_shownMask]
  | _ => rfl

theorem assembly_eq_iff_shown_eq (a b : Instruction) :
    a.assembly = b.assembly ↔ a.shown = b.shown := by
  constructor
  · intro same
    have read := Assembly.read?_assembly a
    rw [same, Assembly.read?_assembly] at read
    exact (Option.some.inj read).symm
  · intro same
    rw [← assembly_shown a, same, assembly_shown]

theorem opcode_shown (i : Instruction) : i.shown.opcode = i.opcode := by
  cases i with
  | br mask offset =>
    rw [shown]
    split <;> rfl
  | _ => rfl

theorem shown_of_ne_br {i : Instruction} (h : i.opcode ≠ .br) : i.shown = i := by
  cases i with
  | br mask offset => exact absurd rfl h
  | _ => rfl

theorem exists_of_opcode_br {i : Instruction} (h : i.opcode = .br) :
    ∃ mask offset, i = br mask offset := by
  cases i with
  | br mask offset => exact ⟨mask, offset, rfl⟩
  | _ => cases h

theorem shown_br_eq_iff {m m' : Byte} {o o' : Int16} :
    (br m o).shown = (br m' o').shown ↔
      (m = 0 ∧ m' = 0) ∨ (m ≠ 0 ∧ m' ≠ 0 ∧ m % 8 = m' % 8 ∧ o = o') := by
  by_cases left : m = 0 <;> by_cases right : m' = 0
  · simp [shown, left, right]
  · simp [shown, left, right, (shownMask_ne_zero m').symm]
  · simp [shown, left, right, shownMask_ne_zero m]
  · simp [shown, left, right, shownMask_eq_iff]

/-- Instructions that show alike are equal, or branches that never branch, or branches on the
same conditions. -/
theorem shown_eq_iff (a b : Instruction) :
    a.shown = b.shown ↔
      a = b ∨ (∃ o o', a = br 0 o ∧ b = br 0 o') ∨
        ∃ m m' o, a = br m o ∧ b = br m' o ∧ m ≠ 0 ∧ m' ≠ 0 ∧ m % 8 = m' % 8 := by
  constructor
  · intro same
    have code : a.opcode = b.opcode := by rw [← opcode_shown a, same, opcode_shown]
    by_cases branch : a.opcode = .br
    · obtain ⟨m, o, rfl⟩ := exists_of_opcode_br branch
      obtain ⟨m', o', rfl⟩ := exists_of_opcode_br (code ▸ branch)
      rcases shown_br_eq_iff.mp same with ⟨rfl, rfl⟩ | ⟨left, right, bits, rfl⟩
      · exact .inr (.inl ⟨o, o', rfl, rfl⟩)
      · exact .inr (.inr ⟨m, m', o, rfl, rfl, left, right, bits⟩)
    · rw [shown_of_ne_br branch, shown_of_ne_br (code ▸ branch)] at same
      exact .inl same
  · rintro (rfl | ⟨o, o', rfl, rfl⟩ | ⟨m, m', o, rfl, rfl, left, right, bits⟩)
    · rfl
    · exact shown_br_eq_iff.mpr (.inl ⟨rfl, rfl⟩)
    · exact shown_br_eq_iff.mpr (.inr ⟨left, right, bits, rfl⟩)

theorem mask_mod_of_decode {w : Word} {m : Byte} {o : Int16} (h : decode w = br m o) :
    m % 8 = m := by
  have narrow := narrowed_decode (w := w)
  rw [h] at narrow
  exact (br.inj narrow).1

end Instruction

open Instruction in
/-- Two words are written alike only if they hold one instruction or never branch. -/
theorem Assembly.ofWord_eq_iff (u v : Word) :
    ofWord u = ofWord v ↔
      decode u = decode v ∨ ∃ o o', decode u = .br 0 o ∧ decode v = .br 0 o' := by
  rw [ofWord, ofWord, assembly_eq_iff_shown_eq, shown_eq_iff]
  constructor
  · rintro (same | idle | ⟨m, m', o, hu, hv, -, -, bits⟩)
    · exact .inl same
    · exact .inr idle
    · rw [mask_mod_of_decode hu, mask_mod_of_decode hv] at bits
      exact .inl (by rw [hu, hv, bits])
  · rintro (same | idle)
    · exact .inl same
    · exact .inr (.inl idle)

/-- What an instruction does not show has no effect. -/
theorem Machine.execute_shown (m : Machine) (i : Instruction) :
    m.execute i.shown = m.execute i := by
  cases i with
  | br mask offset =>
    by_cases empty : mask = 0
    · have never : m.regs.cond.isIn 0 = false := by cases m.regs.cond <;> rfl
      simp [Instruction.shown, empty, execute, operate, never]
    · simp only [Instruction.shown, if_neg empty, execute, operate, Instruction.isIn_shownMask]
  | _ => rfl

/-- Assembly text is faithful: instructions are written alike only if they are equal, or are both
branches never taken, or branch alike. So words are written alike only if they hold one instruction
or branches never taken, and instructions with one text are one conversation with the console and
one result. -/
theorem Instruction.assembly_faithful :
    (∀ a b : Instruction, a.assembly = b.assembly ↔
      a = b ∨ (∃ o o', a = .br 0 o ∧ b = .br 0 o') ∨
        ∃ m m' o, a = .br m o ∧ b = .br m' o ∧ m ≠ 0 ∧ m' ≠ 0 ∧ m % 8 = m' % 8) ∧
    (∀ o, (br 0 o).assembly = "NOP") ∧
    (∀ u v : Word, Assembly.ofWord u = Assembly.ofWord v ↔
      decode u = decode v ∨ ∃ o o', decode u = .br 0 o ∧ decode v = .br 0 o') ∧
    ∀ a b : Instruction, a.assembly = b.assembly → ∀ m : Machine, m.execute a = m.execute b := by
  refine ⟨fun a b => ?_, fun o => rfl, Assembly.ofWord_eq_iff, ?_⟩
  · rw [assembly_eq_iff_shown_eq, shown_eq_iff]
  · intro a b same m
    rw [← Machine.execute_shown m a, (assembly_eq_iff_shown_eq a b).mp same,
      Machine.execute_shown]

end LittleComputer
