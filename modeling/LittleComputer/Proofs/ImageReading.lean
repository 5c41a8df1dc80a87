import LittleComputer.Proofs.ImageLoading
import LittleComputer.Proofs.RunLog

/-!
# Images read back

Words are written as an image with two bytes each, the high byte first, and an image is read two
bytes at a time. So words that were written are read again, and the words of an image tell all of
its bytes but a last one without a partner, which is reported. What follows an even number of
bytes is read as if it stood alone.
-/

namespace LittleComputer

namespace Image

/-! ## Bytes in pairs -/

/-- The words of bytes taken two at a time, the high byte first; a byte without a partner is left
out. -/
def paired : List Byte → List Word
  | high :: low :: rest => .ofBytes high low :: paired rest
  | [_] | [] => []

/-- The bytes of words, the high byte of each first. -/
def unpaired (words : List Word) : List Byte := words.flatMap fun w => [w.highByte, w.lowByte]

@[simp] theorem paired_cons (high low : Byte) (rest : List Byte) :
    paired (high :: low :: rest) = .ofBytes high low :: paired rest := rfl

@[simp] theorem unpaired_cons (w : Word) (rest : List Word) :
    unpaired (w :: rest) = w.highByte :: w.lowByte :: unpaired rest := rfl

@[simp] theorem paired_unpaired (words : List Word) : paired (unpaired words) = words := by
  induction words with
  | nil => rfl
  | cons w rest ih => simp [ih]

/-- Bytes are those of their words and what is left of them, a byte or none. -/
theorem exists_unpaired_append (given : List Byte) :
    ∃ left : List Byte, left.length = given.length % 2 ∧
      unpaired (paired given) ++ left = given := by
  induction given using paired.induct with
  | case1 high low rest ih =>
    obtain ⟨left, length, split⟩ := ih
    refine ⟨left, ?_, ?_⟩
    · rw [length, List.length_cons, List.length_cons]
      omega
    · simp [split]
  | case2 last => exact ⟨[last], rfl, rfl⟩
  | case3 => exact ⟨[], rfl, rfl⟩

/-- A pair never reaches over the end of an even number of bytes. -/
theorem paired_append {first : List Byte} (even : first.length % 2 = 0) (second : List Byte) :
    paired (first ++ second) = paired first ++ paired second := by
  induction first using paired.induct with
  | case1 high low rest ih =>
    have fewer : rest.length % 2 = 0 := by
      rw [List.length_cons, List.length_cons] at even
      omega
    simp [ih fewer]
  | case2 last => cases even
  | case3 => rfl

@[simp] theorem length_unpaired (words : List Word) :
    (unpaired words).length = 2 * words.length := by
  induction words with
  | nil => rfl
  | cons w rest ih =>
    rw [unpaired_cons, List.length_cons, List.length_cons, ih, List.length_cons]
    omega

theorem map_toNat_unpaired (words : List Word) :
    (unpaired words).map UInt8.toNat =
      words.flatMap fun w => [w.toNat / 256, w.toNat % 256] := by
  induction words with
  | nil => rfl
  | cons w rest ih =>
    simp [ih]

theorem getElem?_paired (given : List Byte) (i : Nat) :
    (paired given)[i]? = if 2 * i + 1 < given.length then
      some (.ofBytes (given.getD (2 * i) 0) (given.getD (2 * i + 1) 0)) else none := by
  induction given using paired.induct generalizing i with
  | case1 high low rest ih =>
    rw [paired_cons]
    cases i with
    | zero =>
      rw [List.getElem?_cons_zero, if_pos (by simp)]
      rfl
    | succ i =>
      have later : 2 * (i + 1) = 2 * i + 1 + 1 := rfl
      simp only [List.getElem?_cons_succ, ih, later, List.length_cons, List.getD_cons_succ,
        Nat.add_lt_add_iff_right]
  | case2 last =>
    rw [if_neg (by simp)]
    rfl
  | case3 =>
    rw [if_neg (by simp)]
    rfl

/-! ## Images -/

@[simp] theorem toList_words (image : Array Byte) : (words image).toList = paired image.toList := by
  apply List.ext_getElem?
  intro i
  have inside : i < image.size / 2 ↔ 2 * i + 1 < image.size := by omega
  simp only [getElem?_paired, words, Array.getElem?_toList, Array.getElem?_ofFn, inside,
    Array.length_toList, Array.getD_eq_getD_getElem?, List.getD_eq_getElem?_getD, dite_eq_ite]

@[simp] theorem toList_bytes (words : Array Word) :
    (bytes words).toList = unpaired words.toList := by
  rw [bytes, unpaired, Array.toList_flatMap]

@[simp] theorem size_bytes (words : Array Word) : (bytes words).size = 2 * words.size := by
  rw [← Array.length_toList, toList_bytes, length_unpaired, Array.length_toList]

@[simp] theorem words_bytes (written : Array Word) : words (bytes written) = written := by
  apply Array.toList_inj.mp
  simp

theorem words_append {first : Array Byte} (even : first.size % 2 = 0) (second : Array Byte) :
    words (first ++ second) = words first ++ words second := by
  apply Array.toList_inj.mp
  simp [paired_append even]

/-- An image is made of the bytes of its words and of what is left, a byte or none. -/
theorem exists_bytes_append (image : Array Byte) :
    ∃ left : Array Byte, left.size = image.size % 2 ∧ bytes (words image) ++ left = image := by
  obtain ⟨left, length, split⟩ := exists_unpaired_append image.toList
  refine ⟨left.toArray, length, ?_⟩
  apply Array.toList_inj.mp
  simp [split]

/-- Writing the words of an image gives the image again, without a last byte that has no partner. -/
theorem bytes_words (image : Array Byte) :
    bytes (words image) = if image.size % 2 = 1 then image.pop else image := by
  obtain ⟨left, size, split⟩ := exists_bytes_append image
  by_cases odd : image.size % 2 = 1
  · obtain ⟨last, rfl⟩ := Array.size_eq_one_iff.mp (size.trans odd)
    have popped := congrArg Array.pop split
    rw [Array.append_singleton, Array.pop_push] at popped
    rw [if_pos odd, popped]
  · have nothing : left = #[] := Array.size_eq_zero_iff.mp (by omega)
    rw [nothing, Array.append_empty] at split
    rw [if_neg odd, split]

example : words #[0xAB, 0xCD, 0xEF] = #[0xABCD] ∧ bytes #[0xABCD] = #[0xAB, 0xCD] := by decide

/-- The images with given words are their bytes, alone or with one byte more. -/
theorem words_eq_iff {image : Array Byte} {written : Array Word} :
    words image = written ↔
      ∃ left : Array Byte, left.size ≤ 1 ∧ bytes written ++ left = image := by
  constructor
  · rintro rfl
    obtain ⟨left, size, split⟩ := exists_bytes_append image
    exact ⟨left, by omega, split⟩
  · rintro ⟨left, short, rfl⟩
    have even : (bytes written).size % 2 = 0 := by
      rw [size_bytes]
      omega
    have wordless : words left = #[] := by
      rw [← Array.size_eq_zero_iff, size_words]
      omega
    simp [words_append even, wordless]

section
variable {σ : Type} (handler : Handler Channel σ) (state : σ)

theorem noted_parse (image : Array Byte) :
    noted ((parse image).turns handler state) =
      if image.size % 2 = 1 then [.oddImage image.size] else [] := by
  rw [parse]
  split <;> rfl

/-- Reading an image and writing its words undo each other, but for a byte without a partner. The
words of an image are written as its bytes without the last of an odd number, which is noted with
that number; nothing is noted otherwise. Words are written with the high byte of each first and are
read again. What follows an even number of bytes is read as if it stood alone, and the images with
given words are their bytes, alone or with one byte more. -/
theorem words_and_bytes_inverse :
    (∀ image : Array Byte, bytes ((parse image).interp handler state).1 =
      if image.size % 2 = 1 then image.pop else image) ∧
    (∀ image : Array Byte, (noted ((parse image).turns handler state)).map Event.entry =
      if image.size % 2 = 1 then
        [⟨.warn, "image has an odd number of bytes; trailing byte ignored",
          [("len", .number image.size)]⟩]
      else []) ∧
    (∀ written : Array Word, ((parse (bytes written)).interp handler state).1 = written ∧
      (bytes written).toList.map UInt8.toNat =
        written.toList.flatMap fun w => [w.toNat / 256, w.toNat % 256]) ∧
    (∀ first second : Array Byte, first.size % 2 = 0 →
      ((parse (first ++ second)).interp handler state).1 =
        ((parse first).interp handler state).1 ++ ((parse second).interp handler state).1) ∧
    ∀ (image : Array Byte) (written : Array Word),
      ((parse image).interp handler state).1 = written ↔
        ∃ left : Array Byte, left.size ≤ 1 ∧ bytes written ++ left = image := by
  simp only [interp_parse]
  refine ⟨bytes_words, fun image => ?_, fun written => ⟨words_bytes written, ?_⟩,
    fun _ second even => words_append even second, fun _ _ => words_eq_iff⟩
  · rw [noted_parse]
    split <;> rfl
  · simp [map_toNat_unpaired]

end

/-- An image of two bytes and one of three behind it: only the last byte is lost. -/
theorem words_and_bytes_inverse_of_five_bytes :
    (#[0xF0, 0x25] : Array Byte).size % 2 = 0 ∧
      ((parse (#[0xF0, 0x25] ++ #[0xAB, 0xCD, 0xEF])).interp
        (fun r (state : Unit) => (Channel.refusal r .noSpace, state)) ()).1 =
          #[0xF025, 0xABCD] := by
  have even : (#[0xF0, 0x25] : Array Byte).size % 2 = 0 := by decide
  obtain ⟨-, -, -, append, -⟩ := words_and_bytes_inverse
    (fun r (state : Unit) => (Channel.refusal r .noSpace, state)) ()
  refine ⟨even, ?_⟩
  rw [append _ _ even, interp_parse, interp_parse]
  decide

end Image

end LittleComputer
