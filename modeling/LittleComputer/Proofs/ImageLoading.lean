import LittleComputer.Image
import LittleComputer.Proofs.MemoryHistory
import LittleComputer.Proofs.Transcript

/-!
# Loading an image

Whatever the machine was doing, loading an image either puts the words of its bytes at the start
address and changes nothing else, or fails and changes nothing at all. It fails only if the file
cannot be read or has more words than there are cells from the start address upwards; a last
byte without a partner does not count. All this is done without a console call.
-/

namespace LittleComputer

namespace Image

/-- What loading gives, apart from what is reported. -/
def outcome (m : Machine) (path : String) :
    Except FileError (Array Byte) → Except ImageError Nat × Machine
  | .error failure => (.error (.ofFile path failure), m)
  | .ok bytes =>
    match m.load (words bytes) with
    | .ok loaded => (.ok (bytes.size / 2), loaded)
    | .error refusal => (.error (.tooLarge refusal), m)

section
variable {σ : Type} (handler : Handler Channel σ) (state : σ)

theorem interp_parse (bytes : Array Byte) :
    ((parse bytes).interp handler state).1 = words bytes := by
  rw [parse]
  split <;> rfl

/-- Loading gives its outcome, whoever takes the notes. -/
theorem interp_load (m : Machine) (path : String) (contents : Except FileError (Array Byte)) :
    ((load m path contents).interp handler state).1 = outcome m path contents := by
  cases contents with
  | error failure => rfl
  | ok bytes =>
    have parsed := interp_parse handler state bytes
    rw [load, Dialogue.bind_eq_andThen, Dialogue.interp_andThen, read, Dialogue.interp_map, parsed]
    simp only [Machine.loadProgram, outcome]
    cases m.load (words bytes) with
    | error refusal => rfl
    | ok loaded =>
      rw [← size_words]
      rfl

end

/-- Loading asks nothing of the console; all that it says are three notes. -/
theorem asks_load {P : Channel.Request → Prop} (m : Machine) (path : String)
    (contents : Except FileError (Array Byte)) (odd : ∀ length, P (.note (.oddImage length)))
    (put : ∀ words origin, P (.note (.programLoaded words origin)))
    (loaded : ∀ path words, P (.note (.imageLoaded path words))) :
    Dialogue.Asks P (load m path contents) := by
  have parsed (bytes : Array Byte) : Dialogue.Asks P (parse bytes) := by
    rw [parse]
    split
    · exact .ask (odd _) fun _ => .done _
    · exact .done _
  have placed (program : Array Word) : Dialogue.Asks P (m.loadProgram program) := by
    rw [Machine.loadProgram]
    split
    · exact .ask (put _ _) fun _ => .done _
    · exact .done _
  have found : Dialogue.Asks P (read path contents) := by
    cases contents with
    | error failure => exact .done _
    | ok bytes => exact (parsed bytes).andThen fun _ => .done _
  refine found.andThen ?_
  rintro (failure | program)
  · exact .done _
  · refine (placed program).andThen ?_
    rintro ⟨refusal | done, m⟩
    · exact .done _
    · exact .ask (loaded _ _) fun _ => .done _

/-- What a word of an image is, in numbers. -/
theorem toNat_words (bytes : Array Byte) {i : Nat} (inside : i < bytes.size / 2) (old : Word) :
    ((words bytes).getD i old).toNat = 256 * bytes[2 * i].toNat + bytes[2 * i + 1].toNat := by
  have bound : i < (words bytes).size := by rwa [size_words]
  have high : 2 * i < bytes.size := by omega
  have low : 2 * i + 1 < bytes.size := by omega
  rw [Array.getD_eq_getD_getElem?, Array.getElem?_eq_getElem bound, Option.getD_some]
  simp only [words, Array.getElem_ofFn, Word.ofBytes_toNat, Array.getD_eq_getD_getElem?,
    Array.getElem?_eq_getElem high, Array.getElem?_eq_getElem low, Option.getD_some]
  omega

end Image

namespace Machine

/-- The machine holds an image that was loaded, and is otherwise as it was. -/
structure Holds (bytes : Array Byte) (before loaded : Machine) : Prop where
  /-- The cells from the start address upwards hold the pairs of bytes, -/
  inside : ∀ i (_ : i < bytes.size / 2) (address : Word), address.toNat = 0x3000 + i →
    (loaded.mem.read address).toNat = 256 * bytes[2 * i].toNat + bytes[2 * i + 1].toNat
  /-- and every other cell holds what it held. -/
  outside : ∀ address : Word,
    address.toNat < 0x3000 ∨ 0x3000 + bytes.size / 2 ≤ address.toNat →
      loaded.mem.read address = before.mem.read address
  size : loaded.mem.cells.size = before.mem.cells.size
  regs : loaded.regs = before.regs
  state : loaded.state = before.state
  cycles : loaded.cycles = before.cycles

theorem holds_of_load {bytes : Array Byte} {m : Machine} {mem : Memory}
    (full : m.mem.cells.size = Memory.size)
    (h : m.mem.load start (Image.words bytes) = .ok mem) : Holds bytes m { m with mem := mem } := by
  have origin : start.toNat = 0x3000 := rfl
  refine ⟨?_, ?_, Memory.size_load h, rfl, rfl, rfl⟩
  · intro i inside address place
    have reached : start.toNat ≤ address.toNat := by omega
    have index : address.toNat - start.toNat = i := by omega
    show (mem.read address).toNat = _
    rw [Memory.read_load h full, if_pos reached, index, Image.toNat_words bytes inside]
  · intro address place
    show mem.read address = _
    rw [Memory.read_load h full]
    split
    · -- Above the program the word that is looked for is not there.
      have past : (Image.words bytes).size ≤ address.toNat - start.toNat := by
        rw [Image.size_words]
        omega
      rw [Array.getD_eq_getD_getElem?, Array.getElem?_eq_none past, Option.getD_none]
    · rfl

theorem exists_load_of_fits {bytes : Array Byte} (m : Machine)
    (full : m.mem.cells.size = Memory.size) (fits : bytes.size / 2 ≤ 0xD000) :
    ∃ loaded, m.load (Image.words bytes) = .ok loaded ∧ Holds bytes m loaded := by
  have room : start.toNat + (Image.words bytes).size ≤ Memory.size := by
    have origin : start.toNat = 0x3000 := rfl
    rw [Image.size_words, Memory.size]
    omega
  obtain ⟨mem, h⟩ := m.mem.load_of_fits room
  refine ⟨{ m with mem := mem }, ?_, holds_of_load full h⟩
  rw [load, h]

theorem load_of_too_large {bytes : Array Byte} (m : Machine) (large : 0xD000 < bytes.size / 2) :
    m.load (Image.words bytes) = .error ⟨bytes.size / 2, 0xD000⟩ := by
  have past : Memory.size < start.toNat + (Image.words bytes).size := by
    have origin : start.toNat = 0x3000 := rfl
    rw [Image.size_words, Memory.size]
    omega
  have left : Memory.size - start.toNat = 0xD000 := rfl
  simp [load, m.mem.load_of_too_large past, left]

/-- Loading an image is exact, and all or nothing: an image that fits is put in its place, and one
that does not is refused, as is a file that cannot be read. -/
theorem load_all_or_nothing {σ : Type} (handler : Handler Channel σ) (state : σ) (m : Machine)
    (path : String) (full : m.mem.cells.size = 65536) :
    (∀ bytes : Array Byte, bytes.size / 2 ≤ 0xD000 →
      ∃ loaded, ((Image.load m path (.ok bytes)).interp handler state).1 =
          (.ok (bytes.size / 2), loaded) ∧ Holds bytes m loaded) ∧
    (∀ bytes : Array Byte, 0xD000 < bytes.size / 2 →
      ((Image.load m path (.ok bytes)).interp handler state).1 =
        (.error (.tooLarge ⟨bytes.size / 2, 0xD000⟩), m)) ∧
    ((Image.load m path (.error .notFound)).interp handler state).1 =
      (.error (.notFound path), m) ∧
    ∀ fault, ((Image.load m path (.error (.io fault))).interp handler state).1 =
      (.error (.io path fault), m) := by
  refine ⟨?_, ?_, ?_, ?_⟩
  · intro bytes fits
    obtain ⟨loaded, h, holds⟩ := m.exists_load_of_fits full fits
    refine ⟨loaded, ?_, holds⟩
    simp only [Image.interp_load, Image.outcome, h]
  · intro bytes large
    simp only [Image.interp_load, Image.outcome, m.load_of_too_large large]
  · exact Image.interp_load handler state m path (.error .notFound)
  · intro fault
    exact Image.interp_load handler state m path (.error (.io fault))

/-- An image of three bytes in a machine that has stopped: one word, and the third byte is lost. -/
theorem load_all_or_nothing_of_three_bytes :
    ∃ loaded, ((Image.load { initial with state := .halted } "a" (.ok #[0xF0, 0x25, 0x99])).interp
        (fun r (state : Unit) => (Channel.refusal r .noSpace, state)) ()).1 = (.ok 1, loaded) ∧
      (loaded.mem.read 0x3000).toNat = 0xF025 ∧ loaded.mem.read 0x3001 = 0 ∧
      loaded.state = .halted := by
  have full : { initial with state := .halted : Machine }.mem.cells.size = 65536 :=
    Memory.size_initial
  obtain ⟨fits, -⟩ := load_all_or_nothing
    (fun r (state : Unit) => (Channel.refusal r .noSpace, state)) () _ "a" full
  obtain ⟨loaded, answer, holds⟩ := fits #[0xF0, 0x25, 0x99] (by decide)
  refine ⟨loaded, answer, ?_, ?_, holds.state⟩
  · exact holds.inside 0 (by decide) 0x3000 rfl
  · exact (holds.outside 0x3001 (Or.inr (by decide))).trans (Memory.read_initial _)

end Machine

end LittleComputer
