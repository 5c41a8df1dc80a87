import LittleComputer.Console.Scripted
import LittleComputer.Proofs.Flushing

/-!
# Strings on the console

A string stands in the cells from its address up to the first zero cell. After the top of
memory it goes on at address zero, and if no cell is zero it is made of all of them. PUTS writes
the low byte of each of its words; PUTSP writes both bytes, but for a high byte that is zero,
and flushes. So what was laid out for one of them is printed by it.
-/

namespace LittleComputer

/-! ## Where a string ends -/

namespace Memory

/-- The cell so many places after an address; address zero comes after the last. -/
def cellAfter (mem : Memory) (start : Word) (k : Nat) : Word :=
  mem.read ((start.toNat + k) % 65536).toUInt16

/-- The number of cells from an address up to the first that is zero, or of all cells if none is. -/
structure EndsAfter (mem : Memory) (start : Word) (n : Nat) : Prop where
  bound : n ≤ 65536
  nonzero : ∀ k < n, mem.cellAfter start k ≠ 0
  zero : n < 65536 → mem.cellAfter start n = 0

/-- Some words stand in the cells from an address on, with a zero cell behind them unless they
fill all cells. -/
structure Holds (mem : Memory) (start : Word) (words : List Word) : Prop where
  bound : words.length ≤ 65536
  word : ∀ (k : Nat) (inside : k < words.length), mem.cellAfter start k = words[k]
  zero : words.length < 65536 → mem.cellAfter start words.length = 0

variable {mem : Memory} {start : Word}

theorem cellAfter_eq (mem : Memory) (start : Word) (k : Nat) :
    mem.cellAfter start k = mem.read (start + k.toUInt16) := by
  have address : ((start.toNat + k) % 65536).toUInt16 = start + k.toUInt16 := by
    apply UInt16.toNat.inj
    simp only [Nat.toUInt16, UInt16.toNat_add, UInt16.toNat_ofNat']
    omega
  rw [cellAfter, address]

theorem EndsAfter.unique {n n' : Nat} (h : mem.EndsAfter start n) (h' : mem.EndsAfter start n') :
    n = n' := by
  rcases Nat.lt_trichotomy n n' with less | same | more
  · exact absurd (h.zero (Nat.lt_of_lt_of_le less h'.bound)) (h'.nonzero n less)
  · exact same
  · exact absurd (h'.zero (Nat.lt_of_lt_of_le more h.bound)) (h.nonzero n' more)

/-- The search passes only cells that are not zero, and stops at a zero cell unless it ends. -/
theorem distanceToZero_spec (mem : Memory) (start : Word) (passed fuel : Nat) :
    mem.distanceToZero start passed fuel ≤ passed + fuel ∧
      (∀ k, passed ≤ k → k < mem.distanceToZero start passed fuel →
        mem.cellAfter start k ≠ 0) ∧
      (mem.distanceToZero start passed fuel < passed + fuel →
        mem.cellAfter start (mem.distanceToZero start passed fuel) = 0) := by
  induction fuel generalizing passed with
  | zero =>
    refine ⟨Nat.le_refl _, fun k from_ upTo => ?_, fun less => ?_⟩
    · exact absurd upTo (Nat.not_lt_of_le from_)
    · exact absurd less (Nat.lt_irrefl _)
  | succ fuel ih =>
    rw [distanceToZero]
    by_cases zero : mem.read (start + passed.toUInt16) = 0
    · rw [if_pos zero]
      refine ⟨Nat.le_add_right _ _, fun k from_ upTo => ?_, fun _ => ?_⟩
      · exact absurd upTo (Nat.not_lt_of_le from_)
      · rw [cellAfter_eq, zero]
    · obtain ⟨bound, nonzero, ended⟩ := ih (passed + 1)
      rw [if_neg zero]
      refine ⟨by omega, fun k from_ upTo => ?_, fun less => ended (by omega)⟩
      rcases Nat.eq_or_lt_of_le from_ with rfl | later
      · rwa [cellAfter_eq]
      · exact nonzero k later upTo

theorem endsAfter_stringLength (mem : Memory) (start : Word) :
    mem.EndsAfter start (mem.stringLength start) := by
  obtain ⟨bound, nonzero, zero⟩ := mem.distanceToZero_spec start 0 size
  rw [Nat.zero_add] at bound zero
  exact ⟨bound, fun k => nonzero k (Nat.zero_le k), zero⟩

/-- A string is made of the cells before its end. -/
theorem stringAt_of_endsAfter {n : Nat} (h : mem.EndsAfter start n) :
    mem.stringAt start = (List.range n).map (mem.cellAfter start) := by
  rw [stringAt, (mem.endsAfter_stringLength start).unique h, funext (mem.cellAfter_eq start)]

/-- Words that are not zero are the string that they are held as. -/
theorem stringAt_of_holds {words : List Word} (holds : mem.Holds start words)
    (nonzero : ∀ w ∈ words, w ≠ 0) : mem.stringAt start = words := by
  have ends : mem.EndsAfter start words.length := by
    refine ⟨holds.bound, fun k inside => ?_, holds.zero⟩
    rw [holds.word k inside]
    exact nonzero _ (List.getElem_mem inside)
  rw [stringAt_of_endsAfter ends]
  apply List.ext_getElem
  · simp
  · intro k _ inside
    rw [List.getElem_map, List.getElem_range, holds.word k inside]

end Memory

/-! ## Bytes in words -/

namespace Word

theorem ofBytes_ne_zero {low : Byte} (h : low ≠ 0) (high : Byte) : ofBytes high low ≠ 0 := by
  intro zero
  apply h
  rw [← lowByte_ofBytes high low, zero]
  rfl

theorem lowByte_comp_toUInt16 : lowByte ∘ UInt8.toUInt16 = id :=
  funext UInt8.toUInt8_toUInt16

theorem toUInt16_ne_zero {b : Byte} (h : b ≠ 0) : b.toUInt16 ≠ 0 := by
  intro zero
  apply h
  rw [← b.toUInt8_toUInt16, zero]
  rfl

/-- Two bytes to a word, the low one first; the last word of an odd number has half of it zero. -/
def packed : List Byte → List Word
  | [] => []
  | [low] => [ofBytes 0 low]
  | low :: high :: rest => ofBytes high low :: packed rest

example : packed [0x48, 0x69, 0x21] = [0x6948, 0x0021] := by decide

end Word

namespace Machine

open Word (packed)

theorem packedBytes_ofBytes (high low : Byte) :
    packedBytes (.ofBytes high low) = if high = 0 then [low] else [low, high] := by
  simp [packedBytes]

theorem ne_zero_of_mem_packed {bytes : List Byte} (h : ∀ b ∈ bytes, b ≠ 0) :
    ∀ w ∈ packed bytes, w ≠ 0 := by
  induction bytes using Word.packed.induct with
  | case1 => nofun
  | case2 low =>
    rw [packed, List.forall_mem_singleton]
    exact Word.ofBytes_ne_zero (h low List.mem_cons_self) 0
  | case3 low high rest ih =>
    obtain ⟨first, -, later⟩ := List.forall_mem_cons.mp h |>.imp_right List.forall_mem_cons.mp
    rw [packed, List.forall_mem_cons]
    exact ⟨Word.ofBytes_ne_zero first high, ih later⟩

/-- Bytes that are not zero are unpacked as they were packed. -/
theorem flatMap_packed {bytes : List Byte} (h : ∀ b ∈ bytes, b ≠ 0) :
    (packed bytes).flatMap packedBytes = bytes := by
  induction bytes using Word.packed.induct with
  | case1 => rfl
  | case2 low =>
    rw [packed, List.flatMap_singleton, packedBytes_ofBytes, if_pos rfl]
  | case3 low high rest ih =>
    obtain ⟨-, second, later⟩ := List.forall_mem_cons.mp h |>.imp_right List.forall_mem_cons.mp
    rw [packed, List.flatMap_cons, packedBytes_ofBytes, if_neg second, ih later]
    rfl

theorem toNat_packedBytes (w : Word) :
    (packedBytes w).map UInt8.toNat =
      w.toNat % 256 :: if w.toNat / 256 = 0 then [] else [w.toNat / 256] := by
  have high : w.highByte = 0 ↔ w.toNat / 256 = 0 := by
    rw [← UInt8.toNat_inj, Word.highByte_toNat]
    rfl
  by_cases zero : w.highByte = 0
  · rw [packedBytes, if_pos zero, if_pos (high.mp zero), List.map_singleton, Word.lowByte_toNat]
  · rw [packedBytes, if_neg zero, if_neg (mt high.mpr zero), List.map_cons, List.map_singleton,
      Word.lowByte_toNat, Word.highByte_toNat]

example : packedBytes 0x4100 = [0x00, 0x41] ∧ packedBytes 0x0041 = [0x41] := by decide

theorem length_packedBytes (w : Word) :
    1 ≤ (packedBytes w).length ∧ (packedBytes w).length ≤ 2 := by
  rw [packedBytes]
  split
  · exact ⟨Nat.le_refl 1, Nat.le_succ 1⟩
  · exact ⟨Nat.le_succ 1, Nat.le_refl 2⟩

theorem length_flatMap_packedBytes (words : List Word) :
    words.length ≤ (words.flatMap packedBytes).length ∧
      (words.flatMap packedBytes).length ≤ 2 * words.length := by
  induction words with
  | nil => exact ⟨Nat.le_refl 0, Nat.le_refl 0⟩
  | cons w words ih =>
    have first := length_packedBytes w
    rw [List.flatMap_cons, List.length_append, List.length_cons]
    omega

end Machine

/-! ## What is said to a console that refuses nothing -/

/-- No call is refused, whatever was said before. -/
def Console.NeverRefuses {σ : Type} (console : Console σ) : Prop :=
  ∀ r state, Channel.fault? r (console.handler r state).1 = none

theorem ScriptedConsole.neverRefuses : ScriptedConsole.console.NeverRefuses := by
  rintro (- | byte | - | event) ⟨input, output, flushes⟩
  · cases input <;> rfl
  · rfl
  · rfl
  · rfl

/-- A byte or a flush that is not refused is done. -/
theorem Channel.eq_ok_of_fault? {answer : Except IoError Unit}
    (h : (∃ byte, fault? (.write byte) answer = none) ∨ fault? .flush answer = none) :
    answer = .ok () := by
  cases answer with
  | error fault => rcases h with ⟨byte, h⟩ | h <;> cases h
  | ok done => rfl

/-- The call by which a byte was written. -/
def Turn.wrote (byte : Byte) : Turn Channel := ⟨.write byte, .ok ()⟩

/-- The call by which what was written was flushed. -/
def Turn.flushed : Turn Channel := ⟨.flush, .ok ()⟩

namespace Conversation

variable {α β : Type} {a : α} {b : β} {first second : List (Turn Channel)}

/-- Console work with its calls and its result, on every console that refuses nothing. -/
def Speaks (talk : Conversation α) (calls : List (Turn Channel)) (result : α) : Prop :=
  ∀ {σ : Type} (console : Console σ), console.NeverRefuses → ∀ state,
    talk.run.calls console.handler state = calls ∧
      (talk.run.interp console.handler state).1 = .ok result

theorem speaks_pure (a : α) : Speaks (pure a) [] a := fun _ _ _ => ⟨rfl, rfl⟩

theorem speaks_bind {talk : Conversation α} {next : α → Conversation β}
    (speaks : Speaks talk first a) (rest : Speaks (next a) second b) :
    Speaks (talk >>= next) (first ++ second) b := by
  intro σ console serves state
  obtain ⟨calls, result⟩ := speaks console serves state
  rw [run_bind, Dialogue.calls_andThen, Dialogue.interp_andThen, calls, result]
  obtain ⟨calls', result'⟩ := rest console serves (talk.run.interp console.handler state).2
  exact ⟨congrArg (first ++ ·) calls', result'⟩

theorem speaks_writeByte (byte : Byte) : Speaks (writeByte byte) [.wrote byte] () := by
  intro σ console serves state
  have served := Channel.eq_ok_of_fault? (.inl ⟨byte, serves (.write byte) state⟩)
  have said : (writeByte byte).run.calls console.handler state =
      [⟨.write byte, (console.handler (.write byte) state).1⟩] := rfl
  have answer : (writeByte byte).run.interp console.handler state =
      console.handler (.write byte) state := rfl
  rw [said, answer, served]
  exact ⟨rfl, rfl⟩

theorem speaks_flush : Speaks flush [.flushed] () := by
  intro σ console serves state
  have served := Channel.eq_ok_of_fault? (.inr (serves .flush state))
  have said : flush.run.calls console.handler state =
      [⟨.flush, (console.handler .flush state).1⟩] := rfl
  have answer : flush.run.interp console.handler state = console.handler .flush state := rfl
  rw [said, answer, served]
  exact ⟨rfl, rfl⟩

theorem speaks_writeAll (bytes : List Byte) : Speaks (writeAll bytes) (bytes.map .wrote) () := by
  induction bytes with
  | nil => exact speaks_pure ()
  | cons byte rest ih => exact speaks_bind (speaks_writeByte byte) ih

end Conversation

namespace Machine

/-- The next step finishes, and it writes some bytes one by one and then flushes so many times, on
every console that refuses nothing. -/
structure Prints (m : Machine) (bytes : List Byte) (flushes : Nat) : Prop where
  finishes : ∀ {σ : Type} (console : Console σ), console.NeverRefuses → ∀ state,
    (m.step.interp console.handler state).1.1 = .ok m.nextInstruction
  calls : ∀ {σ : Type} (console : Console σ), console.NeverRefuses → ∀ state,
    m.step.calls console.handler state = bytes.map .wrote ++ List.replicate flushes .flushed
  /-- So a scripted console has these bytes more in its output and so many flushes more. -/
  scripted : ∀ c : ScriptedConsole, (m.step.interp ScriptedConsole.console.handler c).2 =
    ⟨c.input, c.output ++ bytes.toArray, c.flushes + flushes⟩

variable {m : Machine}

/-- What a routine says is said by the step that calls it. -/
theorem calls_step_of_speaks {routine : Service} {calls : List (Turn Channel)}
    {result : Option Word} (running : m.state = .running)
    (h : m.nextInstruction.routine? = some routine)
    (speaks : Conversation.Speaks (m.advance.converse routine) calls result) {σ : Type}
    (console : Console σ) (serves : console.NeverRefuses) (state : σ) :
    (m.step.interp console.handler state).1.1 = .ok m.nextInstruction ∧
      m.step.calls console.handler state = calls := by
  obtain ⟨state', said, ended⟩ := calls_step_of_routine console.handler running h state
  obtain ⟨calls', good⟩ := speaks console serves state'
  refine ⟨?_, said.trans calls'⟩
  rcases (careful_step running).outcome console.handler state with
    ⟨⟨word, -, value⟩, -⟩ | ⟨-, -, fault, -, -, -, value⟩
  · rw [value]
  · rw [value, good] at ended
    cases ended

end Machine

namespace ScriptedConsole

theorem replay_wrote (bytes : List Byte) (c : ScriptedConsole) :
    console.handler.replay c (bytes.map .wrote) =
      ⟨c.input, c.output ++ bytes.toArray, c.flushes⟩ := by
  induction bytes generalizing c with
  | nil =>
    have kept : c.output ++ ([] : List Byte).toArray = c.output := Array.append_empty
    rw [kept]
    rfl
  | cons byte rest ih =>
    have pushed : c.output ++ (byte :: rest).toArray = c.output.push byte ++ rest.toArray := by
      simp
    rw [pushed]
    exact ih ⟨c.input, c.output.push byte, c.flushes⟩

theorem replay_flushed (flushes : Nat) (c : ScriptedConsole) :
    console.handler.replay c (List.replicate flushes .flushed) =
      ⟨c.input, c.output, c.flushes + flushes⟩ := by
  induction flushes generalizing c with
  | zero => rfl
  | succ flushes ih =>
    rw [Nat.add_comm flushes 1, ← Nat.add_assoc, Nat.add_comm 1 flushes]
    exact ih ⟨c.input, c.output, c.flushes + 1⟩

end ScriptedConsole

namespace Machine

variable {m : Machine}

/-- A step over a service word prints what its routine has to say. -/
theorem prints_of_speaks {routine : Service} {bytes : List Byte} {flushes : Nat}
    {result : Option Word} (running : m.state = .running)
    (h : m.nextInstruction.routine? = some routine)
    (speaks : Conversation.Speaks (m.advance.converse routine)
      (bytes.map .wrote ++ List.replicate flushes .flushed) result) : m.Prints bytes flushes where
  finishes console serves state := (calls_step_of_speaks running h speaks console serves state).1
  calls console serves state := (calls_step_of_speaks running h speaks console serves state).2
  scripted c := by
    have calls := (calls_step_of_speaks running h speaks _ ScriptedConsole.neverRefuses c).2
    rw [Dialogue.interp_state_eq_replay, ← Dialogue.replay_filter_isCall, ← Dialogue.calls, calls,
      Handler.replay_append, ScriptedConsole.replay_wrote, ScriptedConsole.replay_flushed]

open Conversation in
theorem prints_puts (running : m.state = .running) (h : m.nextInstruction = .trap 0x22) :
    m.Prints (m.stringAtR0.map Word.lowByte) 0 := by
  have called : m.nextInstruction.routine? = some .puts := congrArg Instruction.routine? h
  exact prints_of_speaks running called (speaks_bind (speaks_writeAll _) (speaks_pure none))

open Conversation in
theorem prints_putsp (running : m.state = .running) (h : m.nextInstruction = .trap 0x24) :
    m.Prints (m.stringAtR0.flatMap packedBytes) 1 := by
  have called : m.nextInstruction.routine? = some .putsp := congrArg Instruction.routine? h
  exact prints_of_speaks running called
    (speaks_bind (speaks_writeAll _) (speaks_bind speaks_flush (speaks_pure none)))

/-- What PUTS and PUTSP print, on every console that refuses nothing. The string at R0 ends at one
place. PUTS writes the low byte of each cell before it and does not flush; PUTSP writes both bytes,
but for a high byte that is zero, and then flushes once. So they print any text without zeros that
is held with one byte and with two bytes to a cell. -/
theorem printed_string (m : Machine) (running : m.state = .running) :
    ∃ n, m.mem.EndsAfter (m.regs.get 0) n ∧
      (∀ n', m.mem.EndsAfter (m.regs.get 0) n' → n' = n) ∧
      (m.nextWord.toNat / 4096 = 15 → m.nextWord.toNat % 256 = 0x22 →
        ∃ bytes, m.Prints bytes 0 ∧ bytes.length = n ∧
          (bytes.map UInt8.toNat = (List.range n).map fun k =>
            (m.mem.cellAfter (m.regs.get 0) k).toNat % 256) ∧
          ∀ text : List Byte, (∀ b ∈ text, b ≠ 0) →
            m.mem.Holds (m.regs.get 0) (text.map UInt8.toUInt16) → bytes = text) ∧
      (m.nextWord.toNat / 4096 = 15 → m.nextWord.toNat % 256 = 0x24 →
        ∃ bytes, m.Prints bytes 1 ∧ n ≤ bytes.length ∧ bytes.length ≤ 2 * n ∧
          (bytes.map UInt8.toNat = (List.range n).flatMap fun k =>
            let cell := (m.mem.cellAfter (m.regs.get 0) k).toNat
            cell % 256 :: if cell / 256 = 0 then [] else [cell / 256]) ∧
          ∀ text : List Byte, (∀ b ∈ text, b ≠ 0) →
            m.mem.Holds (m.regs.get 0) (Word.packed text) → bytes = text) := by
  have ends := m.mem.endsAfter_stringLength (m.regs.get 0)
  have string : m.stringAtR0 = _ := Memory.stringAt_of_endsAfter ends
  refine ⟨_, ends, fun n' ends' => ends'.unique ends, ?_, ?_⟩
  · intro code low
    have puts := prints_puts running (Instruction.decode_of_code code low)
    refine ⟨_, puts, ?_, ?_, ?_⟩
    · simp [string]
    · rw [string, List.map_map, List.map_map]
      refine List.map_congr_left fun k _ => ?_
      exact Word.lowByte_toNat _
    · intro text nonzero holds
      have words : ∀ w ∈ text.map UInt8.toUInt16, w ≠ 0 :=
        List.forall_mem_map.mpr fun b mem => Word.toUInt16_ne_zero (nonzero b mem)
      rw [stringAtR0, Memory.stringAt_of_holds holds words, List.map_map,
        Word.lowByte_comp_toUInt16, List.map_id]
  · intro code low
    have putsp := prints_putsp running (Instruction.decode_of_code code low)
    have length := length_flatMap_packedBytes m.stringAtR0
    rw [string, List.length_map, List.length_range] at length
    refine ⟨_, putsp, ?_, ?_, ?_, ?_⟩
    · rw [string]
      exact length.1
    · rw [string]
      exact length.2
    · rw [string, List.map_flatMap, List.flatMap_map]
      refine List.flatMap_congr fun k _ => ?_
      exact toNat_packedBytes _
    · intro text nonzero holds
      rw [stringAtR0, Memory.stringAt_of_holds holds (ne_zero_of_mem_packed nonzero),
        flatMap_packed nonzero]

/-- PUTSP at the top of memory with its own address in R0: the string is the word that calls it,
since the cell after the top holds zero. -/
theorem printed_string_of_own_word :
    ((about 0xFFFF 0xF024).leaving (some 0xFFFF)).Prints [0x24, 0xF0] 1 := by
  have kept : ∀ m : Machine, (m.leaving (some 0xFFFF)).nextWord = m.nextWord ∧
      (m.leaving (some 0xFFFF)).mem = m.mem := fun _ => ⟨rfl, rfl⟩
  have word := nextWord_about 0xFFFF 0xF024
  have address : ((about 0xFFFF 0xF024).leaving (some 0xFFFF)).regs.get 0 = 0xFFFF :=
    Registers.get_set_self _ _ _
  have bottom : (about 0xFFFF 0xF024).mem.read 0 = 0 :=
    ((Memory.read_write _ _ _ _ Memory.size_initial).trans (if_neg (by decide))).trans
      (Memory.read_initial 0)
  have wrapped : ((0xFFFF : Word).toNat + 1) % 65536 = 0 := by decide
  have holds : (about 0xFFFF 0xF024).mem.Holds 0xFFFF (Word.packed [0x24, 0xF0]) := by
    refine ⟨by decide, fun k inside => ?_, fun _ => ?_⟩
    · obtain rfl : k = 0 := Nat.lt_one_iff.mp inside
      rw [Memory.cellAfter_eq]
      exact word
    · show Memory.cellAfter _ _ 1 = 0
      rw [Memory.cellAfter, wrapped]
      exact bottom
  obtain ⟨n, -, -, -, putsp⟩ :=
    printed_string ((about 0xFFFF 0xF024).leaving (some 0xFFFF)) rfl
  rw [(kept _).1, (kept _).2, word, address] at putsp
  have code : (0xF024 : Word).toNat / 4096 = 15 := by decide
  have low : (0xF024 : Word).toNat % 256 = 0x24 := by decide
  obtain ⟨bytes, prints, -, -, -, held⟩ := putsp code low
  have nonzero : ∀ b ∈ ([0x24, 0xF0] : List Byte), b ≠ 0 := by simp
  obtain rfl : bytes = [0x24, 0xF0] := held [0x24, 0xF0] nonzero holds
  exact prints

end Machine

end LittleComputer
