import LittleComputer.Machine.Command
import LittleComputer.Proofs.Budget
import LittleComputer.Proofs.CheckedDecoding

/-!
# Every operation stays in range

On a machine with all of its cells no operation fails a check: it is the unchecked operation, with
the same calls on every console. Every command keeps all of the cells, so this holds of every
machine that can be reached. The only sum that can wrap around is the count of a single step, and
there its check does fail (`step?_of_full_counter`); a bounded run stops before it. A reset leaves
no trace of what was done before.
-/

namespace LittleComputer

namespace Checked

variable {α β : Type}

theorem check_some (value : α) : check (some value) = pure value := rfl

theorem plain_bind (d : Dialogue Channel α) (f : α → Dialogue Channel β) :
    plain d >>= (fun value => plain (f value)) = plain (d >>= f) := (OptionT.lift_bind d f).symm

theorem plain_map (d : Dialogue Channel α) (f : α → β) :
    plain d >>= (fun value => pure (f value)) = plain (f <$> d) := by
  rw [map_eq_pure_bind]
  exact plain_bind d fun value => .done (f value)

theorem plain_bind_eq (d : Dialogue Channel α) (f : α → Checked β) :
    plain d >>= f = OptionT.mk (d.andThen fun value => (f value).run) :=
  congrArg OptionT.mk (Dialogue.andThen_assoc d _ _)

/-- Going on in two ways after a careful dialogue is the same if they agree on its values. -/
theorem plain_bind_congr {atFault : IoError → α} {Good : α → Prop} {d : Dialogue Channel α}
    {f g : α → Checked β} (careful : Dialogue.Careful atFault Good d)
    (ends : ∀ fault, f (atFault fault) = g (atFault fault))
    (goes : ∀ value, Good value → f value = g value) : plain d >>= f = plain d >>= g := by
  rw [plain_bind_eq, plain_bind_eq]
  exact congrArg OptionT.mk (careful.andThen_congr ends goes)

end Checked

namespace CheckedTalk

variable {α β : Type}

theorem check_some (value : α) : check (some value) = pure value := rfl

theorem plain_bind (talk : Conversation α) (next : α → Conversation β) :
    plain talk >>= (fun value => plain (next value)) = plain (talk >>= next) := by
  refine Eq.trans ?_ (OptionT.lift_bind talk.run (ExceptT.bindCont next)).symm
  refine congrArg (Checked.plain talk.run >>= ·) (funext fun answer => ?_)
  cases answer with
  | ok value => rfl
  | error fault => rfl

end CheckedTalk

namespace Registers

variable (regs : Registers) (number : Byte) (value : Word)

theorem toNat_index : (number &&& 7).toNat = number.toNat % 8 := by
  rw [UInt8.toNat_and]
  exact Nat.and_two_pow_sub_one_eq_mod number.toNat 3

theorem get?_eq : regs.get? number = some (regs.get number) := by
  have bound : number.toNat % 8 < 8 := Nat.mod_lt _ (by decide)
  rw [get?, toNat_index, Vector.getElem?_toArray, Vector.getElem?_eq_getElem bound]
  rfl

theorem set?_eq : regs.set? number value = some (regs.set number value) := by
  have bound : (number &&& 7).toNat < 8 := by
    rw [toNat_index]
    exact Nat.mod_lt _ (by decide)
  rw [set?, dif_pos bound]
  simp only [toNat_index]
  rfl

theorem updateFlag?_eq : regs.updateFlag? number = some (regs.updateFlag number) := by
  simp only [updateFlag?, get?_eq, Flag.ofWord?_eq, Option.bind_eq_bind, Option.bind_some,
    Option.pure_def]
  rfl

theorem assign?_eq : regs.assign? number value = some (regs.assign number value) := by
  rw [assign?, set?_eq]
  exact updateFlag?_eq _ number

end Registers

namespace Memory

/-- Cells with a range of them replaced by words, piece by piece and cell by cell. -/
theorem replaced_eq_mapIdx {cells words : Array Word} {start : Nat}
    (fits : start + words.size ≤ cells.size) :
    cells.extract 0 start ++ words ++ cells.extract (start + words.size) cells.size =
      cells.mapIdx fun i old => if start ≤ i then words.getD (i - start) old else old := by
  have left : (cells.extract 0 start).size = start := by
    rw [Array.size_extract]
    omega
  have both : (cells.extract 0 start ++ words).size = start + words.size := by
    rw [Array.size_append, left]
  apply Array.ext
  · rw [Array.size_append, both, Array.size_extract, Array.size_mapIdx]
    omega
  · intro i bound bound'
    rw [Array.size_mapIdx] at bound'
    rw [Array.getElem_mapIdx, Array.getD_eq_getD_getElem?]
    by_cases before : i < start
    · have inside : i < (cells.extract 0 start ++ words).size := by omega
      rw [if_neg (by omega), Array.getElem_append_left inside, Array.getElem_append_left (by omega),
        Array.getElem_extract]
      simp only [Nat.zero_add]
    · rw [if_pos (by omega)]
      by_cases within : i < start + words.size
      · have inside : i < (cells.extract 0 start ++ words).size := by omega
        have index : i - start < words.size := by omega
        rw [Array.getElem_append_left inside, Array.getElem_append_right (by omega),
          Array.getElem?_eq_getElem index]
        simp only [left, Option.getD_some]
      · rw [Array.getElem_append_right (by omega), Array.getElem_extract,
          Array.getElem?_eq_none (by omega)]
        simp only [both, Option.getD_none]
        congr 1
        omega

variable {mem : Memory} (full : mem.cells.size = size)

include full

theorem read?_eq (address : Word) : mem.read? address = some (mem.read address) := by
  have inside : address.toNat < mem.cells.size := by
    rw [full]
    exact address.toNat_lt
  rw [read?, read, Array.getD_eq_getD_getElem?, Array.getElem?_eq_getElem inside]
  rfl

theorem write?_eq (address value : Word) :
    mem.write? address value = some (mem.write address value) := by
  have inside : address.toNat < mem.cells.size := by
    rw [full]
    exact address.toNat_lt
  rw [write?, dif_pos inside, write, Array.setIfInBounds_def, dif_pos inside]

theorem copy?_eq {origin : Word} {program : Array Word}
    (fits : origin.toNat + program.size ≤ size) :
    mem.copy? origin.toNat (origin.toNat + program.size) program =
      some ⟨mem.cells.mapIdx fun i old =>
        if origin.toNat ≤ i then program.getD (i - origin.toNat) old else old⟩ := by
  have range : origin.toNat ≤ origin.toNat + program.size ∧
      origin.toNat + program.size ≤ mem.cells.size ∧
      origin.toNat + program.size - origin.toNat = program.size := by omega
  rw [copy?, if_pos range, replaced_eq_mapIdx range.2.1]

theorem load?_eq (origin : Word) (program : Array Word) :
    mem.load? origin program = some (mem.load origin program) := by
  have bound := origin.toNat_lt
  have available : Checked.difference? size origin.toNat = some (size - origin.toNat) :=
    if_pos (Nat.le_of_lt bound)
  simp only [load?, load, available, Option.bind_eq_bind, Option.bind_some]
  by_cases fits : program.size ≤ size - origin.toNat
  · have inside : origin.toNat + program.size ≤ size := by
      simp only [size] at fits ⊢
      omega
    have stop : Checked.sum? origin.toNat program.size = some (origin.toNat + program.size) :=
      if_pos (Nat.lt_of_le_of_lt inside (by decide))
    rw [if_neg (Nat.not_lt.mpr fits), if_pos fits, stop, Option.bind_some, copy?_eq full inside]
    rfl
  · rw [if_pos (Nat.lt_of_not_le fits), if_neg fits]
    rfl

section
variable {write : Word → CheckedTalk Unit} {bytes : Word → List Byte}
  (writes : ∀ w, write w = CheckedTalk.plain (Conversation.writeAll (bytes w)))

include writes

/-- Reading a string while it is written stays in range and puts out its bytes. -/
theorem writeText?_eq (start : Word) (passed fuel : Nat) :
    mem.writeText? write start passed fuel = CheckedTalk.plain (Conversation.writeAll
      ((((List.range' passed fuel).map fun k => mem.read (start + k.toUInt16)).takeWhile
        (· ≠ 0)).flatMap bytes)) := by
  induction fuel generalizing passed with
  | zero => rfl
  | succ fuel ih =>
    rw [writeText?, read?_eq full, CheckedTalk.check_some, pure_bind, List.range'_succ,
      List.map_cons]
    by_cases zero : mem.read (start + passed.toUInt16) = 0
    · rw [if_pos zero, List.takeWhile_cons_of_neg (by simp [zero])]
      rfl
    · rw [if_neg zero, List.takeWhile_cons_of_pos (by simp [zero]), List.flatMap_cons,
        Conversation.writeAll_append, ← CheckedTalk.plain_bind, writes, ih]

theorem writeText?_stringAt (start : Word) :
    mem.writeText? write start 0 size =
      CheckedTalk.plain (Conversation.writeAll ((mem.stringAt start).flatMap bytes)) := by
  rw [writeText?_eq full writes, stringAt_eq, cellsFrom, List.range_eq_range']

end

end Memory

namespace Machine

variable {m : Machine}

theorem assign?_eq (m : Machine) (number : Byte) (value : Word) :
    m.assign? number value = some (m.assign number value) := by
  rw [assign?, Registers.assign?_eq]
  rfl

theorem store?_eq (full : m.mem.cells.size = Memory.size) (address value : Word) :
    m.store? address value = some (m.store address value) := by
  rw [store?, Memory.write?_eq full]
  rfl

theorem operandValue?_eq (m : Machine) (operand : Operand) :
    m.operandValue? operand = some (m.operandValue operand) := by
  cases operand with
  | register number => exact m.regs.get?_eq number
  | immediate value => rfl

theorem targetAddress?_eq (m : Machine) (target : CallTarget) :
    m.targetAddress? target = some (m.targetAddress target) := by
  cases target with
  | offset value => rfl
  | register number => exact m.regs.get?_eq number

/-- The plain effect of an instruction, with its checks. -/
theorem operate?_eq (full : m.mem.cells.size = Memory.size) (i : Instruction) :
    m.operate? i = some (m.operate i) := by
  have read := Memory.read?_eq full
  cases i with
  | br mask offset =>
    simp only [operate?, operate]
    split
    · rfl
    · rfl
  | _ =>
    simp only [operate?, operate, read, Registers.get?_eq, Registers.set?_eq, operandValue?_eq,
      targetAddress?_eq, assign?_eq, store?_eq full, pointerAt, Option.bind_eq_bind,
      Option.bind_some, Option.pure_def]

open Conversation in
theorem writePacked?_eq (w : Word) :
    writePacked? w = CheckedTalk.plain (writeAll (packedBytes w)) := by
  have inside : 8 < 16 := by decide
  have high : (w >>> (8 : Nat).toUInt16).toUInt8 = w.highByte := by
    have bound := w.toNat_lt
    apply UInt8.toNat.inj
    rw [UInt16.toNat_toUInt8, Word.toNat_shiftRight w inside, Word.highByte_toNat]
    omega
  rw [writePacked?, w.shiftRight?_eq inside, CheckedTalk.check_some, pure_bind, high, packedBytes]
  by_cases zero : w.highByte = 0
  · rw [if_pos zero, if_pos zero, writeAll_cons, ← CheckedTalk.plain_bind]
    rfl
  · rw [if_neg zero, if_neg zero, writeAll_cons, writeAll_singleton, ← CheckedTalk.plain_bind]

theorem nextCount?_eq {count : UInt64} (room : count.toNat + 1 < 2 ^ 64) :
    nextCount? count = some (count + 1) := if_pos room

open Conversation in
/-- The console work of a routine, with its checks. -/
theorem converse?_eq (full : m.mem.cells.size = Memory.size)
    (room : m.cycles.toNat + 1 < 2 ^ 64) (routine : Service) :
    m.converse? routine = CheckedTalk.plain (m.converse routine) := by
  have start : CheckedTalk.check (m.regs.get? 0) = pure (m.regs.get 0) := by
    rw [Registers.get?_eq]
    rfl
  cases routine with
  | getc => rfl
  | input => rfl
  | out =>
    rw [converse?, start, pure_bind, converse, ← CheckedTalk.plain_bind]
    rfl
  | puts =>
    have writes : ∀ w : Word, CheckedTalk.plain (writeByte w.lowByte) =
        CheckedTalk.plain (writeAll [w.lowByte]) := by
      intro w
      rw [writeAll_singleton]
    have bytes : m.stringAtR0.flatMap (fun w => [w.lowByte]) = m.stringAtR0.map Word.lowByte :=
      List.map_eq_flatMap.symm
    rw [converse?, start, pure_bind, Memory.writeText?_stringAt full writes, converse,
      ← CheckedTalk.plain_bind, ← bytes]
    rfl
  | putsp =>
    rw [converse?, start, pure_bind, Memory.writeText?_stringAt full writePacked?_eq, converse,
      ← CheckedTalk.plain_bind]
    refine congrArg (_ >>= ·) (funext fun _ => ?_)
    rw [← CheckedTalk.plain_bind]
    rfl
  | halt =>
    rw [converse?, nextCount?_eq room, converse, ← CheckedTalk.plain_bind]
    refine congrArg (_ >>= ·) (funext fun _ => ?_)
    rw [CheckedTalk.check_some, pure_bind, ← CheckedTalk.plain_bind]
    rfl

theorem leaving?_eq (m : Machine) (word : Option Word) :
    m.leaving? word = some (m.leaving word) := by
  cases word with
  | none => rfl
  | some value =>
    rw [leaving?, Registers.set?_eq]
    rfl

theorem afterWork?_eq (m : Machine) (outcome : Except IoError (Option Word)) :
    m.afterWork? outcome = some (m.afterWork outcome) := by
  cases outcome with
  | error fault => rfl
  | ok result =>
    rw [afterWork?, leaving?_eq]
    rfl

theorem call?_eq (full : m.mem.cells.size = Memory.size) (room : m.cycles.toNat + 1 < 2 ^ 64)
    (vector : Byte) : m.call? vector = Checked.plain (m.call vector) := by
  cases h : Service.ofVector? vector with
  | none => rw [call?, h]
  | some routine =>
    have after (outcome : Except IoError (Option Word)) :
        Checked.check ((m.entering routine).afterWork? outcome) =
          pure ((m.entering routine).afterWork outcome) := by
      rw [afterWork?_eq]
      rfl
    simp only [call?, call, h, converse?_eq full room, after]
    exact Checked.plain_map _ _

theorem execute?_of_silent (full : m.mem.cells.size = Memory.size) {i : Instruction}
    (silent : i.routine? = none) : m.execute? i = Checked.plain (m.execute i) := by
  cases i with
  | trap vector =>
    rw [Instruction.routine?] at silent
    rw [execute?, call?, silent]
    rfl
  | rti => rfl
  | res => rfl
  | _ =>
    rw [execute?, operate?_eq full]
    rfl

theorem execute?_eq (full : m.mem.cells.size = Memory.size) (room : m.cycles.toNat + 1 < 2 ^ 64)
    (i : Instruction) : m.execute? i = Checked.plain (m.execute i) := by
  cases h : i.routine? with
  | none => exact execute?_of_silent full h
  | some routine =>
    rw [Instruction.routine?_eq_some_iff.mp h]
    exact call?_eq full room routine.vector

theorem finish?_eq {i : Instruction} {outcome : Except IoError Unit × Machine}
    (room : outcome.2.cycles.toNat + 1 < 2 ^ 64) :
    Checked.check (finish? i outcome) = pure (finish i outcome) := by
  obtain ⟨fault | done, after⟩ := outcome
  · rfl
  · rw [finish?, nextCount?_eq room]
    rfl

theorem step?_of_running (full : m.mem.cells.size = Memory.size) (running : m.state = .running) :
    m.step? = Checked.plain (note (.executing m.regs.pc m.nextWord m.nextInstruction)) >>= fun _ =>
      m.advance.execute? m.nextInstruction >>= fun outcome =>
        Checked.check (finish? m.nextInstruction outcome) := by
  simp only [step?, running, Memory.read?_eq full, Checked.check_some, Instruction.decode?_eq,
    pure_bind]
  rfl

/-- A step with room for its count, with its checks. -/
theorem step?_eq (full : m.mem.cells.size = Memory.size) (room : m.cycles.toNat + 1 < 2 ^ 64) :
    m.step? = Checked.plain m.step := by
  cases state : m.state with
  | halted =>
    rw [step?, step, state]
    rfl
  | running =>
    have finished : (Checked.plain (m.advance.execute m.nextInstruction) >>= fun outcome =>
        Checked.check (finish? m.nextInstruction outcome)) =
          Checked.plain (finish m.nextInstruction <$> m.advance.execute m.nextInstruction) := by
      rw [← Checked.plain_map]
      apply Checked.plain_bind_congr (careful_execute m)
      · intro fault
        rfl
      · rintro _ ⟨word, -, rfl⟩
        apply finish?_eq
        rw [cycles_leaving, cycles_operate]
        exact room
    have step : m.step = note (.executing m.regs.pc m.nextWord m.nextInstruction) >>= fun _ =>
        finish m.nextInstruction <$> m.advance.execute m.nextInstruction := step_of_running state
    rw [step, ← Checked.plain_bind, ← finished, step?_of_running full state,
      execute?_eq (m := m.advance) full room]

theorem size_entered (m : Machine) : m.entered.mem.cells.size = m.mem.cells.size := rfl

theorem size_finished (m : Machine) (word : Option Word) :
    (m.finished word).mem.cells.size = m.mem.cells.size := by
  have kept := size_operate m.entered m.nextInstruction
  cases word with
  | none => exact kept
  | some value => exact kept

theorem countSince?_eq {start count : UInt64} (le : start ≤ count) :
    countSince? start count = some (count - start) := if_pos le

/-- The loop of a bounded run with its count, with all checks. The count is taken into the
induction, since no step makes the counter smaller than it was at the start. -/
theorem stepsBelow?_eq {limit start : UInt64} {fuel : Nat}
    (full : m.mem.cells.size = Memory.size) (le : start ≤ m.cycles) :
    (stepsBelow? limit fuel m >>= fun answer => Checked.check (counted? start answer)) =
      Checked.plain (counted start <$> stepsBelow limit fuel m) := by
  have ended (m : Machine) (le : start ≤ m.cycles) :
      Checked.check (counted? start (.ok (), m)) = pure (counted start (.ok (), m)) := by
    rw [counted?, countSince?_eq le]
    rfl
  induction fuel generalizing m with
  | zero => exact ended m le
  | succ fuel ih =>
    by_cases going : m.state = .running ∧ m.cycles < limit
    · have below := UInt64.lt_iff_toNat_lt.mp going.2
      have bound := limit.toNat_lt
      have room : m.cycles.toNat + 1 < 2 ^ 64 := by omega
      rw [stepsBelow?, stepsBelow, if_pos going, if_pos going, step?_eq full room, bind_assoc,
        map_bind, ← Checked.plain_bind]
      apply Checked.plain_bind_congr (careful_step going.1)
      · intro fault
        rfl
      · rintro _ ⟨word, -, rfl⟩
        have counted := m.toNat_cycles_finished word (by omega)
        have later : start ≤ (m.finished word).cycles := by
          rw [UInt64.le_iff_toNat_le] at le ⊢
          omega
        exact ih ((m.size_finished word).trans full) later
    · rw [stepsBelow?, stepsBelow, if_neg going, if_neg going]
      exact ended m le

/-- A bounded run needs no room in the counter. -/
theorem runLimited?_eq (full : m.mem.cells.size = Memory.size) (maximum : UInt64) :
    m.runLimited? maximum = Checked.plain (m.runLimited maximum) :=
  stepsBelow?_eq full (UInt64.le_refl _)

theorem loadProgram?_eq (full : m.mem.cells.size = Memory.size) (program : Array Word) :
    m.loadProgram? program = Checked.plain (m.loadProgram program) := by
  rw [loadProgram?, Memory.load?_eq full, Checked.check_some, pure_bind, loadProgram, load]
  cases m.mem.load start program with
  | error refusal => rfl
  | ok mem => exact Checked.plain_map _ _

section
variable {σ : Type} (handler : Handler Channel σ) (p : Machine × σ)

theorem size_stepped : (stepped handler p).1.mem.cells.size = p.1.mem.cells.size := by
  cases state : p.1.state with
  | halted =>
    rw [stepped, step_of_halted _ state]
    rfl
  | running =>
    have one : stepped handler p = course handler p (0 + 1) := rfl
    rcases step_cases (k := 0) state with ⟨word, -, -, after⟩ | ⟨fault, -, after⟩
    · rw [one, after]
      exact size_finished p.1 word
    · rw [one, after]
      exact size_entered p.1

theorem size_course (k : Nat) : (course handler p k).1.mem.cells.size = p.1.mem.cells.size := by
  induction k with
  | zero => rfl
  | succ k ih => simp [size_stepped, ih]

end

/-- What becomes of a new machine by commands, each on some console. -/
inductive Reachable : Machine → Prop where
  | initial : Reachable initial
  | perform {σ : Type} (console : Console σ) (state : σ) {m : Machine} (command : Command)
      (reached : Reachable m) :
      Reachable ((m.perform command).interp console.handler state).1.2

/-- Every command keeps all the cells. -/
theorem size_perform {σ : Type} (handler : Handler Channel σ) (state : σ) (m : Machine)
    (command : Command) :
    ((m.perform command).interp handler state).1.2.mem.cells.size = m.mem.cells.size := by
  cases command with
  | step =>
    rw [perform, Dialogue.interp_map]
    exact size_stepped handler (m, state)
  | runLimited maximum =>
    obtain ⟨k, result, stops⟩ := exists_stopsAt handler (m, state) maximum
    have answer := stops.returnsWithin
    rw [ReturnsWithin] at answer
    simpa [perform, answer] using size_course handler (m, state) k
  | loadProgram program =>
    rw [perform, Dialogue.interp_map, loadProgram, Machine.load]
    cases h : m.mem.load start program with
    | error refusal => rfl
    | ok mem => exact Memory.size_load h
  | load origin program =>
    rw [perform]
    cases h : m.mem.load origin program with
    | error refusal => rfl
    | ok mem => exact Memory.size_load h
  | write address value => exact Memory.size_write _ _ _
  | reset => exact Memory.size_clear _
  | _ => rfl

theorem size_of_reachable (reached : Reachable m) : m.mem.cells.size = Memory.size := by
  induction reached with
  | initial => exact Memory.size_initial
  | perform console state command reached ih => exact (size_perform _ _ _ _).trans ih

/-- Every command with its checks is the command itself, a step only with room for its count. -/
theorem perform?_eq (full : m.mem.cells.size = Memory.size) {command : Command}
    (room : command = .step → m.cycles.toNat + 1 < 2 ^ 64) :
    m.perform? command = Checked.plain (m.perform command) := by
  cases command with
  | step =>
    rw [perform?, step?_eq full (room rfl), map_eq_pure_bind]
    exact Checked.plain_map _ _
  | runLimited maximum =>
    rw [perform?, runLimited?_eq full, map_eq_pure_bind]
    exact Checked.plain_map _ _
  | loadProgram program =>
    rw [perform?, loadProgram?_eq full, map_eq_pure_bind]
    exact Checked.plain_map _ _
  | load origin program => rw [perform?, Memory.load?_eq full]; rfl
  | write address value => rw [perform?, store?_eq full]; rfl
  | get number => rw [perform?, Registers.get?_eq]; rfl
  | set number value => rw [perform?, Registers.set?_eq]; rfl
  | updateFlag number => rw [perform?, Registers.updateFlag?_eq]; rfl
  | assign number value => rw [perform?, assign?_eq]; rfl
  | _ => rfl

theorem reset_eq_initial (full : m.mem.cells.size = Memory.size) : m.reset = initial := by
  have empty : m.mem.clear = Memory.initial := by
    apply Memory.ext_read ((Memory.size_clear _).trans full) Memory.size_initial
    intro address
    simp
  rw [reset, empty]
  rfl

/-- A step that has no room for its count fails its check. -/
theorem step?_of_full_counter {σ : Type} (handler : Handler Channel σ) (state : σ)
    (full : m.mem.cells.size = Memory.size) (running : m.state = .running)
    (silent : m.nextInstruction.routine? = none) (last : m.cycles = 0xFFFFFFFFFFFFFFFF) :
    (m.step?.run.interp handler state).1 = none := by
  have failed : finish? m.nextInstruction (.ok (), m.advance.operate m.nextInstruction) = none := by
    have full : ¬ (m.advance.operate m.nextInstruction).cycles.toNat + 1 < UInt64.size := by
      rw [cycles_operate, show m.advance.cycles = m.cycles from rfl, last]
      decide
    rw [finish?, nextCount?, if_neg full]
    rfl
  rw [step?_of_running full running, execute?_of_silent (m := m.advance) full silent]
  rcases m.advance.execute_of_silent silent with now | ⟨event, now⟩
  · rw [now]
    exact congrArg (fun answer => ((Checked.check answer).run.interp handler _).1) failed
  · rw [now]
    exact congrArg (fun answer => ((Checked.check answer).run.interp handler _).1) failed

/-- After any commands, on any consoles, a machine has all of its cells and every command stays in
range: no check fails, and with or without them a command is the same dialogue. A reset makes it a
new machine. -/
theorem in_range_of_reachable {m : Machine} (reached : Reachable m) :
    m.mem.cells.size = 65536 ∧
    (∀ command, (command = .step → m.cycles ≠ 0xFFFFFFFFFFFFFFFF) →
      (m.perform? command).run = some <$> m.perform command) ∧
    m.reset = Machine.initial ∧
    ∀ commands, performAll commands m.reset = performAll commands Machine.initial := by
  have full := size_of_reachable reached
  have fresh := reset_eq_initial full
  refine ⟨full, ?_, fresh, ?_⟩
  · intro command counts
    have room : command = .step → m.cycles.toNat + 1 < 2 ^ 64 := by
      intro step
      have bound := m.cycles.toNat_lt
      have below : m.cycles.toNat ≠ 2 ^ 64 - 1 := fun top => counts step (UInt64.toNat.inj top)
      omega
    rw [perform?_eq full room, map_eq_pure_bind]
    rfl
  · intro commands
    rw [fresh]

/-- With a full counter a bounded run stays in range, and a reset still makes a new machine. -/
theorem in_range_of_full_counter :
    ∃ m, Reachable m ∧ m.cycles = 0xFFFFFFFFFFFFFFFF ∧
      (m.perform? (.runLimited 1)).run = some <$> m.perform (.runLimited 1) ∧
      m.reset = Machine.initial := by
  have reached : Reachable { Machine.initial with cycles := 0xFFFFFFFFFFFFFFFF } :=
    .perform ScriptedConsole.console (.ofInput []) (.setCycles 0xFFFFFFFFFFFFFFFF) .initial
  obtain ⟨-, inRange, fresh, -⟩ := in_range_of_reachable reached
  exact ⟨_, reached, rfl, inRange (.runLimited 1) nofun, fresh⟩

end Machine

end LittleComputer
