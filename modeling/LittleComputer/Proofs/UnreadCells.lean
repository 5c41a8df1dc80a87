import LittleComputer.Proofs.Budget
import LittleComputer.Proofs.MemoryHistory
import LittleComputer.Proofs.ScriptedRun

/-!
# Cells that are not read

Which cells a step reads depends on the machine: its own cell, the cells that its operands name,
and for PUTS and PUTSP the cells of a string up to its end. A step of a machine with another memory
that agrees on these cells is the same step, with the same cells written. So a run is decided by
the cells that it reads before it has written them: whatever else the memory holds in the
beginning, the run goes the same way, and what it has not written stays what it was.
-/

namespace LittleComputer

/-- A list is cut off alike after a change behind the first item that ends it. -/
theorem takeWhile_map_congr {addresses : List Word} {read read' : Word → Word}
    {p : Word → Bool}
    (agree : ∀ a ∈ addresses.take (((addresses.map read).takeWhile p).length + 1),
      read' a = read a) :
    (addresses.map read').takeWhile p = (addresses.map read).takeWhile p := by
  induction addresses with
  | nil => rfl
  | cons address rest ih =>
    rw [List.take_succ_cons, List.forall_mem_cons] at agree
    obtain ⟨now, later⟩ := agree
    rw [List.map_cons] at later
    rw [List.map_cons, List.map_cons, now]
    by_cases goes : p (read address)
    · rw [List.takeWhile_cons_of_pos goes, List.length_cons] at later
      rw [List.takeWhile_cons_of_pos goes, List.takeWhile_cons_of_pos goes, ih later]
    · rw [List.takeWhile_cons_of_neg goes, List.takeWhile_cons_of_neg goes]

namespace Memory

/-- Write some cells, one after the other. -/
def put (mem : Memory) (cells : List (Word × Word)) : Memory :=
  mem.after (cells.map Operation.ofCell)

@[simp] theorem put_append (mem : Memory) (first second : List (Word × Word)) :
    mem.put (first ++ second) = (mem.put first).put second := by
  rw [put, List.map_append]
  exact List.foldl_append

section
variable {mem mem' : Memory} {cells : List (Word × Word)} {address : Word}

/-- The values that some cells put at an address. -/
theorem filterMap_put?_eq_nil_iff :
    (cells.map Operation.ofCell).filterMap (Operation.put? address) = [] ↔
      address ∉ cells.map Prod.fst := by
  rw [List.filterMap_map, List.filterMap_eq_nil_iff]
  simp only [Function.comp_apply, Operation.ofCell, Operation.put?, ite_eq_right_iff,
    reduceCtorEq, imp_false, List.mem_map, not_exists, not_and]

theorem read_put_of_unwritten (full : mem.cells.size = size)
    (unwritten : address ∉ cells.map Prod.fst) :
    (mem.put cells).read address = mem.read address := by
  rw [put, read_after full, filterMap_put?_eq_nil_iff.mpr unwritten]
  rfl

/-- Memories that agree on an address unless it is written agree there after the writing. -/
theorem read_put_congr (full : mem.cells.size = size) (full' : mem'.cells.size = size)
    (agree : address ∉ cells.map Prod.fst → mem'.read address = mem.read address) :
    (mem'.put cells).read address = (mem.put cells).read address := by
  rw [put, put, read_after full, read_after full']
  cases last : ((cells.map Operation.ofCell).filterMap (Operation.put? address)).getLast? with
  | some value => rfl
  | none =>
    exact agree (filterMap_put?_eq_nil_iff.mp (List.getLast?_eq_none_iff.mp last))

end

end Memory

namespace Machine

/-- The same machine with another memory. -/
def withMemory (m : Machine) (mem : Memory) : Machine := { m with mem }

/-- The cells of the string at R0 with the first zero after it, or all cells if there is none. -/
def textCells (m : Machine) : List Word :=
  ((List.range Memory.size).map fun k => m.regs.get 0 + k.toUInt16).take (m.text.length + 1)

/-- The cells that a routine reads. -/
def serviceCells (m : Machine) : Service → List Word
  | .puts | .putsp => m.textCells
  | .getc | .out | .input | .halt => []

/-- The cells that an instruction reads once PC has moved past it. -/
def operandCells (m : Machine) : Instruction → List Word
  | .ld _ offset => [m.regs.pcRelative offset]
  | .ldi _ offset => [m.regs.pcRelative offset, m.pointerAt offset]
  | .ldr _ base offset => [(m.regs.get base).displace offset]
  | .sti _ offset => [m.regs.pcRelative offset]
  | .trap vector => (Service.ofVector? vector).toList.flatMap m.serviceCells
  | .add .. | .and .. | .not .. | .lea .. | .st .. | .str .. | .br .. | .jmp .. | .jsr ..
  | .rti | .res => []

/-- The cell that an instruction writes once PC has moved past it, with its new word. -/
def stores (m : Machine) : Instruction → List (Word × Word)
  | .st sr offset => [(m.regs.pcRelative offset, m.regs.get sr)]
  | .sti sr offset => [(m.pointerAt offset, m.regs.get sr)]
  | .str sr base offset => [((m.regs.get base).displace offset, m.regs.get sr)]
  | .ld .. | .ldi .. | .ldr .. | .add .. | .and .. | .not .. | .lea .. | .br .. | .jmp ..
  | .jsr .. | .trap .. | .rti | .res => []

/-- All cells that the next step reads. -/
def cellsRead (m : Machine) : List Word :=
  m.regs.pc :: m.advance.operandCells m.nextInstruction

/-- The cell that the next step writes, if it writes one. -/
def nextStores (m : Machine) : List (Word × Word) := m.advance.stores m.nextInstruction

section
variable {m : Machine} {mem : Memory}

theorem text_withMemory (agree : ∀ a ∈ m.textCells, mem.read a = m.mem.read a) :
    (m.withMemory mem).text = m.text := by
  have cells (other : Memory) : other.cellsFrom (m.regs.get 0) =
      ((List.range Memory.size).map fun k => m.regs.get 0 + k.toUInt16).map other.read := by
    rw [Memory.cellsFrom, List.map_map]
    rfl
  rw [textCells, text, cells] at agree
  rw [text, text, withMemory, cells, cells]
  exact takeWhile_map_congr agree

/-- A routine does the same console work with every memory that agrees on the cells it reads. -/
theorem converse_withMemory {routine : Service}
    (agree : ∀ a ∈ m.serviceCells routine, mem.read a = m.mem.read a) :
    (m.withMemory mem).converse routine = m.converse routine := by
  cases routine with
  | puts =>
    simp only [serviceCells] at agree
    rw [converse, converse, stringAtR0_eq, stringAtR0_eq, text_withMemory agree]
  | putsp =>
    simp only [serviceCells] at agree
    rw [converse, converse, stringAtR0_eq, stringAtR0_eq, text_withMemory agree]
  | getc => rfl
  | out => rfl
  | input => rfl
  | halt => rfl

theorem pointerAt_withMemory {offset : Int16}
    (agree : mem.read (m.regs.pcRelative offset) = m.mem.read (m.regs.pcRelative offset)) :
    (m.withMemory mem).pointerAt offset = m.pointerAt offset := agree

/-- An instruction has the same effect with every memory that agrees on the cells it reads, and
writes the same cell. -/
theorem operate_withMemory {i : Instruction}
    (agree : ∀ a ∈ m.operandCells i, mem.read a = m.mem.read a) :
    (m.withMemory mem).operate i = (m.operate i).withMemory (mem.put (m.stores i)) := by
  cases i with
  | ld dr offset =>
    have cell := agree (m.regs.pcRelative offset) (List.mem_singleton_self _)
    exact congrArg (fun value => (m.assign dr value).withMemory mem) cell
  | ldr dr base offset =>
    have cell := agree ((m.regs.get base).displace offset) (List.mem_singleton_self _)
    exact congrArg (fun value => (m.assign dr value).withMemory mem) cell
  | ldi dr offset =>
    obtain ⟨pointer, rest⟩ := List.forall_mem_cons.mp agree
    have cell := rest (m.pointerAt offset) (List.mem_singleton_self _)
    have value : mem.read ((m.withMemory mem).pointerAt offset) =
        m.mem.read (m.pointerAt offset) := by
      rw [pointerAt_withMemory pointer, cell]
    exact congrArg (fun value => (m.assign dr value).withMemory mem) value
  | sti sr offset =>
    have pointer := pointerAt_withMemory (agree (m.regs.pcRelative offset) List.mem_cons_self)
    exact congrArg (fun address => m.withMemory (mem.write address (m.regs.get sr))) pointer
  | br mask offset =>
    by_cases taken : m.regs.cond.isIn mask = true
    · simp only [operate, withMemory, taken, if_true]
      rfl
    · simp only [operate, withMemory, taken]
      rfl
  | _ => rfl

theorem stores_withMemory {i : Instruction}
    (agree : ∀ a ∈ m.operandCells i, mem.read a = m.mem.read a) :
    (m.withMemory mem).stores i = m.stores i := by
  cases i with
  | sti sr offset =>
    have pointer := pointerAt_withMemory (agree (m.regs.pcRelative offset) List.mem_cons_self)
    exact congrArg (fun address => [(address, m.regs.get sr)]) pointer
  | _ => rfl

/-- The same outcome with another memory in the machine. -/
def onMemory {ε : Type} (mem : Memory) (outcome : ε × Machine) : ε × Machine :=
  (outcome.1, outcome.2.withMemory mem)

theorem afterWork_withMemory (routine : Service) (outcome : Except IoError (Option Word)) :
    ((m.withMemory mem).entering routine).afterWork outcome =
      onMemory mem ((m.entering routine).afterWork outcome) := by
  cases routine <;> rcases outcome with fault | none | word <;> rfl

theorem finish_onMemory (i : Instruction) (outcome : Except IoError Unit × Machine) :
    finish i (onMemory mem outcome) = onMemory mem (finish i outcome) := by
  rcases outcome with ⟨fault | done, after⟩
  · rfl
  · rfl

theorem execute_withMemory {i : Instruction}
    (agree : ∀ a ∈ m.operandCells i, mem.read a = m.mem.read a) :
    (m.withMemory mem).execute i = onMemory (mem.put (m.stores i)) <$> m.execute i := by
  cases h : i.routine? with
  | some routine =>
    have vector := Instruction.routine?_eq_some_iff.mp h
    have cells : m.operandCells i = m.serviceCells routine := by
      simp [vector, operandCells]
    have unwritten : mem.put (m.stores i) = mem := by
      rw [vector]
      rfl
    rw [cells] at agree
    rw [unwritten, execute_of_routine _ h, execute_of_routine _ h, converse_withMemory agree]
    refine Eq.trans ?_ (Dialogue.andThen_assoc _ _ _).symm
    congr 1
    funext outcome
    exact congrArg Dialogue.done (afterWork_withMemory routine outcome)
  | none =>
    cases i with
    | trap vector =>
      rw [Instruction.routine?] at h
      rw [execute, execute, call, call, h]
      rfl
    | rti => rfl
    | res => rfl
    | _ =>
      exact congrArg (fun after => Dialogue.done (Except.ok (), after)) (operate_withMemory agree)

/-- A step is the same with every memory that agrees on the cells it reads, and puts the same words
into the same cells. -/
theorem step_withMemory (running : m.state = .running)
    (agree : ∀ a ∈ m.cellsRead, mem.read a = m.mem.read a) :
    (m.withMemory mem).step = onMemory (mem.put m.nextStores) <$> m.step := by
  obtain ⟨own, operands⟩ := List.forall_mem_cons.mp agree
  have word : (m.withMemory mem).nextWord = m.nextWord := own
  have next : (m.withMemory mem).nextInstruction = m.nextInstruction :=
    congrArg Instruction.decode word
  have executed : (m.withMemory mem).advance.execute m.nextInstruction =
      onMemory (mem.put m.nextStores) <$> m.advance.execute m.nextInstruction :=
    execute_withMemory operands
  have still : (m.withMemory mem).state = .running := running
  rw [step_of_running running, step_of_running still, word, next, executed]
  refine congrArg (Dialogue.ask _) (funext fun _ => ?_)
  refine (Dialogue.andThen_assoc _ _ _).trans (Eq.trans ?_ (Dialogue.andThen_assoc _ _ _).symm)
  congr 1
  funext outcome
  exact congrArg Dialogue.done (finish_onMemory m.nextInstruction outcome)

theorem nextStores_withMemory (agree : ∀ a ∈ m.cellsRead, mem.read a = m.mem.read a) :
    (m.withMemory mem).nextStores = m.nextStores := by
  obtain ⟨own, operands⟩ := List.forall_mem_cons.mp agree
  have next : (m.withMemory mem).nextInstruction = m.nextInstruction :=
    congrArg Instruction.decode own
  rw [nextStores, next]
  exact stores_withMemory operands

end

section
variable {σ : Type} {handler : Handler Channel σ} {p : Machine × σ} {mem : Memory} {k : Nat}
  {n : UInt64} {result : Except StepError UInt64}

/-- The cells that the first `k` steps write, with their words, in order. -/
def storesWithin (handler : Handler Channel σ) (p : Machine × σ) (k : Nat) : List (Word × Word) :=
  (List.range k).flatMap fun j => (course handler p j).1.nextStores

/-- One of the first `k` steps reads a cell that no step before it has written. -/
def ReadsFirst (handler : Handler Channel σ) (p : Machine × σ) (k : Nat) (address : Word) : Prop :=
  ∃ j < k, address ∈ (course handler p j).1.cellsRead ∧
    address ∉ (storesWithin handler p j).map Prod.fst

theorem storesWithin_succ :
    storesWithin handler p (k + 1) =
      storesWithin handler p k ++ (course handler p k).1.nextStores := by
  simp [storesWithin, List.range_succ]

theorem stepped_withMemory (handler : Handler Channel σ) (running : p.1.state = .running)
    (agree : ∀ a ∈ p.1.cellsRead, mem.read a = p.1.mem.read a) :
    stepped handler (p.1.withMemory mem, p.2) =
        ((stepped handler p).1.withMemory (mem.put p.1.nextStores), (stepped handler p).2) ∧
      resultAt handler (p.1.withMemory mem, p.2) 0 = resultAt handler p 0 ∧
      (p.1.withMemory mem).step.turns handler p.2 = p.1.step.turns handler p.2 := by
  have same := step_withMemory running agree
  rw [stepped, resultAt, course_zero, same, Dialogue.interp_map, Dialogue.turns_map]
  exact ⟨rfl, rfl, rfl⟩

/-- What a machine writes is what its steps store. -/
theorem mem_stepped (handler : Handler Channel σ) (running : p.1.state = .running) :
    (stepped handler p).1.mem = p.1.mem.put p.1.nextStores := by
  have agree : ∀ a ∈ p.1.cellsRead, p.1.mem.read a = p.1.mem.read a := fun _ _ => rfl
  have same := (stepped_withMemory handler running agree).1
  exact congrArg (fun q => q.1.mem) same

/-- A machine with another memory, beside its own course of `k` steps: the same is said with the
same results, and the same cells are written. -/
structure Shadows (handler : Handler Channel σ) (p : Machine × σ) (mem : Memory) (k : Nat) :
    Prop where
  course : course handler (p.1.withMemory mem, p.2) k =
    ((course handler p k).1.withMemory (mem.put (storesWithin handler p k)), (course handler p k).2)
  said : transcript handler (p.1.withMemory mem, p.2) k = transcript handler p k
  stores : storesWithin handler (p.1.withMemory mem, p.2) k = storesWithin handler p k
  results : ∀ j < k, resultAt handler (p.1.withMemory mem, p.2) j = resultAt handler p j
  /-- The machine itself has written these cells and no others. -/
  mem : (Machine.course handler p k).1.mem = p.1.mem.put (storesWithin handler p k)

/-- Where the memories agree on what a course reads first, they agree on what its next step
reads. -/
theorem agree_at_step (full : p.1.mem.cells.size = Memory.size)
    (full' : mem.cells.size = Memory.size)
    (written : (course handler p k).1.mem = p.1.mem.put (storesWithin handler p k))
    (agree : ∀ a, ReadsFirst handler p (k + 1) a → mem.read a = p.1.mem.read a) :
    ∀ a ∈ (course handler p k).1.cellsRead,
      (mem.put (storesWithin handler p k)).read a = (course handler p k).1.mem.read a := by
  intro a reads
  rw [written]
  apply Memory.read_put_congr full full'
  intro unwritten
  exact agree a ⟨k, Nat.lt_succ_self k, reads, unwritten⟩

theorem shadows_of_agree (full : p.1.mem.cells.size = Memory.size)
    (full' : mem.cells.size = Memory.size)
    (running : ∀ j < k, (course handler p j).1.state = .running)
    (agree : ∀ a, ReadsFirst handler p k a → mem.read a = p.1.mem.read a) :
    Shadows handler p mem k := by
  induction k with
  | zero => exact ⟨rfl, rfl, rfl, nofun, rfl⟩
  | succ k ih =>
    have now := running k (Nat.lt_succ_self k)
    obtain ⟨same, said, stores, results, written⟩ := ih
      (fun j lt => running j (Nat.lt_succ_of_lt lt))
      fun a ⟨j, lt, reads⟩ => agree a ⟨j, Nat.lt_succ_of_lt lt, reads⟩
    have here := agree_at_step full full' written agree
    obtain ⟨step, result, turns⟩ := stepped_withMemory handler now here
    have stored := nextStores_withMemory here
    have following := mem_stepped handler now
    refine ⟨?_, ?_, ?_, ?_, ?_⟩
    · simp [same, step, storesWithin_succ]
    · simp [said, same, turns]
    · rw [storesWithin_succ, stores, same, stored, storesWithin_succ]
    · intro j lt
      rcases Nat.lt_succ_iff_lt_or_eq.mp lt with sooner | rfl
      · exact results j sooner
      · rw [← same, resultAt_course, resultAt_course, Nat.zero_add] at result
        exact result
    · simp [following, written, storesWithin_succ]

/-- A bounded run with another memory stops as the run itself does. -/
theorem Shadows.stopsAt (shadows : Shadows handler p mem k) (h : StopsAt handler p n k result) :
    StopsAt handler (p.1.withMemory mem, p.2) n k result := by
  cases h with
  | finished finishes fits ended =>
    refine .finished ?_ fits ?_
    · intro j lt
      rw [shadows.results j lt]
      exact finishes j lt
    · rw [shadows.course]
      exact ended
  | refused fails fits =>
    refine .refused ⟨?_, ?_⟩ fits
    · intro j lt
      rw [shadows.results j (Nat.lt_succ_of_lt lt)]
      exact fails.1 j lt
    · rw [shadows.results _ (Nat.lt_succ_self _)]
      exact fails.2

/-- The number of steps of a bounded run, by the words that it fetches. -/
def stepsMade (handler : Handler Channel σ) (p : Machine × σ) (n : UInt64) : Nat :=
  (fetches ((p.1.runLimited n).turns handler p.2)).length

theorem stepsMade_of_stopsAt (h : StopsAt handler p n k result) : stepsMade handler p n = k := by
  rw [stepsMade, h.turns]
  exact length_fetches_transcript h.endsAfter.lasts

theorem stepsMade_le (handler : Handler Channel σ) (p : Machine × σ) (n : UInt64) :
    stepsMade handler p n ≤ n.toNat := by
  obtain ⟨k, result, stops⟩ := exists_stopsAt handler p n
  rw [stepsMade_of_stopsAt stops]
  exact stops.le_allowance.trans (p.1.allowance_le n)

end

/-- What a bounded run does not read before it has written it makes no difference to it. The first
run is so many steps of its machine, and the second one is as many with the same requests,
registers, run state, counter and console. It writes the same words into the same cells, and every
other cell of either machine stays as it was. -/
theorem unread_cells {σ : Type} (console : Console σ) (state : σ) (m m' : Machine) (n : UInt64)
    (full : m.mem.cells.size = 65536) (full' : m'.mem.cells.size = 65536)
    (regs : m'.regs = m.regs) (running : m'.state = m.state) (cycles : m'.cycles = m.cycles)
    (agree : ∀ a,
      ReadsFirst console.handler (m, state) (stepsMade console.handler (m, state) n) a →
        m'.mem.read a = m.mem.read a) :
    let k := stepsMade console.handler (m, state) n
    let written := (storesWithin console.handler (m, state) k).map Prod.fst
    ∃ result last last',
      ReturnsWithin console.handler (m, state) n result last ∧
      last = course console.handler (m, state) k ∧
      ReturnsWithin console.handler (m', state) n result last' ∧
      last' = course console.handler (m', state) k ∧
      stepsMade console.handler (m', state) n = k ∧
      (m'.runLimited n).turns console.handler state =
        (m.runLimited n).turns console.handler state ∧
      last'.1.regs = last.1.regs ∧ last'.1.state = last.1.state ∧
      last'.1.cycles = last.1.cycles ∧ last'.2 = last.2 ∧
      storesWithin console.handler (m', state) k = storesWithin console.handler (m, state) k ∧
      (∀ a ∈ written, last'.1.mem.read a = last.1.mem.read a) ∧
      ∀ a ∉ written, last.1.mem.read a = m.mem.read a ∧ last'.1.mem.read a = m'.mem.read a := by
  obtain ⟨k, result, stops⟩ := exists_stopsAt console.handler (m, state) n
  have made := stepsMade_of_stopsAt stops
  obtain ⟨mem', rfl⟩ : ∃ mem', m' = m.withMemory mem' := by
    obtain ⟨regs', mem', state', cycles'⟩ := m'
    obtain rfl := regs
    obtain rfl := running
    obtain rfl := cycles
    exact ⟨mem', rfl⟩
  rw [made] at agree ⊢
  have shadows : Shadows console.handler (m, state) mem' k :=
    shadows_of_agree full full' (fun j lt => (stops.endsAfter.lasts j lt).2) agree
  have stops' : StopsAt console.handler (m.withMemory mem', state) n k result :=
    shadows.stopsAt stops
  obtain ⟨same, said, stores, -, written⟩ := shadows
  refine ⟨result, _, _, stops.returnsWithin, rfl, stops'.returnsWithin, rfl,
    stepsMade_of_stopsAt stops', ?_, ?_⟩
  · exact stops'.turns.trans (said.trans stops.turns.symm)
  · rw [same]
    refine ⟨rfl, rfl, rfl, rfl, stores, ?_, ?_⟩
    · intro a cell
      rw [written]
      exact Memory.read_put_congr full full' fun unwritten => absurd cell unwritten
    · intro a unwritten
      rw [written]
      exact ⟨Memory.read_put_of_unwritten full unwritten,
        Memory.read_put_of_unwritten full' unwritten⟩

/-- ST writes a cell before anything has read it: what the cell held makes no difference. -/
theorem unread_cells_of_store :
    ∃ m m' : Machine, m.nextInstruction = .st 0 1 ∧ m'.mem.read 0x3002 ≠ m.mem.read 0x3002 ∧
      ∃ result last last',
        ReturnsWithin ScriptedConsole.console.handler (m, .ofInput []) 1 result last ∧
        ReturnsWithin ScriptedConsole.console.handler (m', .ofInput []) 1 result last' ∧
        last'.1.regs = last.1.regs ∧ last'.2 = last.2 := by
  have full := size_about start 0x3001
  have next : (about start 0x3001).nextInstruction = .st 0 1 := by
    rw [nextInstruction, nextWord_about]
    decide +kernel
  have cells : (about start 0x3001).cellsRead = [start] := by
    rw [cellsRead, next]
    rfl
  have agree : ∀ a, ReadsFirst ScriptedConsole.console.handler (about start 0x3001, .ofInput [])
      (stepsMade ScriptedConsole.console.handler (about start 0x3001, .ofInput []) 1) a →
        ((about start 0x3001).mem.write 0x3002 7).read a = (about start 0x3001).mem.read a := by
    rintro a ⟨j, lt, reads, -⟩
    have once := stepsMade_le ScriptedConsole.console.handler (about start 0x3001, .ofInput []) 1
    have one : (1 : UInt64).toNat = 1 := rfl
    obtain rfl : j = 0 := by omega
    rw [course_zero, cells] at reads
    obtain rfl := List.mem_singleton.mp reads
    exact (Memory.read_write _ _ _ _ full).trans (if_neg (by decide))
  obtain ⟨result, last, last', first, -, second, -, -, -, regs, -, -, console, -⟩ :=
    unread_cells ScriptedConsole.console (.ofInput []) (about start 0x3001)
      ((about start 0x3001).withMemory ((about start 0x3001).mem.write 0x3002 7)) 1 full
      ((Memory.size_write _ _ _).trans full) rfl rfl rfl agree
  refine ⟨_, _, next, ?_, result, last, last', first, second, regs, console⟩
  have held : ((about start 0x3001).mem.write 0x3002 7).read 0x3002 = 7 :=
    (Memory.read_write _ _ _ _ full).trans (if_pos rfl)
  have empty : (about start 0x3001).mem.read 0x3002 = 0 :=
    (Memory.read_write _ _ _ _ Memory.size_initial).trans
      ((if_neg (by decide)).trans (Memory.read_initial _))
  show ((about start 0x3001).mem.write 0x3002 7).read 0x3002 ≠ _
  rw [held, empty]
  decide

end Machine

end LittleComputer
