import LittleComputer.Console.Scripted
import LittleComputer.Proofs.Limit
import LittleComputer.Proofs.ServiceCall

/-!
# Input and output of a run

On a scripted console no step fails, so a run is a number of finished steps. The instructions
that read take the bytes of the input one after the other, and once there are none left they
find the end of input. The output is made of one piece for every instruction, in order.
What an instruction writes is said here without the routines: a string is what stands before
the first zero in the 65536 cells from R0 on.
-/

namespace LittleComputer

open ScriptedConsole (console)

namespace Conversation

variable {α β : Type} {a : α} {b : β} {c c' c'' : ScriptedConsole}

/-- Console work on a scripted console, with its result and the console after it. -/
def Ends (talk : Conversation α) (c : ScriptedConsole) (result : α) (c' : ScriptedConsole) :
    Prop := talk.run.interp console.handler c = (.ok result, c')

theorem ends_pure (a : α) (c : ScriptedConsole) : Ends (pure a) c a c := rfl

theorem ends_bind {talk : Conversation α} {next : α → Conversation β} (first : Ends talk c a c')
    (rest : Ends (next a) c' b c'') : Ends (talk >>= next) c b c'' := by
  rw [Ends, run_bind, Dialogue.interp_andThen, first]
  exact rest

theorem ends_readByte (c : ScriptedConsole) :
    Ends readByte c c.input.head? { c with input := c.input.tail } := by
  obtain ⟨input, output, flushes⟩ := c
  cases input with
  | nil => rfl
  | cons byte rest => rfl

theorem ends_writeByte (byte : Byte) (c : ScriptedConsole) :
    Ends (writeByte byte) c () { c with output := c.output.push byte } := rfl

theorem ends_flush (c : ScriptedConsole) :
    Ends flush c () { c with flushes := c.flushes + 1 } := rfl

theorem ends_report (event : Event) (c : ScriptedConsole) : Ends (report event) c () c := rfl

theorem ends_writeAll (bytes : List Byte) (c : ScriptedConsole) :
    Ends (writeAll bytes) c () { c with output := c.output ++ bytes.toArray } := by
  induction bytes generalizing c with
  | nil =>
    rw [Array.append_empty]
    exact ends_pure () c
  | cons byte rest ih =>
    have pushed : c.output ++ (byte :: rest).toArray = c.output.push byte ++ rest.toArray := by
      simp
    rw [pushed, writeAll_cons]
    exact ends_bind (ends_writeByte byte c) (ih { c with output := c.output.push byte })

end Conversation

namespace Machine

/-- The words before the first zero in the cells from R0 on. -/
def text (m : Machine) : List Word := (m.mem.cellsFrom (m.regs.get 0)).takeWhile (· ≠ 0)

/-- The bytes that a routine writes, given the byte that is next in the input. -/
def writes (m : Machine) (next : Option Byte) : Service → List Byte
  | .out => [(m.regs.get 0).lowByte]
  | .puts => m.text.map Word.lowByte
  | .putsp => m.text.flatMap fun w => w.lowByte :: [w.highByte].filter (· ≠ 0)
  | .input => Service.promptBytes ++ next.toList
  | .getc | .halt => []

/-- The bytes that the next instruction writes, given the byte that is next in the input. -/
def contribution (m : Machine) (next : Option Byte) : List Byte :=
  match m.nextInstruction.routine? with
  | some routine => m.writes next routine
  | none => []

/-- The word that the next instruction puts into R0, given the byte that is next in the input. -/
def received (m : Machine) (next : Option Byte) : Option Word :=
  if m.nextInstruction.reads then some (wordOfRead next) else none

theorem contribution_of_routine {m : Machine} {routine : Service} {next : Option Byte}
    (h : m.nextInstruction.routine? = some routine) :
    m.contribution next = m.writes next routine := by
  rw [contribution, h]

theorem stringAtR0_eq (m : Machine) : m.stringAtR0 = m.text := m.mem.stringAt_eq _

theorem packedBytes_eq (w : Word) :
    packedBytes w = w.lowByte :: [w.highByte].filter (· ≠ 0) := by
  by_cases zero : w.highByte = 0
  · simp [packedBytes, zero]
  · simp [packedBytes, zero]

open Conversation in
/-- What a routine does on a scripted console. -/
theorem ends_converse (m : Machine) (routine : Service) (c : ScriptedConsole) :
    ∃ c', Ends (m.converse routine) c
        (if routine.reads then some (wordOfRead c.input.head?) else none) c' ∧
      c'.input = (if routine.reads then c.input.tail else c.input) ∧
      c'.output.toList = c.output.toList ++ m.writes c.input.head? routine := by
  cases routine with
  | getc =>
    refine ⟨_, ends_bind (ends_flush c) (ends_bind (ends_readByte _) (ends_pure _ _)), rfl, ?_⟩
    exact (List.append_nil _).symm
  | out =>
    refine ⟨_, ends_bind (ends_writeByte _ c) (ends_pure _ _), rfl, ?_⟩
    exact Array.toList_push
  | puts =>
    refine ⟨_, ends_bind (ends_writeAll _ c) (ends_pure _ _), rfl, ?_⟩
    rw [Array.toList_append, stringAtR0_eq, writes]
  | input =>
    refine ⟨_, ends_bind (ends_writeAll _ c) (ends_bind (ends_flush _)
      (ends_bind (ends_readByte _) (ends_bind (ends_writeAll _ _) (ends_pure _ _)))), rfl, ?_⟩
    rw [Array.toList_append, Array.toList_append, List.append_assoc]
    rfl
  | putsp =>
    refine ⟨_, ends_bind (ends_writeAll _ c) (ends_bind (ends_flush _) (ends_pure _ _)), rfl, ?_⟩
    rw [Array.toList_append, stringAtR0_eq, funext packedBytes_eq, writes]
  | halt =>
    refine ⟨_, ends_bind (ends_flush c) (ends_bind (ends_report _ _) (ends_pure _ _)), rfl, ?_⟩
    exact (List.append_nil _).symm

/-- What a finished step does to a machine and its scripted console. -/
structure Performs (p q : Machine × ScriptedConsole) : Prop where
  machine : q.1 = p.1.finished (p.1.received p.2.input.head?)
  left : q.2.input = if p.1.nextInstruction.reads then p.2.input.tail else p.2.input
  output : q.2.output.toList = p.2.output.toList ++ p.1.contribution p.2.input.head?

theorem performs_of_silent (p : Machine × ScriptedConsole)
    (h : p.1.nextInstruction.routine? = none) : Performs p (p.1.finished none, p.2) := by
  have silent : p.1.nextInstruction.reads = false := by
    rw [Instruction.reads, h]
    rfl
  refine ⟨?_, ?_, ?_⟩
  · rw [received, silent]
    rfl
  · rw [silent]
    rfl
  · rw [contribution, h]
    exact (List.append_nil _).symm

/-- Executing an instruction with a routine does to the console what the routine does. -/
theorem execute_scripted {m : Machine} {routine : Service}
    (h : m.nextInstruction.routine? = some routine) (c : ScriptedConsole) :
    ∃ c', (m.advance.execute m.nextInstruction).interp console.handler c =
        ((.ok (), m.entered.leaving (m.received c.input.head?)), c') ∧
      Performs (m, c) (m.finished (m.received c.input.head?), c') := by
  have reads : m.nextInstruction.reads = routine.reads := by
    rw [Instruction.reads, h]
    rfl
  obtain ⟨c', talk, left, output⟩ := ends_converse m.advance routine c
  refine ⟨c', ?_, rfl, ?_, ?_⟩
  · rw [execute_of_routine _ h, Dialogue.interp_andThen, talk, entering_advance h, received, reads]
    rfl
  · rw [reads]
    exact left
  · rw [contribution_of_routine h]
    exact output

/-- A step of a running machine on a scripted console always finishes. -/
theorem step_scripted {p : Machine × ScriptedConsole} (running : p.1.state = .running) :
    resultAt console.handler p 0 = .ok p.1.nextInstruction ∧
      Performs p (stepped console.handler p) := by
  obtain ⟨m, c⟩ := p
  cases h : m.nextInstruction.routine? with
  | none =>
    have step := (step_of_silent console c running h).1
    rw [resultAt, course_zero, stepped, step]
    exact ⟨rfl, performs_of_silent (m, c) h⟩
  | some routine =>
    obtain ⟨c', executed, performs⟩ := execute_scripted h c
    -- The note that a step begins with passes the console by.
    have noted (event : Event) : (console.handler (.note event) c).2 = c := rfl
    have vector := Instruction.routine?_eq_some_iff.mp h
    have step : m.step.interp console.handler c =
        ((.ok m.nextInstruction, m.finished (m.received c.input.head?)), c') := by
      rw [step_of_running running, Dialogue.interp_ask, Dialogue.interp_andThen, noted, executed,
        finished_of_trap vector]
      rfl
    rw [resultAt, course_zero, stepped, step]
    exact ⟨rfl, performs⟩

/-- Nothing is refused on a scripted console. -/
theorem not_failsAfter_scripted {p : Machine × ScriptedConsole} {k : Nat} (fault : IoError) :
    ¬ FailsAfter console.handler p k fault := by
  intro fails
  have good := (step_scripted fails.running).1
  simp [fails.2] at good

/-- A bounded run on a scripted console answers with its count, after so many steps. -/
theorem runLimited_scripted (p : Machine × ScriptedConsole) (n : UInt64) :
    ∃ count : UInt64, Finishes console.handler p count.toNat ∧
      ReturnsWithin console.handler p n (.ok count) (course console.handler p count.toNat) ∧
      (p.1.runLimited n).turns console.handler p.2 =
        transcript console.handler p count.toNat := by
  obtain ⟨k, result, stops⟩ := exists_stopsAt console.handler p n
  have answer := stops.returnsWithin
  have said := stops.turns
  cases stops with
  | refused fails fits => exact absurd fails (not_failsAfter_scripted _)
  | finished finishes fits ended =>
    have room : p.1.cycles.toNat + k < 2 ^ 64 :=
      Nat.lt_of_le_of_lt (Nat.add_le_add_left fits _) (p.1.allowance_room n)
    refine ⟨k.toUInt64, ?_⟩
    rw [toNat_toUInt64_of_room room]
    exact ⟨finishes, answer, said⟩

/-- The number of GETC and IN instructions among the first `k`. -/
def readsMade (p : Machine × ScriptedConsole) (k : Nat) : Nat :=
  (List.range k).countP fun j => (course console.handler p j).1.nextInstruction.reads

@[simp] theorem readsMade_succ (p : Machine × ScriptedConsole) (k : Nat) :
    readsMade p (k + 1) = readsMade p k +
      if (course console.handler p k).1.nextInstruction.reads then 1 else 0 := by
  simp [readsMade, List.range_succ]

section
variable {m : Machine} {input : List Byte} {k : Nat}

/-- A machine with a scripted console after a number of steps. -/
def scripted (m : Machine) (input : List Byte) (k : Nat) : Machine × ScriptedConsole :=
  course console.handler (m, .ofInput input) k

/-- The word for R0 of a read by its number: a byte of the input with zeros above it, or the mark
for the end of input. -/
def wordAt (input : List Byte) (i : Nat) : Word :=
  if h : i < input.length then input[i].toUInt16 else 0xFFFF

theorem wordOfRead_getElem? (input : List Byte) (i : Nat) :
    wordOfRead input[i]? = wordAt input i := by
  by_cases inside : i < input.length
  · rw [wordAt, dif_pos inside, List.getElem?_eq_getElem inside]
    rfl
  · rw [wordAt, dif_neg inside, List.getElem?_eq_none (Nat.le_of_not_lt inside)]
    rfl

/-- No byte, not even the largest, is taken for the end of input. -/
theorem wordAt_eq_end_iff (input : List Byte) (i : Nat) :
    wordAt input i = 0xFFFF ↔ input.length ≤ i := by
  by_cases inside : i < input.length
  · have small : input[i].toUInt16 ≠ 0xFFFF := by
      intro same
      have bound := input[i].toNat_lt
      have number := congrArg UInt16.toNat same
      rw [UInt8.toNat_toUInt16] at number
      have largest : (0xFFFF : Word).toNat = 65535 := rfl
      omega
    rw [wordAt, dif_pos inside]
    simp [small, inside]
  · rw [wordAt, dif_neg inside]
    simp [Nat.le_of_not_lt inside]

example : wordAt [0xFF] 0 = 0x00FF ∧ wordAt [0xFF] 1 = 0xFFFF := by decide

theorem scripted_succ (running : (scripted m input k).1.state = .running) :
    resultAt console.handler (m, .ofInput input) k = .ok (scripted m input k).1.nextInstruction ∧
      Performs (scripted m input k) (scripted m input (k + 1)) := by
  obtain ⟨result, performs⟩ := step_scripted running
  rw [scripted, resultAt_course, Nat.zero_add] at result
  rw [scripted, scripted, course_succ]
  exact ⟨result, performs⟩

/-- A run takes the bytes of the input one after the other. -/
theorem input_scripted (running : ∀ j < k, (scripted m input j).1.state = .running) :
    (scripted m input k).2.input = input.drop (readsMade (m, .ofInput input) k) := by
  induction k with
  | zero => rfl
  | succ k ih =>
    have performs := (scripted_succ (running k (Nat.lt_succ_self k))).2
    have more : readsMade (m, .ofInput input) (k + 1) = readsMade (m, .ofInput input) k +
        if (scripted m input k).1.nextInstruction.reads then 1 else 0 := readsMade_succ _ k
    rw [performs.left, ih fun j lt => running j (Nat.lt_succ_of_lt lt), more]
    split
    · rw [List.tail_drop]
    · rw [Nat.add_zero]

/-- The byte that is next in the input is found by the number of reads before. -/
theorem head?_scripted (running : ∀ j < k, (scripted m input j).1.state = .running) :
    (scripted m input k).2.input.head? = input[readsMade (m, .ofInput input) k]? := by
  rw [input_scripted running, List.head?_drop]

/-- The output of a run has one piece for every instruction. -/
theorem output_scripted (running : ∀ j < k, (scripted m input j).1.state = .running) :
    (scripted m input k).2.output.toList = (List.range k).flatMap fun j =>
      (scripted m input j).1.contribution input[readsMade (m, .ofInput input) j]? := by
  induction k with
  | zero => rfl
  | succ k ih =>
    have before : ∀ j < k, (scripted m input j).1.state = .running :=
      fun j lt => running j (Nat.lt_succ_of_lt lt)
    have performs := (scripted_succ (running k (Nat.lt_succ_self k))).2
    simp [performs.output, ih before, head?_scripted before, List.range_succ]

/-- A reading instruction leaves in R0 the word of its number. -/
theorem get_scripted_succ (running : ∀ j ≤ k, (scripted m input j).1.state = .running)
    (reads : (scripted m input k).1.nextInstruction.reads) :
    (scripted m input (k + 1)).1.regs.get 0 = wordAt input (readsMade (m, .ofInput input) k) := by
  have performs := (scripted_succ (running k (Nat.le_refl k))).2
  have before : ∀ j < k, (scripted m input j).1.state = .running :=
    fun j lt => running j (Nat.le_of_lt lt)
  rw [performs.machine, received, if_pos reads, head?_scripted before, wordOfRead_getElem?,
    finished]
  exact Registers.get_set_self _ _ _

/-- What a run of so many instructions takes from the input and what it puts out. -/
structure Account (m : Machine) (input : List Byte) (k : Nat) (last : Machine × ScriptedConsole) :
    Prop where
  /-- The run is made of so many steps, and all of them finish. -/
  reached : last = scripted m input k
  finished : ∀ j < k, resultAt console.handler (m, .ofInput input) j =
    .ok (scripted m input j).1.nextInstruction
  /-- A reading instruction leaves the word of its number in R0, -/
  received : ∀ j < k, (scripted m input j).1.nextInstruction.reads →
    (scripted m input (j + 1)).1.regs.get 0 = wordAt input (readsMade (m, .ofInput input) j)
  /-- which is the mark for the end of input only if there is no such byte. -/
  marked : ∀ j < k, (scripted m input j).1.nextInstruction.reads →
    ((scripted m input (j + 1)).1.regs.get 0 = 0xFFFF ↔
      input.length ≤ readsMade (m, .ofInput input) j)
  /-- The bytes that were not read are left as they were. -/
  left : last.2.input = input.drop (readsMade (m, .ofInput input) k)
  remaining : last.2.remaining = input.length - min (readsMade (m, .ofInput input) k) input.length
  /-- The output is made of one piece for every instruction, -/
  output : last.2.output.toList = (List.range k).flatMap fun j =>
    (scripted m input j).1.contribution input[readsMade (m, .ofInput input) j]?
  /-- and IN repeats any byte that it reads. -/
  echoed : ∀ j < k, (scripted m input j).1.nextInstruction = .trap 0x23 →
    ∀ byte, input[readsMade (m, .ofInput input) j]? = some byte →
      (scripted m input (j + 1)).1.regs.get 0 = byte.toUInt16 ∧
        (scripted m input j).1.contribution input[readsMade (m, .ofInput input) j]? =
          Service.promptBytes ++ [byte]

theorem account_of_running (running : ∀ j < k, (scripted m input j).1.state = .running) :
    Account m input k (scripted m input k) := by
  have received : ∀ j < k, (scripted m input j).1.nextInstruction.reads →
      (scripted m input (j + 1)).1.regs.get 0 = wordAt input (readsMade (m, .ofInput input) j) := by
    intro j lt reads
    exact get_scripted_succ (fun i le => running i (Nat.lt_of_le_of_lt le lt)) reads
  refine ⟨rfl, ?_, received, ?_, input_scripted running, ?_, output_scripted running, ?_⟩
  · intro j lt
    exact (scripted_succ (running j lt)).1
  · intro j lt reads
    rw [received j lt reads, wordAt_eq_end_iff]
  · rw [ScriptedConsole.remaining, input_scripted running, List.length_drop]
    omega
  · intro j lt reading byte next
    have reads : (scripted m input j).1.nextInstruction.reads := by rw [reading]; rfl
    refine ⟨?_, ?_⟩
    · rw [received j lt reads, ← wordOfRead_getElem?, next]
      rfl
    · have called : (scripted m input j).1.nextInstruction.routine? = some .input := by
        rw [reading]
        rfl
      rw [next, contribution_of_routine called, writes]
      rfl

/-- The input and the output of a whole run on a scripted console: a bounded run always answers with
the number of its instructions, and so does an unbounded one, up to the size of the counter, if it
answers at all. -/
theorem input_and_output_of_run (m : Machine) (input : List Byte) :
    (∀ n : UInt64, ∃ count last,
      ReturnsWithin console.handler (m, .ofInput input) n (.ok count) last ∧
        (m.runLimited n).turns console.handler (.ofInput input) =
          transcript console.handler (m, .ofInput input) count.toNat ∧
        Account m input count.toNat last) ∧
    ∀ fuel result last,
      (m.run fuel).interp console.handler (.ofInput input) =
          (some (result, last.1), last.2) →
        ∃ k, result = .ok k.toUInt64 ∧
          (m.run fuel).turns console.handler (.ofInput input) =
            transcript console.handler (m, .ofInput input) k ∧
          Account m input k last := by
  constructor
  · intro n
    obtain ⟨count, finishes, answer, said⟩ := runLimited_scripted (m, .ofInput input) n
    exact ⟨count, _, answer, said, account_of_running fun j lt => (finishes.lastsFor lt).2⟩
  · intro fuel result last answer
    obtain ⟨k, ⟨le, halts, rfl, rfl⟩ | ⟨fault, -, fails, -⟩⟩ :=
      answer_cases (p := (m, .ofInput input)) (q := last) answer
    · have said := turns_run_of_haltsAfter halts le
      exact ⟨k, rfl, said, account_of_running fun j lt => (halts.1.lastsFor lt).2⟩
    · exact absurd fails (not_failsAfter_scripted fault)

end

end Machine

end LittleComputer
