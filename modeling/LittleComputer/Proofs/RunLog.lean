import LittleComputer.Proofs.Budget

/-!
# The log of a run

A log is made of the notes that were taken, and taking them changes nothing else. Every step notes
the instruction it fetched before it does anything. A reserved instruction, a trap vector without
a routine and a HALT that could flush add one remark about themselves, with the address they were
fetched from; nothing else is noted. So a log with all events tells which instructions a run has
executed, in their order, and how the special ones went.
-/

namespace LittleComputer

/-- What a log shows of an event. -/
structure Entry where
  level : Level
  message : String
  fields : List (String × FieldValue)
  deriving DecidableEq

/-- Whether an entry is about a fetched instruction. -/
def Entry.isExecute (entry : Entry) : Bool := entry.message == "execute"

def Event.entry (event : Event) : Entry := ⟨event.level, event.message, event.fields⟩

/-- The event that a request asks to note. -/
def Channel.note? : Request → Option Event
  | .note event => some event
  | .read | .write _ | .flush => none

/-- The events noted in some turns. -/
def noted (turns : List (Turn Channel)) : List Event :=
  turns.filterMap fun turn => Channel.note? turn.request

@[simp] theorem noted_append (first second : List (Turn Channel)) :
    noted (first ++ second) = noted first ++ noted second := List.filterMap_append

namespace Dialogue

variable {σ α : Type}

/-- A log keeps what is noted, up to its level, and does nothing else. -/
theorem interp_loggingHandler (console : Console σ) (threshold : Option Level)
    (d : Dialogue Channel α) (state : σ) (before : Array Event) :
    d.interp (console.loggingHandler threshold) (state, before) =
      ((d.interp console.handler state).1, (d.interp console.handler state).2,
        before ++ ((noted (d.turns console.handler state)).filter
          (·.isKept threshold)).toArray) := by
  induction d generalizing state before with
  | done value => simp [noted]
  | ask r next ih =>
    rw [interp_ask, interp_ask, turns_ask]
    cases r with
    | read => exact ih _ _ _
    | write byte => exact ih _ _ _
    | flush => exact ih _ _ _
    | note event =>
      refine (ih _ _ _).trans ?_
      have first (later : List (Turn Channel)) :
          noted (⟨.note event, ()⟩ :: later) = event :: noted later := rfl
      have pushed (later : List Event) :
          before.push event ++ later.toArray = before ++ (event :: later).toArray := by
        simp
      cases kept : event.isKept threshold with
      | true =>
        simp only [first, List.filter_cons, kept, if_true, pushed]
        rfl
      | false =>
        simp only [first, List.filter_cons, kept]
        rfl

/-- A log with all events keeps everything that is noted. -/
theorem interp_loggingHandler_trace (console : Console σ) (d : Dialogue Channel α) (state : σ)
    (before : Array Event) :
    d.interp (console.loggingHandler (some .trace)) (state, before) =
      ((d.interp console.handler state).1, (d.interp console.handler state).2,
        before ++ (noted (d.turns console.handler state)).toArray) := by
  have all (events : List Event) : events.filter (·.isKept (some .trace)) = events :=
    List.filter_eq_self.mpr fun event _ => event.isKept_trace
  rw [interp_loggingHandler, all]

theorem Asks.noted_eq_nil {d : Dialogue Channel α}
    (asks : Asks (fun r => Channel.note? r = none) d) (handler : Handler Channel σ) (state : σ) :
    noted (d.turns handler state) = [] :=
  List.filterMap_eq_nil_iff.mpr (asks.of_mem_turns handler state)

end Dialogue

namespace Machine

variable {σ : Type}

/-- What the next step adds to its own entry: a reserved instruction and an unknown trap vector
are said to be ignored, and a HALT whose flush succeeds tells the count of the stopped machine. -/
def remark (console : Console σ) (p : Machine × σ) : Option Entry :=
  let pc : String × FieldValue := ("pc", .number p.1.regs.pc.toNat)
  match p.1.nextInstruction with
  | .rti | .res =>
    some ⟨.debug, "reserved opcode ignored", [pc, ("instr", .text (inspect p.1.nextInstruction))]⟩
  | .trap vector =>
    if vector < 0x20 ∨ 0x25 < vector then
      some ⟨.warn, "unknown trap vector ignored", [("vector", .number vector.toNat), pc]⟩
    else if vector = 0x25 ∧ (console.flush p.2).1.isOk = true then
      some ⟨.debug, "halted",
        [pc, ("cycles", .number (stepped console.handler p).1.cycles.toNat)]⟩
    else none
  | .br .. | .add .. | .ld .. | .st .. | .jsr .. | .and .. | .ldr .. | .str .. | .not ..
  | .ldi .. | .sti .. | .jmp .. | .lea .. => none

/-- The address and the word that the next step fetches, with the instruction of that word. -/
def executeEntry (m : Machine) : Entry :=
  ⟨.trace, "execute",
    [("pc", .number m.regs.pc.toNat), ("word", .number (m.mem.read m.regs.pc).toNat),
      ("instr", .text (inspect (Instruction.decode (m.mem.read m.regs.pc))))]⟩

/-- The entries of the next step: its own, and at once a remark if there is one. -/
def stepEntries (console : Console σ) (p : Machine × σ) : List Entry :=
  executeEntry p.1 :: (remark console p).toList

@[simp] theorem pc_advance_sub_one (m : Machine) : m.advance.regs.pc - 1 = m.regs.pc :=
  UInt16.add_sub_cancel _ _

/-- A routine other than HALT notes nothing. -/
theorem noted_execute_of_routine {m : Machine} {routine : Service}
    (h : m.nextInstruction.routine? = some routine) (other : routine ≠ .halt)
    (handler : Handler Channel σ) (state : σ) :
    noted ((m.advance.execute m.nextInstruction).turns handler state) = [] := by
  have silent : Conversation.Asks (fun r => Channel.note? r = none) (m.advance.converse routine) :=
    m.advance.asks_converse routine rfl (fun _ => rfl) rfl fun halt => absurd halt other
  rw [execute_of_routine _ h]
  exact (silent.andThen fun _ => .done _).noted_eq_nil handler state

/-- A HALT whose flush succeeds is counted. -/
theorem cycles_stepped_of_flushed (console : Console σ) {p : Machine × σ}
    (running : p.1.state = .running) (h : p.1.nextInstruction.routine? = some .halt)
    (spoken : (console.flush p.2).1 = .ok ()) :
    (stepped console.handler p).1.cycles = p.1.cycles + 1 := by
  have work : (p.1.advance.converse .halt).run.interp console.handler p.2 =
      (.ok none, (console.flush p.2).2) := by
    have answer : Conversation.flush.run.interp console.handler p.2 = console.flush p.2 := rfl
    rw [run_converse_halt, Dialogue.interp_andThen, answer, spoken]
    rfl
  have quiet (event : Event) : console.handler (.note event) p.2 = ((), p.2) := rfl
  rw [stepped, step_of_running running, Dialogue.interp_ask, quiet, execute_of_routine _ h]
  simp only [Dialogue.interp_andThen, Dialogue.interp_done, work]
  rfl

/-- HALT notes that it has stopped the machine if its flush succeeds. -/
theorem entries_execute_halt (console : Console σ) {p : Machine × σ}
    (running : p.1.state = .running) (h : p.1.nextInstruction.routine? = some .halt) :
    (noted ((p.1.advance.execute p.1.nextInstruction).turns console.handler p.2)).map Event.entry =
      (remark console p).toList := by
  have next : p.1.nextInstruction = .trap 0x25 := Instruction.routine?_eq_some_iff.mp h
  have inside : ¬ ((0x25 : Byte) < 0x20 ∨ (0x25 : Byte) < 0x25) := by decide
  have answer : Conversation.flush.run.interp console.handler p.2 = console.flush p.2 := rfl
  have unnoted : noted (Conversation.flush.run.turns console.handler p.2) = [] := rfl
  rw [execute_of_routine _ h, run_converse_halt, Dialogue.turns_andThen, Dialogue.turns_andThen,
    answer, noted_append, noted_append, unnoted, pc_advance_sub_one, remark, next]
  simp only [if_neg inside]
  cases spoken : (console.flush p.2).1 with
  | error fault => rfl
  | ok done =>
    rw [cycles_stepped_of_flushed console running h spoken]
    rfl

/-- What an instruction notes itself is its remark. -/
theorem entries_execute (console : Console σ) {p : Machine × σ} (running : p.1.state = .running) :
    (noted ((p.1.advance.execute p.1.nextInstruction).turns console.handler p.2)).map Event.entry =
      (remark console p).toList := by
  cases next : p.1.nextInstruction with
  | rti =>
    rw [execute, pc_advance_sub_one, remark, next]
    rfl
  | res =>
    rw [execute, pc_advance_sub_one, remark, next]
    rfl
  | trap vector =>
    by_cases outside : vector < 0x20 ∨ 0x25 < vector
    · have unknown : Service.ofVector? vector = none :=
        Instruction.routine?_trap_of_outside outside
      rw [execute, call, unknown, pc_advance_sub_one, remark, next]
      simp only [if_pos outside]
      rfl
    · obtain ⟨routine, rfl⟩ := Service.exists_vector_eq outside
      have called := Instruction.routine?_eq_some_iff.mpr next
      rw [← next]
      by_cases halt : routine = .halt
      · subst halt
        exact entries_execute_halt console running called
      · have silent : routine.vector ≠ 0x25 := by
          intro same
          have found := Service.ofVector?_vector routine
          rw [same] at found
          exact halt (Option.some.inj found).symm
        rw [noted_execute_of_routine called halt, remark, next]
        simp only [if_neg outside, silent, false_and, if_false]
        rfl
  | _ =>
    rw [remark, next]
    rfl

theorem entries_step (console : Console σ) {p : Machine × σ} (running : p.1.state = .running) :
    (noted (p.1.step.turns console.handler p.2)).map Event.entry = stepEntries console p := by
  have rest := entries_execute console running
  rw [step_of_running running, Dialogue.turns_ask, Dialogue.turns_andThen, Dialogue.turns_done,
    List.append_nil, stepEntries, ← rest]
  rfl

theorem not_isExecute_of_mem_remark {console : Console σ} {p : Machine × σ} {entry : Entry}
    (mem : entry ∈ remark console p) : entry.isExecute = false := by
  unfold remark at mem
  split at mem
  · cases mem
    rfl
  · cases mem
    rfl
  · split at mem
    · cases mem
      rfl
    · split at mem
      · cases mem
        rfl
      · cases mem
  all_goals cases mem

theorem filter_stepEntries (console : Console σ) (p : Machine × σ) :
    (stepEntries console p).filter Entry.isExecute = [executeEntry p.1] := by
  have others : (remark console p).toList.filter Entry.isExecute = [] := by
    rw [List.filter_eq_nil_iff]
    intro entry mem
    rw [not_isExecute_of_mem_remark (Option.mem_toList.mp mem)]
    exact Bool.false_ne_true
  exact congrArg (executeEntry p.1 :: ·) others

section
variable {console : Console σ} {p : Machine × σ} {k : Nat}
  {answer : Option (Except StepError UInt64)}

/-- The entries of some steps, each of a running machine. -/
theorem entries_transcript (running : ∀ j < k, (course console.handler p j).1.state = .running) :
    (noted (transcript console.handler p k)).map Event.entry =
      (List.range k).flatMap fun j => stepEntries console (course console.handler p j) := by
  induction k with
  | zero => rfl
  | succ k ih =>
    simp [ih fun j lt => running j (by omega),
      entries_step console (running k (Nat.lt_succ_self k)), List.range_succ]

/-- What a log tells about a run of so many steps and its answer. -/
structure Tells (console : Console σ) (p : Machine × σ) (k : Nat)
    (answer : Option (Except StepError UInt64)) (events : List Event) : Prop where
  /-- Every step of the run is one of a running machine, -/
  running : ∀ j < k, (course console.handler p j).1.state = .running
  /-- and the log holds the entries of all steps, in their order. -/
  entries : events.map Event.entry =
    (List.range k).flatMap fun j => stepEntries console (course console.handler p j)
  /-- Among them are the fetched instructions, each of them once. -/
  executed : (events.map Event.entry).filter Entry.isExecute =
    (List.range k).map fun j => executeEntry (course console.handler p j).1
  /-- As far as the counter reaches, a count is their number, -/
  counts : ∀ count, answer = some (.ok count) → p.1.cycles.toNat + k < 2 ^ 64 →
    (events.map Event.entry).countP Entry.isExecute = count.toNat
  /-- and a run that fails has counted one less. -/
  grows : ∀ e, answer = some (.error e) → p.1.cycles.toNat + k ≤ 2 ^ 64 →
    p.1.cycles.toNat + (events.map Event.entry).countP Entry.isExecute =
      (course console.handler p k).1.cycles.toNat + 1

theorem filter_entries (console : Console σ) (p : Machine × σ) (k : Nat) :
    ((List.range k).flatMap fun j => stepEntries console (course console.handler p j)).filter
        Entry.isExecute =
      (List.range k).map fun j => executeEntry (course console.handler p j).1 := by
  rw [List.filter_flatMap]
  simp only [filter_stepEntries]
  exact List.flatMap_pure_eq_map _ _

theorem Progress.tells (h : Progress console.handler p k answer) :
    Tells console p k answer (noted (transcript console.handler p k)) := by
  have running : ∀ j < k, (course console.handler p j).1.state = .running :=
    fun j lt => (h.lasts j lt).2
  have entries := entries_transcript running
  have executed := filter_entries console p k
  rw [← entries] at executed
  have number : ((noted (transcript console.handler p k)).map Event.entry).countP
      Entry.isExecute = k := by
    simp [List.countP_eq_length_filter, executed]
  refine ⟨running, entries, executed, ?_, ?_⟩
  · intro count same room
    rw [number]
    cases h with
    | finished finishes =>
      cases same
      exact (toNat_toUInt64_of_room room).symm
    | refused fails => cases same
    | unanswered lasts => cases same
  · intro e same room
    rw [number]
    cases h with
    | finished finishes => cases same
    | refused fails =>
      rw [fails.toNat_cycles (by omega)]
      rfl
    | unanswered lasts => cases same

end

/-- The log of a run tells its story, on every console and from every machine: of a bounded run,
which answers after some steps, and of an unbounded run however far it is followed, with an answer
or without one. A step adds its entries to the log, and a stopped machine leaves the log as it is.
-/
theorem log_of_run (console : Console σ) (m : Machine) (state : σ) (before : Array Event) :
    (∀ n : UInt64, ∃ k result events,
      (m.runLimited n).interp (console.loggingHandler (some .trace)) (state, before) =
        ((result, (course console.handler (m, state) k).1),
          (course console.handler (m, state) k).2, before ++ events.toArray) ∧
      m.cycles.toNat + k < 2 ^ 64 ∧ Tells console (m, state) k (some result) events) ∧
    (∀ fuel, ∃ k answer events,
      (m.run fuel).interp (console.loggingHandler (some .trace)) (state, before) =
        (answer.map fun result => (result, (course console.handler (m, state) k).1),
          (course console.handler (m, state) k).2, before ++ events.toArray) ∧
      Tells console (m, state) k answer events) ∧
    (m.state = .running → ∃ events : List Event,
      m.step.interp (console.loggingHandler (some .trace)) (state, before) =
        ((m.step.interp console.handler state).1, (m.step.interp console.handler state).2,
          before ++ events.toArray) ∧
      events.map Event.entry = stepEntries console (m, state)) ∧
    (m.state = .halted →
      m.step.interp (console.loggingHandler (some .trace)) (state, before) =
        ((.error .notRunning, m), state, before)) := by
  refine ⟨?_, ?_, ?_, ?_⟩
  · intro n
    obtain ⟨k, result, stops⟩ := exists_stopsAt console.handler (m, state) n
    have room := m.allowance_room n
    have fits := stops.le_allowance
    refine ⟨k, result, _, ?_, Nat.lt_of_le_of_lt (Nat.add_le_add_left fits _) room,
      stops.progress.tells⟩
    rw [Dialogue.interp_loggingHandler_trace, stops.turns, stops.returnsWithin]
  · intro fuel
    obtain ⟨k, answer, progress, value, said⟩ :=
      exists_progress_run console.handler (m, state) fuel
    refine ⟨k, answer, _, ?_, progress.tells⟩
    rw [Dialogue.interp_loggingHandler_trace, said, value]
  · intro running
    exact ⟨_, Dialogue.interp_loggingHandler_trace console m.step state before,
      entries_step console (p := (m, state)) running⟩
  · intro halted
    rw [step_of_halted m halted]
    rfl

end Machine

end LittleComputer
