import LittleComputer.Proofs.Halting

/-!
# When a run flushes

Before the machine waits for input, everything that it wrote has been flushed: a read is made
only right after a flush that was not refused. GETC, IN, PUTSP and HALT flush once each, and
nothing else does. So the last call of a run that stops its machine is a flush. All of this is
said of every console; that every flushing instruction does flush is said of the runs in which
no call was refused.
-/

namespace LittleComputer

/-- Whether a routine flushes. -/
def Service.flushes : Service → Bool
  | .getc | .input | .putsp | .halt => true
  | .out | .puts => false

/-- Whether a fetched word calls GETC, IN, PUTSP or HALT. -/
def Fetch.flushes (fetch : Fetch) : Bool :=
  fetch.word.toNat / 4096 == 15 && [0x20, 0x23, 0x24, 0x25].contains (fetch.word.toNat % 256)

/-- A flush that was not refused. -/
def Turn.Flushed (turn : Turn Channel) : Prop :=
  turn.kind? = some .flush ∧ turn.fault? = none

/-- Some calls of which the last is a flush that was not refused. -/
def EndsFlushed (calls : List (Turn Channel)) : Prop :=
  ∃ earlier flush, calls = earlier ++ [flush] ∧ flush.Flushed

/-- Every read among some calls comes right after a flush that was not refused. -/
def FlushedReads (calls : List (Turn Channel)) : Prop :=
  ∀ before call, before ++ [call] <+: calls → call.kind? = some .read → EndsFlushed before

/-- The number of flushes among some calls. -/
def flushCount (calls : List (Turn Channel)) : Nat :=
  calls.countP fun call => call.kind? = some .flush

theorem flushedReads_of_no_read {calls : List (Turn Channel)}
    (h : ∀ call ∈ calls, call.kind? ≠ some .read) : FlushedReads calls := by
  intro before call le reads
  exact absurd reads (h call (le.subset (by simp)))

theorem flushedReads_singleton {call : Turn Channel} (h : call.kind? ≠ some .read) :
    FlushedReads [call] := by
  apply flushedReads_of_no_read
  intro other mem
  obtain rfl := List.mem_singleton.mp mem
  exact h

theorem flushedReads_nil : FlushedReads [] := flushedReads_of_no_read nofun

theorem FlushedReads.append {first second : List (Turn Channel)} (h : FlushedReads first)
    (h' : FlushedReads second) : FlushedReads (first ++ second) := by
  intro before call le reads
  rcases List.prefix_or_prefix_of_prefix le (List.prefix_append first second) with early | late
  · exact h before call early reads
  · rcases List.prefix_concat_iff.mp late with same | ⟨start, rfl⟩
    · exact h before call (same ▸ List.prefix_refl first) reads
    · rw [List.append_assoc, List.prefix_append_right_inj] at le
      obtain ⟨earlier, flush, rfl, flushed⟩ := h' start call le reads
      exact ⟨first ++ earlier, flush, (List.append_assoc _ _ _).symm, flushed⟩

theorem flushedReads_pair {flush read : Turn Channel} (flushed : flush.Flushed) :
    FlushedReads [flush, read] := by
  intro before call le reads
  cases before with
  | nil =>
    obtain rfl : call = flush := (List.cons_prefix_cons.mp le).1
    rw [flushed.1] at reads
    cases reads
  | cons first rest =>
    obtain ⟨rfl, le⟩ := List.cons_prefix_cons.mp le
    have short := le.length_le
    obtain rfl : rest = [] := List.length_eq_zero_iff.mp (by simpa using short)
    exact ⟨[], first, rfl, flushed⟩

@[simp] theorem flushCount_append (first second : List (Turn Channel)) :
    flushCount (first ++ second) = flushCount first + flushCount second := List.countP_append

/-- The words that flush are those that call a flushing routine. -/
theorem Fetch.flushes_iff (fetch : Fetch) :
    fetch.flushes = true ↔
      ∃ routine : Service, Instruction.decode fetch.word = .trap routine.vector ∧
        routine.flushes = true := by
  have vectors : fetch.flushes = true ↔ fetch.word.toNat / 4096 = 15 ∧
      (fetch.word.toNat % 256 = 32 ∨ fetch.word.toNat % 256 = 35 ∨
        fetch.word.toNat % 256 = 36 ∨ fetch.word.toNat % 256 = 37) := by
    simp [flushes]
  rw [vectors]
  constructor
  · rintro ⟨code, low | low | low | low⟩
    · exact ⟨.getc, Instruction.decode_of_code code low, rfl⟩
    · exact ⟨.input, Instruction.decode_of_code code low, rfl⟩
    · exact ⟨.putsp, Instruction.decode_of_code code low, rfl⟩
    · exact ⟨.halt, Instruction.decode_of_code code low, rfl⟩
  · rintro ⟨routine, called, flushes⟩
    obtain ⟨code, low⟩ := Instruction.decode_eq_trap_iff.mp called
    refine ⟨code, ?_⟩
    rw [low]
    cases routine with
    | getc => exact Or.inl rfl
    | input => exact Or.inr (Or.inl rfl)
    | putsp => exact Or.inr (Or.inr (Or.inl rfl))
    | halt => exact Or.inr (Or.inr (Or.inr rfl))
    | out => cases flushes
    | puts => cases flushes

namespace Dialogue

variable {α β σ : Type} (handler : Handler Channel σ)

@[simp] theorem calls_andThen (d : Dialogue Channel α) (f : α → Dialogue Channel β) (state : σ) :
    (d.andThen f).calls handler state = d.calls handler state ++
      (f (d.interp handler state).1).calls handler (d.interp handler state).2 := by
  simp [calls]

@[simp] theorem calls_done (value : α) (state : σ) :
    (done value : Dialogue Channel α).calls handler state = [] := rfl

@[simp] theorem calls_ask_note (event : Event) (next : Unit → Dialogue Channel α) (state : σ) :
    (ask (.note event) next : Dialogue Channel α).calls handler state =
      (next ()).calls handler (handler (.note event) state).2 := rfl

end Dialogue

/-- Some calls that read only right after a flush, and that flush so many times, or fewer if what
they belong to did not end well. -/
structure Tidy (times : Nat) (calls : List (Turn Channel)) (ended : Bool) : Prop where
  reads : FlushedReads calls
  atMost : flushCount calls ≤ times
  all : ended = true → flushCount calls = times

theorem tidy_nil (ended : Bool) : Tidy 0 [] ended :=
  ⟨flushedReads_nil, Nat.le_refl 0, fun _ => rfl⟩

theorem Tidy.append {times more : Nat} {first second : List (Turn Channel)} {ended : Bool}
    (h : Tidy times first true) (h' : Tidy more second ended) :
    Tidy (times + more) (first ++ second) ended := by
  refine ⟨h.reads.append h'.reads, ?_, ?_⟩
  · simpa using Nat.add_le_add h.atMost h'.atMost
  · intro good
    simp [h.all rfl, h'.all good]

theorem Tidy.cut {times : Nat} {calls : List (Turn Channel)} (h : Tidy times calls false)
    (more : Nat) : Tidy (times + more) calls false :=
  ⟨h.reads, Nat.le_add_right_of_le h.atMost, nofun⟩

namespace Conversation

variable {α β : Type} {times more : Nat}

/-- Console work whose calls are tidy on every console. -/
def Flushes (times : Nat) (talk : Conversation α) : Prop :=
  ∀ (σ : Type) (handler : Handler Channel σ) (state : σ),
    Tidy times (talk.run.calls handler state) (talk.run.interp handler state).1.isOk

theorem flushes_pure (result : α) : Flushes 0 (pure result) := fun _ _ _ => tidy_nil true

theorem flushes_bind {talk : Conversation α} {next : α → Conversation β}
    (first : Flushes times talk) (rest : ∀ result, Flushes more (next result)) :
    Flushes (times + more) (talk >>= next) := by
  intro σ handler state
  have before := first σ handler state
  rw [run_bind, Dialogue.calls_andThen, Dialogue.interp_andThen]
  cases spoken : (talk.run.interp handler state).1 with
  | error fault =>
    rw [spoken] at before
    have nothing := before.cut more
    rwa [← List.append_nil (talk.run.calls handler state)] at nothing
  | ok result =>
    rw [spoken] at before
    exact before.append (rest result σ handler _)

theorem flushes_writeByte (byte : Byte) : Flushes 0 (writeByte byte) :=
  fun _ _ _ => ⟨flushedReads_singleton nofun, Nat.le_refl 0, fun _ => rfl⟩

theorem flushes_writeAll (bytes : List Byte) : Flushes 0 (writeAll bytes) := by
  induction bytes with
  | nil => exact flushes_pure ()
  | cons byte rest ih => exact flushes_bind (flushes_writeByte byte) fun _ => ih

theorem flushes_flush : Flushes 1 flush :=
  fun _ _ _ => ⟨flushedReads_singleton nofun, Nat.le_refl 1, fun _ => rfl⟩

theorem flushes_report (event : Event) : Flushes 0 (report event) :=
  fun _ _ _ => tidy_nil true

/-- A read is made right after a flush, and not at all if the flush is refused. -/
theorem flushes_flush_readByte : Flushes 1 (flush >>= fun _ => readByte) := by
  intro σ handler state
  have said : flush.run.calls handler state = [⟨.flush, (handler .flush state).1⟩] := rfl
  have answer : flush.run.interp handler state = handler .flush state := rfl
  rw [run_bind, Dialogue.calls_andThen, Dialogue.interp_andThen, said, answer]
  cases spoken : (handler .flush state).1 with
  | error fault => exact ⟨flushedReads_singleton nofun, Nat.le_refl 1, fun _ => rfl⟩
  | ok done => exact ⟨flushedReads_pair ⟨rfl, rfl⟩, Nat.le_refl 1, fun _ => rfl⟩

theorem flushes_flush_readByte_bind {next : Option Byte → Conversation α}
    (rest : ∀ byte, Flushes more (next byte)) :
    Flushes (1 + more) (flush >>= fun _ => readByte >>= next) := by
  rw [← bind_assoc]
  exact flushes_bind flushes_flush_readByte rest

end Conversation

namespace Machine

open Conversation in
/-- Every routine is tidy, and some of them flush. -/
theorem flushes_converse (m : Machine) (routine : Service) :
    Flushes (if routine.flushes then 1 else 0) (m.converse routine) := by
  cases routine with
  | getc => exact flushes_flush_readByte_bind fun _ => flushes_pure _
  | out => exact flushes_bind (flushes_writeByte _) fun _ => flushes_pure _
  | puts => exact flushes_bind (flushes_writeAll _) fun _ => flushes_pure _
  | input =>
    exact flushes_bind (flushes_writeAll _) fun _ =>
      flushes_flush_readByte_bind fun _ =>
        flushes_bind (flushes_writeAll _) fun _ => flushes_pure _
  | putsp =>
    exact flushes_bind (flushes_writeAll _) fun _ =>
      flushes_bind flushes_flush fun _ => flushes_pure _
  | halt =>
    exact flushes_bind flushes_flush fun _ =>
      flushes_bind (flushes_report _) fun _ => flushes_pure _

open Conversation in
/-- The only call of HALT is its flush. -/
theorem calls_converse_halt {σ : Type} (handler : Handler Channel σ) (m : Machine) (state : σ)
    (h : ((m.converse .halt).run.interp handler state).1.isOk = true) :
    ∃ flush, (m.converse .halt).run.calls handler state = [flush] ∧ flush.Flushed := by
  have said : flush.run.calls handler state = [⟨.flush, (handler .flush state).1⟩] := rfl
  have answer : flush.run.interp handler state = handler .flush state := rfl
  rw [run_converse_halt, Dialogue.interp_andThen, answer] at h
  rw [run_converse_halt, Dialogue.calls_andThen, said, answer]
  cases spoken : (handler .flush state).1 with
  | error fault =>
    rw [spoken] at h
    cases h
  | ok done => exact ⟨⟨.flush, .ok done⟩, rfl, rfl, rfl⟩

theorem flushes_nextFetch (m : Machine) :
    m.nextFetch.flushes = m.nextInstruction.routine?.any Service.flushes := by
  rw [Bool.eq_iff_iff, Fetch.flushes_iff, Option.any_eq_true]
  simp only [Instruction.routine?_eq_some_iff]
  rfl

section
variable {σ : Type} (handler : Handler Channel σ)

/-- The calls of a step are those of its instruction; the note that it begins with is none. -/
theorem calls_step {m : Machine} (running : m.state = .running) (state : σ) :
    ∃ state', m.step.calls handler state =
        (m.advance.execute m.nextInstruction).calls handler state' ∧
      (m.step.interp handler state).1 = finish m.nextInstruction
        ((m.advance.execute m.nextInstruction).interp handler state').1 := by
  refine ⟨(handler (.note (.executing m.regs.pc m.nextWord m.nextInstruction)) state).2, ?_, ?_⟩
  · simp [step_of_running running]
  · simp [step_of_running running]

/-- The calls of a step over a service word are those of the routine, and the step finishes if
they were all answered. -/
theorem calls_step_of_routine {m : Machine} {routine : Service} (running : m.state = .running)
    (h : m.nextInstruction.routine? = some routine) (state : σ) :
    ∃ state', m.step.calls handler state =
        (m.advance.converse routine).run.calls handler state' ∧
      (m.step.interp handler state).1.1.isOk =
        ((m.advance.converse routine).run.interp handler state').1.isOk := by
  obtain ⟨state', said, answer⟩ := calls_step handler running state
  rw [execute_of_routine _ h] at said answer
  refine ⟨state', ?_, ?_⟩
  · simp [said]
  · rw [answer, Dialogue.interp_andThen]
    cases ((m.advance.converse routine).run.interp handler state').1 with
    | error fault => rfl
    | ok result => rfl

/-- A step is tidy on every console, and flushes if its instruction does. -/
theorem tidy_step {m : Machine} (running : m.state = .running) (state : σ) :
    Tidy (if m.nextFetch.flushes then 1 else 0) (m.step.calls handler state)
      (m.step.interp handler state).1.1.isOk := by
  rw [flushes_nextFetch]
  cases h : m.nextInstruction.routine? with
  | none =>
    obtain ⟨state', said, -⟩ := calls_step handler running state
    have silent : m.step.calls handler state = [] := by
      rcases m.advance.execute_of_silent h with now | ⟨event, now⟩
      · rw [said, now]
        rfl
      · rw [said, now]
        rfl
    rw [silent]
    exact tidy_nil _
  | some routine =>
    obtain ⟨state', said, ended⟩ := calls_step_of_routine handler running h state
    rw [said, ended]
    exact flushes_converse m.advance routine σ handler state'

end

section
variable {σ : Type} {handler : Handler Channel σ} {p : Machine × σ} {k : Nat}

/-- The calls of some steps and of one more. -/
theorem tidy_transcript_succ (running : (course handler p k).1.state = .running)
    (h : Tidy ((fetches (transcript handler p k)).countP Fetch.flushes)
      ((transcript handler p k).filter Turn.isCall) true) :
    Tidy ((fetches (transcript handler p (k + 1))).countP Fetch.flushes)
      ((transcript handler p (k + 1)).filter Turn.isCall) (resultAt handler p k).isOk := by
  rw [transcript_succ, fetches_append, List.countP_append, List.filter_append,
    fetches_step running, List.countP_singleton]
  exact h.append (tidy_step handler running _)

theorem tidy_transcript (h : Finishes handler p k) :
    Tidy ((fetches (transcript handler p k)).countP Fetch.flushes)
      ((transcript handler p k).filter Turn.isCall) true := by
  induction k with
  | zero => exact tidy_nil true
  | succ k ih =>
    obtain ⟨before, i, last⟩ := finishes_succ_iff.mp h
    have tidy := tidy_transcript_succ (running_of_ok last) (ih before)
    rwa [last] at tidy

/-- A step of which no call is refused finishes. -/
theorem ok_of_unrefused (running : (course handler p k).1.state = .running)
    (answered : ∀ call ∈ (course handler p k).1.step.calls handler (course handler p k).2,
      call.fault? = none) : ∃ i, resultAt handler p k = .ok i := by
  rcases (careful_step running).calls_outcome handler (course handler p k).2 with
    ⟨⟨word, -, value⟩, -⟩ | ⟨before, refused, fault, calls, last, -, -⟩
  · exact ⟨_, congrArg Prod.fst value⟩
  · have none := answered refused (by rw [calls]; simp)
    rw [last] at none
    cases none

/-- What was said in a run: reads come right after flushes, and if no call was refused, there
is a flush for every GETC, IN, PUTSP and HALT. -/
structure Disciplined (said : List (Turn Channel)) : Prop where
  reads : FlushedReads (said.filter Turn.isCall)
  counts : (∀ call ∈ said.filter Turn.isCall, call.fault? = none) →
    flushCount (said.filter Turn.isCall) = (fetches said).countP Fetch.flushes

theorem disciplined_transcript (lasts : ∀ j < k, LastsFor handler p j) :
    Disciplined (transcript handler p k) := by
  cases k with
  | zero => exact ⟨flushedReads_nil, fun _ => rfl⟩
  | succ k =>
    obtain ⟨finishes, running⟩ := lasts k (Nat.lt_succ_self k)
    have tidy := tidy_transcript_succ running (tidy_transcript finishes)
    refine ⟨tidy.reads, ?_⟩
    intro answered
    obtain ⟨i, last⟩ : ∃ i, resultAt handler p k = .ok i := by
      apply ok_of_unrefused running
      intro call mem
      apply answered call
      rw [transcript_succ, List.filter_append]
      exact List.mem_append_right _ mem
    exact tidy.all (by rw [last]; rfl)

/-- The last call of a run that stops its machine without a fault is the flush of HALT. -/
theorem endsFlushed_transcript (h : Finishes handler p k) (running : p.1.state = .running)
    (halted : (course handler p k).1.state = .halted) :
    EndsFlushed ((transcript handler p k).filter Turn.isCall) := by
  cases k with
  | zero =>
    simp [running] at halted
  | succ k =>
    obtain ⟨i, last⟩ := h k (Nat.lt_succ_self k)
    have now := running_of_ok last
    have halt := (halts_nextFetch_iff _).mp ((state_course_succ now).mp halted)
    obtain ⟨state', said, ended⟩ := calls_step_of_routine handler now halt (course handler p k).2
    have good : (resultAt handler p k).isOk = true := by rw [last]; rfl
    obtain ⟨flush, calls, flushed⟩ := calls_converse_halt handler _ state' (ended.symm.trans good)
    refine ⟨(transcript handler p k).filter Turn.isCall, flush, ?_, flushed⟩
    rw [transcript_succ, List.filter_append, ← calls, ← said]
    rfl

end

/-- The flushes of every run, on every console. No step flushes unless its word calls GETC, IN,
PUTSP or HALT. In every run, also in one that does not end, reads come right after flushes, and if
no call is refused the flushes are as many as the instructions that call for one. A run that stops
the machine and answers with a count has a flush for its last call. -/
theorem flushes_of_run {σ : Type} (console : Console σ) (m : Machine) (state : σ) :
    (∀ (m : Machine) (state : σ), m.state = .running → m.nextFetch.flushes = false →
      ∀ call ∈ m.step.calls console.handler state, call.kind? ≠ some .flush) ∧
    (∀ n, Disciplined ((m.runLimited n).turns console.handler state)) ∧
    (∀ fuel, Disciplined ((m.run fuel).turns console.handler state)) ∧
    (m.state = .running →
      (∀ n count last, ReturnsWithin console.handler (m, state) n (.ok count) last →
        last.1.state = .halted → EndsFlushed ((m.runLimited n).calls console.handler state)) ∧
      ∀ fuel count (last : Machine × σ),
        (m.run fuel).interp console.handler state = (some (.ok count, last.1), last.2) →
          last.1.state = .halted ∧ EndsFlushed ((m.run fuel).calls console.handler state)) := by
  refine ⟨?_, ?_, ?_, ?_⟩
  · intro m state running silent call mem flush
    have none := (tidy_step console.handler running state).atMost
    rw [silent] at none
    have some : 0 < flushCount (m.step.calls console.handler state) :=
      List.countP_pos_iff.mpr ⟨call, mem, by simp [flush]⟩
    exact absurd none (Nat.not_le_of_lt some)
  · intro n
    obtain ⟨k, -, said, lasts⟩ := exists_turns_runLimited console.handler (m, state) n
    rw [said]
    exact disciplined_transcript lasts
  · intro fuel
    obtain ⟨k, said, lasts⟩ := exists_turns_run console.handler (m, state) fuel
    rw [said]
    exact disciplined_transcript lasts
  · intro running
    constructor
    · intro n count last returns halted
      obtain ⟨k, result, ends, -, within, said⟩ :=
        exists_endsAfter_runLimited console.handler (m, state) n
      obtain ⟨rfl, rfl⟩ := returns.unique within
      rw [Dialogue.calls, said]
      exact endsFlushed_transcript (ends.counts count rfl).1 running halted
    · intro fuel count last answer
      obtain ⟨k, ends, rfl, said, stopped⟩ := exists_endsAfter_run (p := (m, state)) answer
      have halted := stopped count rfl
      rw [Dialogue.calls, said]
      exact ⟨halted, endsFlushed_transcript (ends.counts count rfl).1 running halted⟩

end Machine

end LittleComputer
