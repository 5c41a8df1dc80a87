import LittleComputer.Proofs.InstructionWord
import LittleComputer.Proofs.Limit
import LittleComputer.Proofs.ServiceCall

/-!
# Only HALT stops a machine

A machine carries out any sequence of steps and runs, each on a console of its own. What is
fetched in them is read off what the machine reports. A machine is stopped by fetching a word
that calls HALT, also if the flush of HALT is refused, and by nothing else; then it fetches no
more, and whatever is asked of it changes nothing.
-/

namespace LittleComputer

/-- A word that was fetched, with the address it was fetched from. -/
structure Fetch where
  address : Word
  word : Word

/-- A fetched word that calls HALT; bits 11 to 8 of a service word do not count. -/
def Fetch.Halts (fetch : Fetch) : Prop := fetch.word &&& 0xF0FF = 0xF025

/-- The fetch that a request reports. -/
def Channel.fetch? : Request → Option Fetch
  | .note (.executing pc word _) => some ⟨pc, word⟩
  | _ => none

/-- The fetches that some turns report. -/
def fetches (turns : List (Turn Channel)) : List Fetch :=
  turns.filterMap fun turn => Channel.fetch? turn.request

@[simp] theorem fetches_append (first second : List (Turn Channel)) :
    fetches (first ++ second) = fetches first ++ fetches second := List.filterMap_append

theorem Fetch.halts_iff (fetch : Fetch) :
    fetch.Halts ↔ Instruction.decode fetch.word = .trap 0x25 := by
  have bound := fetch.word.toNat_lt
  have vector : (0x25 : Byte).toNat = 37 := rfl
  have halt : (0xF025 : Word).toNat = 61477 := rfl
  have mask : (0xF0FF : Word) = ~~~ Word.block 8 4 := by decide
  have cleared := Word.toNat_clear fetch.word (by decide : 8 + 4 ≤ 16)
  rw [Word.clear, ← mask] at cleared
  rw [Halts, ← UInt16.toNat_inj, Instruction.decode_eq_trap_iff]
  omega

namespace Machine

/-- What the next step fetches. -/
def nextFetch (m : Machine) : Fetch := ⟨m.regs.pc, m.nextWord⟩

theorem halts_nextFetch_iff (m : Machine) :
    m.nextFetch.Halts ↔ m.nextInstruction.routine? = some .halt := by
  rw [Fetch.halts_iff, Instruction.routine?_eq_some_iff]
  rfl

open Conversation in
/-- Everything that the console work of a routine can ask. -/
theorem asks_converse {P : Channel.Request → Prop} (m : Machine) (routine : Service)
    (read : P .read) (write : ∀ byte, P (.write byte)) (flush : P .flush)
    (halted : routine = .halt → P (.note (.halted (m.regs.pc - 1) (m.cycles + 1)))) :
    Conversation.Asks P (m.converse routine) := by
  cases routine with
  | getc =>
    apply asks_bind (asks_flush flush)
    intro _
    apply asks_bind (asks_readByte read)
    intro _
    exact asks_pure _
  | out =>
    apply asks_bind (asks_writeByte (write _))
    intro _
    exact asks_pure _
  | puts =>
    apply asks_bind (asks_writeAll _ write)
    intro _
    exact asks_pure _
  | input =>
    apply asks_bind (asks_writeAll _ write)
    intro _
    apply asks_bind (asks_flush flush)
    intro _
    apply asks_bind (asks_readByte read)
    intro _
    apply asks_bind (asks_writeAll _ write)
    intro _
    exact asks_pure _
  | putsp =>
    apply asks_bind (asks_writeAll _ write)
    intro _
    apply asks_bind (asks_flush flush)
    intro _
    exact asks_pure _
  | halt =>
    apply asks_bind (asks_flush flush)
    intro _
    apply asks_bind (asks_report (halted rfl))
    intro _
    exact asks_pure _

/-- Executing an instruction reports no fetch. -/
theorem asks_execute (m : Machine) (i : Instruction) :
    Dialogue.Asks (fun r => Channel.fetch? r = none) (m.execute i) := by
  cases h : i.routine? with
  | some routine =>
    rw [execute_of_routine m h]
    have silent : Conversation.Asks (fun r => Channel.fetch? r = none) (m.converse routine) :=
      m.asks_converse routine rfl (fun _ => rfl) rfl fun _ => rfl
    exact silent.andThen fun _ => .done _
  | none =>
    cases i with
    | trap vector =>
      rw [Instruction.routine?] at h
      rw [execute, call, h]
      exact .ask rfl fun _ => .done _
    | rti => exact .ask rfl fun _ => .done _
    | res => exact .ask rfl fun _ => .done _
    | _ => exact .done _

section
variable {σ : Type} {handler : Handler Channel σ} {p : Machine × σ} {k : Nat}

/-- A step of a running machine reports the fetch that it begins with, and no other. -/
theorem fetches_step {m : Machine} (running : m.state = .running) (state : σ) :
    fetches (m.step.turns handler state) = [m.nextFetch] := by
  have rest : Dialogue.Asks (fun r => Channel.fetch? r = none)
      ((m.advance.execute m.nextInstruction).andThen fun outcome =>
        .done (finish m.nextInstruction outcome)) :=
    (asks_execute m.advance m.nextInstruction).andThen fun _ => .done _
  rw [step_of_running running, Dialogue.turns_ask]
  have silent := List.filterMap_eq_nil_iff.mpr (rest.of_mem_turns handler
    (handler (.note (.executing m.regs.pc m.nextWord m.nextInstruction)) state).2)
  exact congrArg (m.nextFetch :: ·) silent

/-- The fetches of some steps, each of a running machine. -/
theorem fetches_transcript (running : ∀ j < k, (course handler p j).1.state = .running) :
    fetches (transcript handler p k) =
      (List.range k).map fun j => (course handler p j).1.nextFetch := by
  induction k with
  | zero => rfl
  | succ k ih =>
    simp [ih fun j lt => running j (Nat.lt_succ_of_lt lt),
      fetches_step (running k (Nat.lt_succ_self k)), List.range_succ]

theorem state_entered_eq_halted_iff {m : Machine} (running : m.state = .running) :
    m.entered.state = .halted ↔ m.nextInstruction.routine? = some .halt := by
  by_cases halt : m.nextInstruction.routine? = some .halt
  · simp [entered, halt]
  · simp [entered, halt, running]

/-- A step stops a running machine if it fetches HALT, whether its console work succeeds or
not, and only then. -/
theorem state_course_succ (running : (course handler p k).1.state = .running) :
    (course handler p (k + 1)).1.state = .halted ↔ (course handler p k).1.nextFetch.Halts := by
  rw [halts_nextFetch_iff, ← state_entered_eq_halted_iff running]
  rcases step_cases running with ⟨word, -, -, after⟩ | ⟨fault, -, after⟩
  · rw [after, state_finished]
  · rw [after]

/-- A step over a service word keeps its frame, whether it finishes or not. -/
theorem frame_course_succ {vector : Byte} (running : (course handler p k).1.state = .running)
    (h : (course handler p k).1.nextInstruction = .trap vector) :
    Frame (course handler p k).1 (course handler p (k + 1)).1 := by
  rcases step_cases running with ⟨word, -, -, after⟩ | ⟨fault, -, after⟩
  · rw [after]
    exact frame_finished h word
  · rw [after]
    exact frame_entered _

/-- The step that stops a machine moves PC past the address it fetched from. -/
theorem address_of_stopped (running : (course handler p k).1.state = .running)
    (halted : (course handler p (k + 1)).1.state = .halted) :
    (course handler p k).1.nextFetch.address = (course handler p (k + 1)).1.regs.pc - 1 := by
  have called := (halts_nextFetch_iff _).mp ((state_course_succ running).mp halted)
  have frame := frame_course_succ running (Instruction.routine?_eq_some_iff.mp called)
  have moved : (course handler p (k + 1)).1.regs.pc = (course handler p k).1.regs.pc + 1 := by
    apply UInt16.toNat.inj
    rw [frame.pc, UInt16.toNat_add]
    rfl
  rw [moved, UInt16.add_sub_cancel]
  rfl

/-- An unbounded run that answers with a count has fetched so many words, the last of them HALT,
and has moved PC past it. -/
theorem fetches_of_run_ok {q : Machine × σ} {fuel : Nat} {count : UInt64}
    (h : (p.1.run fuel).interp handler p.2 = (some (.ok count, q.1), q.2))
    (running : p.1.state = .running)
    (room : p.1.cycles.toNat + (fetches ((p.1.run fuel).turns handler p.2)).length < 2 ^ 64) :
    (fetches ((p.1.run fuel).turns handler p.2)).length = count.toNat ∧ 1 ≤ count.toNat ∧
      ∃ (before : List Fetch) (fetch : Fetch),
        fetches ((p.1.run fuel).turns handler p.2) = before ++ [fetch] ∧ fetch.Halts ∧
        fetch.address = q.1.regs.pc - 1 := by
  obtain ⟨k, ends, rfl, said, stopped⟩ := exists_endsAfter_run h
  obtain ⟨-, rfl⟩ := ends.counts count rfl
  have halted := stopped _ rfl
  have always : ∀ j < k, (course handler p j).1.state = .running := fun j lt => (ends.lasts j lt).2
  rw [said, fetches_transcript always] at room ⊢
  rw [List.length_map, List.length_range] at room ⊢
  rw [toNat_toUInt64_of_room room]
  cases k with
  | zero =>
    simp [running] at halted
  | succ k =>
    have now := always k (Nat.lt_succ_self k)
    rw [List.range_succ, List.map_append, List.map_singleton]
    exact ⟨rfl, Nat.le_add_left _ _, _, _, rfl, (state_course_succ now).mp halted,
      address_of_stopped now halted⟩

/-- How a machine comes to a stop, or does not, while it fetches some words. -/
structure StopsByFetch (before : Machine) (fetched : List Fetch) (after : Machine) : Prop where
  stopped : after.state = .halted ↔ before.state = .halted ∨ ∃ fetch ∈ fetched, fetch.Halts
  last : ∀ fetch ∈ fetched.dropLast, ¬ fetch.Halts
  idle : before.state = .halted → fetched = []

theorem stopsByFetch_refl (m : Machine) : StopsByFetch m [] m := by
  refine ⟨?_, nofun, fun _ => rfl⟩
  constructor
  · exact Or.inl
  · rintro (halted | ⟨fetch, mem, -⟩)
    · exact halted
    · cases mem

theorem StopsByFetch.trans {a b c : Machine} {first second : List Fetch}
    (h : StopsByFetch a first b) (h' : StopsByFetch b second c) :
    StopsByFetch a (first ++ second) c := by
  refine ⟨?_, ?_, ?_⟩
  · rw [h'.stopped, h.stopped, or_assoc]
    simp only [List.mem_append, or_and_right, exists_or]
  · cases second with
    | nil => rw [List.append_nil]; exact h.last
    | cons fetch rest =>
      -- The second part fetches something, so nothing in the first has stopped the machine.
      have quiet : ∀ early ∈ first, ¬ early.Halts := by
        intro early mem halts
        cases h'.idle (h.stopped.mpr (Or.inr ⟨early, mem, halts⟩))
      rw [List.dropLast_append_of_ne_nil (List.cons_ne_nil fetch rest)]
      intro other mem
      rcases List.mem_append.mp mem with early | late
      · exact quiet other early
      · exact h'.last other late
  · intro halted
    rw [h.idle halted, h'.idle (h.stopped.mpr (Or.inl halted)), List.append_nil]

theorem stopsByFetch_course (running : ∀ j < k, (course handler p j).1.state = .running) :
    StopsByFetch p.1 (fetches (transcript handler p k)) (course handler p k).1 := by
  induction k with
  | zero => exact stopsByFetch_refl p.1
  | succ k ih =>
    have now := running k (Nat.lt_succ_self k)
    rw [transcript_succ, fetches_append, fetches_step now]
    refine (ih fun j lt => running j (Nat.lt_succ_of_lt lt)).trans ⟨?_, nofun, ?_⟩
    · rw [state_course_succ now]
      simp [now]
    · intro halted
      rw [now] at halted
      cases halted

end

/-- What can be asked of a machine. -/
inductive Order where
  | step
  | run
  | runLimited (maximum : UInt64)

/-- What a machine answers. -/
inductive Reply where
  | executed (i : Instruction)
  | counted (count : UInt64)
  | failed (error : StepError)

def Reply.ofStep : Except StepError Instruction → Reply
  | .ok i => executed i
  | .error e => failed e

def Reply.ofRun : Except StepError UInt64 → Reply
  | .ok count => counted count
  | .error e => failed e

/-- What a stopped machine answers. -/
def Order.idleReply : Order → Reply
  | step => .failed .notRunning
  | run | runLimited _ => .counted 0

/-- An order with what was said in carrying it out, and the reply. -/
structure Visit where
  order : Order
  said : List (Turn Channel)
  reply : Reply

/-- A machine carries out an order on some console and comes to an end with it. -/
inductive Carries : Machine → Visit → Machine → Prop where
  | step {σ : Type} (console : Console σ) {m after : Machine} {state state' : σ}
      {result : Except StepError Instruction}
      (answer : m.step.interp console.handler state = ((result, after), state')) :
      Carries m ⟨.step, m.step.turns console.handler state, .ofStep result⟩ after
  | run {σ : Type} (console : Console σ) {m after : Machine} {state state' : σ} {fuel : Nat}
      {result : Except StepError UInt64}
      (answer : (m.run fuel).interp console.handler state = (some (result, after), state')) :
      Carries m ⟨.run, (m.run fuel).turns console.handler state, .ofRun result⟩ after
  | runLimited {σ : Type} (console : Console σ) {m after : Machine} {state state' : σ}
      {maximum : UInt64} {result : Except StepError UInt64}
      (answer : (m.runLimited maximum).interp console.handler state = ((result, after), state')) :
      Carries m ⟨.runLimited maximum, (m.runLimited maximum).turns console.handler state,
        .ofRun result⟩ after

/-- A machine carries out orders one after the other. -/
inductive CarriesAll : Machine → List Visit → Machine → Prop where
  | done (m : Machine) : CarriesAll m [] m
  | visit {m between last : Machine} {visit : Visit} {rest : List Visit}
      (first : Carries m visit between) (others : CarriesAll between rest last) :
      CarriesAll m (visit :: rest) last

/-- The fetches of some orders. -/
def Visit.fetches (visits : List Visit) : List Fetch :=
  visits.flatMap fun visit => LittleComputer.fetches visit.said

/-- Every order is carried out by some steps, each of a running machine. -/
theorem Carries.exists_course {m after : Machine} {visit : Visit} (h : Carries m visit after) :
    ∃ (σ : Type) (console : Console σ) (state : σ) (k : Nat),
      visit.said = transcript console.handler (m, state) k ∧
      after = (course console.handler (m, state) k).1 ∧
      ∀ j < k, (course console.handler (m, state) j).1.state = .running := by
  cases h with
  | @step σ console _ _ state state' result answer =>
    cases running : m.state with
    | running =>
      have said : m.step.turns console.handler state = transcript console.handler (m, state) 1 := by
        rw [transcript_succ]
        rfl
      refine ⟨σ, console, state, 1, said, ?_, ?_⟩
      · simp [stepped, answer]
      · intro j lt
        obtain rfl : j = 0 := Nat.lt_one_iff.mp lt
        exact running
    | halted =>
      rw [step_of_halted m running] at answer ⊢
      cases answer
      exact ⟨σ, console, state, 0, rfl, rfl, fun j lt => absurd lt (Nat.not_lt_zero j)⟩
  | @run σ console _ _ state state' fuel result answer =>
    obtain ⟨k, ends, last, said, -⟩ :=
      exists_endsAfter_run (p := (m, state)) (q := (after, state')) answer
    exact ⟨σ, console, state, k, said, congrArg Prod.fst last, fun j lt => (ends.lasts j lt).2⟩
  | @runLimited σ console _ _ state state' maximum result answer =>
    obtain ⟨k, result', ends, -, within, said⟩ :=
      exists_endsAfter_runLimited console.handler (m, state) maximum
    have here : ReturnsWithin console.handler (m, state) maximum result (after, state') := answer
    obtain ⟨-, last⟩ := here.unique within
    exact ⟨σ, console, state, k, said, congrArg Prod.fst last, fun j lt => (ends.lasts j lt).2⟩

theorem Carries.stopsByFetch {m after : Machine} {visit : Visit} (h : Carries m visit after) :
    StopsByFetch m (fetches visit.said) after := by
  obtain ⟨σ, console, state, k, said, rfl, running⟩ := h.exists_course
  rw [said]
  exact stopsByFetch_course running

theorem CarriesAll.stopsByFetch {m last : Machine} {visits : List Visit}
    (h : CarriesAll m visits last) : StopsByFetch m (Visit.fetches visits) last := by
  induction h with
  | done m => exact stopsByFetch_refl m
  | visit first others ih => exact first.stopsByFetch.trans ih

theorem CarriesAll.cut {m last : Machine} {first rest : List Visit}
    (h : CarriesAll m (first ++ rest) last) :
    ∃ between, CarriesAll m first between ∧ CarriesAll between rest last := by
  induction first generalizing m with
  | nil => exact ⟨m, .done m, h⟩
  | cons visit first ih =>
    cases h with
    | visit now others =>
      obtain ⟨between, before, after⟩ := ih others
      exact ⟨between, .visit now before, after⟩

/-- A stopped machine says nothing, stays as it is and answers as one. -/
theorem Carries.idle {m after : Machine} {visit : Visit} (h : Carries m visit after)
    (halted : m.state = .halted) :
    after = m ∧ visit.said = [] ∧ visit.reply = visit.order.idleReply := by
  cases h with
  | step console answer =>
    rw [step_of_halted m halted] at answer ⊢
    cases answer
    exact ⟨rfl, rfl, rfl⟩
  | run console answer =>
    rw [run_of_halted _ m halted] at answer ⊢
    cases answer
    exact ⟨rfl, rfl, rfl⟩
  | runLimited console answer =>
    rw [runLimited_of_halted m _ halted] at answer ⊢
    cases answer
    exact ⟨rfl, rfl, rfl⟩

theorem CarriesAll.idle {m last : Machine} {visits : List Visit} (h : CarriesAll m visits last)
    (halted : m.state = .halted) :
    last = m ∧ ∀ visit ∈ visits, visit.said = [] ∧ visit.reply = visit.order.idleReply := by
  induction h with
  | done m => exact ⟨rfl, nofun⟩
  | visit first others ih =>
    obtain ⟨rfl, now⟩ := first.idle halted
    obtain ⟨same, later⟩ := ih halted
    exact ⟨same, List.forall_mem_cons.mpr ⟨now, later⟩⟩

theorem Carries.fetches_of_run {m after : Machine} {visit : Visit} {count : UInt64}
    (h : Carries m visit after) (run : visit.order = .run) (reply : visit.reply = .counted count)
    (running : m.state = .running)
    (room : m.cycles.toNat + (fetches visit.said).length < 2 ^ 64) :
    (fetches visit.said).length = count.toNat ∧ 1 ≤ count.toNat ∧
      ∃ (before : List Fetch) (fetch : Fetch), fetches visit.said = before ++ [fetch] ∧
        fetch.Halts ∧ fetch.address = after.regs.pc - 1 := by
  cases h with
  | step console answer => cases run
  | runLimited console answer => cases run
  | @run σ console _ _ state state' fuel result answer =>
    cases result with
    | error e => cases reply
    | ok counted =>
      cases reply
      exact fetches_of_run_ok (p := (m, state)) (q := (after, state')) answer running room

/-- Only HALT stops a machine, and a stopped machine stays as it is, whatever is asked of it. A step
of a running machine fetches the word at PC. The machine is stopped in the end if it was in the
beginning or a fetch is HALT, which only the last of all fetches can be, and from then on it says
nothing and nothing changes. An unbounded run that answers has fetched the counted words, the last
of them HALT. -/
theorem only_halt_stops {m last : Machine} {visits : List Visit} (h : CarriesAll m visits last) :
    (∀ {σ : Type} (console : Console σ) (state : σ) (m : Machine), m.state = .running →
      fetches (m.step.turns console.handler state) = [⟨m.regs.pc, m.mem.read m.regs.pc⟩]) ∧
    (last.state = .halted ↔
      m.state = .halted ∨ ∃ fetch ∈ Visit.fetches visits, fetch.Halts) ∧
    (∀ fetch ∈ (Visit.fetches visits).dropLast, ¬ fetch.Halts) ∧
    (∀ first rest, visits = first ++ rest → ∃ between, CarriesAll m first between ∧
      CarriesAll between rest last ∧
      (between.state = .halted → last = between ∧
        ∀ visit ∈ rest, visit.said = [] ∧ visit.reply = visit.order.idleReply)) ∧
    (∀ m : Machine, m.state = .halted → m.step = .done (.error .notRunning, m) ∧
      (∀ maximum, m.runLimited maximum = .done (.ok 0, m)) ∧
      ∀ fuel, m.run fuel = .done (some (.ok 0, m))) ∧
    ∀ before visit after count, Carries before visit after → visit.order = .run →
      visit.reply = .counted count → before.state = .running →
      before.cycles.toNat + (fetches visit.said).length < 2 ^ 64 →
      (fetches visit.said).length = count.toNat ∧ 1 ≤ count.toNat ∧
        ∃ (earlier : List Fetch) (fetch : Fetch), fetches visit.said = earlier ++ [fetch] ∧
          fetch.Halts ∧ fetch.address = after.regs.pc - 1 := by
  obtain ⟨stopped, early, -⟩ := h.stopsByFetch
  refine ⟨?_, stopped, early, ?_, ?_, ?_⟩
  · intro σ console state m running
    exact fetches_step running state
  · rintro first rest rfl
    obtain ⟨between, before, after⟩ := h.cut
    exact ⟨between, before, after, after.idle⟩
  · intro m halted
    exact ⟨step_of_halted m halted, fun maximum => runLimited_of_halted m maximum halted,
      fun fuel => run_of_halted fuel m halted⟩
  · intro before visit after count carries run reply running room
    exact carries.fetches_of_run run reply running room

/-- The console that refuses every flush. -/
def clogged : Console (ScriptedConsole × Attempts) :=
  ScriptedConsole.console.faulty (.refusing .flush)

/-- HALT with its flush refused: the step fails, and yet the machine has stopped for good. -/
theorem only_halt_stops_of_refused_flush :
    ∃ visits last, CarriesAll (about start 0xF025) visits last ∧
      visits.map Visit.reply =
        [.failed (.console (.refused .flush)), .failed .notRunning, .counted 0] ∧
      last.state = .halted ∧ ∃ fetch ∈ Visit.fetches visits, fetch.Halts := by
  let stopped : Machine := (about start 0xF025).entered
  have word := nextWord_about start 0xF025
  have halt : (about start 0xF025).nextInstruction = .trap 0x25 := by
    rw [nextInstruction, word]
    exact Instruction.decode_of_code rfl rfl
  have halted : stopped.state = .halted := by
    rw [state_entered_of_trap rfl halt]
    rfl
  have failed : (about start 0xF025).step.interp clogged.handler (.ofInput [], .none) =
      ((.error (.console (.refused .flush)), stopped), (.ofInput [], ⟨0, 0, 1⟩)) := by
    have entered : stopped = { (about start 0xF025).advance with state := .halted } := by
      simp only [stopped, entered, halt]
      rfl
    rw [step_of_running rfl, halt, entered]
    rfl
  have refused : stopped.step.interp clogged.handler (.ofInput [], .none) =
      ((.error .notRunning, stopped), (.ofInput [], .none)) := by
    rw [step_of_halted stopped halted]
    rfl
  have idle : (stopped.run 0).interp clogged.handler (.ofInput [], .none) =
      (some (.ok 0, stopped), (.ofInput [], .none)) := by
    rw [run_of_halted 0 stopped halted]
    rfl
  have carried := CarriesAll.visit (.step clogged failed)
    (.visit (.step clogged refused) (.visit (.run clogged idle) (.done stopped)))
  obtain ⟨-, stops, -⟩ := only_halt_stops carried
  refine ⟨_, stopped, carried, rfl, halted, ?_⟩
  rcases stops.mp halted with already | fetched
  · cases already
  · exact fetched

end Machine

end LittleComputer
