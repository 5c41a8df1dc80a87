import LittleComputer.CommandLine.Session
import LittleComputer.Proofs.DumpReading
import LittleComputer.Proofs.Halting
import LittleComputer.Proofs.ImageLoading

/-!
# How a session ends

A session has four parts, each of which can end it: the image is loaded, the loaded machine is
dumped, it is run, and it is dumped again. The status tells which part failed. Whatever files,
console and output there are, everything that was written before is whole, no instruction is
executed unless the first dump is out, and a run ends with the machine stopped or at its limit,
or with a refused call of a service word; never with a machine that was not running.
-/

namespace LittleComputer

namespace Machine

variable {σ : Type} {console : Console σ} {p : Machine × σ} {k : Nat} {fault : IoError}

/-- The last fetch of a run that is refused a call is a service word, PC has moved past it, and
the refused call is the last one. -/
theorem last_of_failsAfter (h : FailsAfter console.handler p k fault) :
    ∃ before fetch calls refused,
      fetches (transcript console.handler p (k + 1)) = before ++ [fetch] ∧
      fetch.word.toNat / 4096 = 15 ∧
      (course console.handler p (k + 1)).1.regs.pc = fetch.address + 1 ∧
      transcript console.handler p (k + 1) = calls ++ [refused] ∧
      refused.fault? = some fault := by
  have always : ∀ j < k + 1, (course console.handler p j).1.state = .running :=
    fun j lt => (h.endsAfter.lasts j lt).2
  have running := h.running
  have failed := h.2
  rw [resultAt] at failed
  have service : (course console.handler p k).1.nextWord.toNat / 4096 = 15 := by
    cases called : (course console.handler p k).1.nextInstruction.routine? with
    | some routine =>
      exact (Instruction.decode_eq_trap_iff.mp (Instruction.routine?_eq_some_iff.mp called)).1
    | none =>
      -- Without a routine the step would have finished.
      rw [(step_of_silent console _ running called).1] at failed
      cases failed
  rcases (careful_step running).outcome console.handler (course console.handler p k).2 with
    ⟨⟨word, -, value⟩, -⟩ | ⟨earlier, refused, other, said, last, -, value⟩
  · rw [value] at failed
    cases failed
  · rw [value] at failed
    cases failed
    have fetched := fetches_transcript always
    rw [List.range_succ, List.map_append, List.map_singleton] at fetched
    have moved : (course console.handler p (k + 1)).1 = (course console.handler p k).1.entered := by
      simp [stepped, value]
    have whole : transcript console.handler p (k + 1) = _ := transcript_succ
    rw [said, ← List.append_assoc] at whole
    exact ⟨_, _, _, refused, fetched, service, by rw [moved]; rfl, whole, last⟩

end Machine

namespace Session

open CommandLine (Options)

/-- The surroundings of a session: a console with what was said on it, a bounded writer for the
dumps, and the lines told. -/
structure Desk (σ : Type) where
  console : σ
  said : List (Turn Channel)
  out : BoundedWriter
  told : List String

namespace Desk

variable {σ : Type}

/-- The desk before a session, with a console and some room for the dumps. -/
def opening (console : σ) (room : Option Nat) : Desk σ := ⟨console, [], ⟨.empty, room⟩, []⟩

/-- The console calls that were made. -/
def calls (desk : Desk σ) : List (Turn Channel) := desk.said.filter Turn.isCall

/-- Answer the requests of a session, given what files hold, a console and a rule for flushing. -/
def handler (files : String → Except FileError (Array Byte)) (console : Handler Channel σ)
    (flush : BoundedWriter → Except IoError Unit) : Handler Session (Desk σ)
  | .contents path, desk => (files path, desk)
  | .machine r, desk =>
    match console r desk.console with
    | (answer, state) =>
      (answer, { desk with console := state, said := desk.said ++ [⟨r, answer⟩] })
  | .output r, desk =>
    match BoundedWriter.flushingBy flush r desk.out with
    | (answer, writer) => (answer, { desk with out := writer })
  | .complain line, desk => ((), { desk with told := desk.told ++ [line] })

end Desk

section
variable {α σ : Type} (files : String → Except FileError (Array Byte))
  (console : Handler Channel σ) (flush : BoundedWriter → Except IoError Unit) (desk : Desk σ)

/-- The machine talks to the console alone. -/
theorem interp_onChannel (work : Dialogue Channel α) :
    (onChannel work).interp (Desk.handler files console flush) desk =
      ((work.interp console desk.console).1,
        { desk with
          console := (work.interp console desk.console).2
          said := desk.said ++ work.turns console desk.console }) := by
  induction work generalizing desk with
  | done value => simp [onChannel]
  | ask r next ih =>
    simp only [onChannel] at ih
    simp [onChannel, Desk.handler, ih]

/-- Writing concerns the writer alone. -/
theorem interp_onOutput (work : Output.Writing α) :
    (onOutput work).interp (Desk.handler files console flush) desk =
      ((work.run.interp (BoundedWriter.flushingBy flush) desk.out).1,
        { desk with
          out := (work.run.interp (BoundedWriter.flushingBy flush) desk.out).2 }) := by
  have relayed (work : Dialogue Output (Except IoError α)) (desk : Desk σ) :
      (work.relay (T := Session) fun r => .ask (.output r) .done).interp
          (Desk.handler files console flush) desk =
        ((work.interp (BoundedWriter.flushingBy flush) desk.out).1,
          { desk with out := (work.interp (BoundedWriter.flushingBy flush) desk.out).2 }) := by
    induction work generalizing desk with
    | done value => rfl
    | ask r next ih => exact ih _ _
  exact relayed work.run desk

/-- What a dump that could not be written is told with. -/
def dumpLine (fault : IoError) : String := "❌ Failed to write dump: " ++ fault.message

theorem interp_dump (m : Machine) (stage : Dump.Stage) (format : Dump.Format) :
    (dump m stage format).interp (Desk.handler files console flush) desk =
      match desk.out.fault? flush (Dump.bytes m stage format) with
      | none => (.ok (), { desk with out := desk.out.filled (Dump.bytes m stage format) })
      | some fault =>
        (.error .unavailable,
          { desk with
            out := desk.out.filled (Dump.bytes m stage format)
            told := desk.told ++ [dumpLine fault] }) := by
  have written : (Dump.write m stage format >>= fun _ => Output.flush).run.interp
      (BoundedWriter.flushingBy flush) desk.out =
        ((desk.out.fault? flush (Dump.bytes m stage format)).elim (.ok ()) .error,
          desk.out.filled (Dump.bytes m stage format)) := by
    rw [Dump.bytes_eq]
    exact BoundedWriter.interp_putAll_flush _ _ _
  rw [dump, Dialogue.bind_eq_andThen, Dialogue.interp_andThen, interp_onOutput, written]
  cases desk.out.fault? flush (Dump.bytes m stage format) <;> rfl

/-- The bytes of the dump right after loading. -/
def openingDump (options : Options) (m : Machine) : ByteArray :=
  Dump.bytes m .afterLoad options.dump

/-- The bytes of the dump after the run. -/
def closingDump (options : Options) (m : Machine) : ByteArray :=
  Dump.bytes m (if m.state = .halted then .afterHalt else .stopped) options.dump

/-- A writer with some room that was given the dump right after loading. -/
def opened (room : Option Nat) (options : Options) (m : Machine) : BoundedWriter :=
  .filled ⟨.empty, room⟩ (openingDump options m)

theorem closingDump_eq (options : Options) (m : Machine) :
    closingDump options m = Dump.bytes m (.afterRun m) options.dump := by
  rw [closingDump, Dump.Stage.afterRun, Machine.isHalted]
  cases m.state <;> rfl

/-- What is told of a machine that a limit has stopped. -/
def notice (options : Options) (m : Machine) : List String :=
  if m.state = .running then [limitLine options] else []

/-- The end of a session after a run that was not refused a call. -/
theorem interp_conclude (options : Options) (count : UInt64) (m : Machine) :
    (conclude options (.ok count, m)).interp (Desk.handler files console flush) desk =
      match desk.out.fault? flush (closingDump options m) with
      | none => (.success,
          { desk with
            out := desk.out.filled (closingDump options m)
            told := desk.told ++ notice options m })
      | some fault => (.unavailable,
          { desk with
            out := desk.out.filled (closingDump options m)
            told := desk.told ++ notice options m ++ [dumpLine fault] }) := by
  cases state : m.state with
  | running =>
    have going : m.isRunning = true := by rw [Machine.isRunning, state]; rfl
    have told : notice options m = [limitLine options] := if_pos state
    rw [conclude, if_pos going, told, Dialogue.bind_eq_andThen, Dialogue.interp_andThen]
    show Dialogue.interp _ ((dump m (.afterRun m) options.dump).andThen _)
      { desk with told := desk.told ++ [limitLine options] } = _
    rw [Dialogue.interp_andThen, interp_dump, ← closingDump_eq]
    cases desk.out.fault? flush (closingDump options m) <;> rfl
  | halted =>
    have ended : ¬ m.isRunning = true := by rw [Machine.isRunning, state]; nofun
    have told : notice options m = [] := if_neg (by rw [state]; nofun)
    rw [conclude, if_neg ended, told, List.append_nil, Dialogue.bind_eq_andThen,
      Dialogue.interp_andThen, interp_dump, ← closingDump_eq]
    cases desk.out.fault? flush (closingDump options m) <;> rfl

end

section
variable {σ : Type} (files : String → Except FileError (Array Byte)) (console : Console σ)
  (flush : BoundedWriter → Except IoError Unit) (state : σ) (room : Option Nat)
  (options : Options) (fuel : Nat)

/-- The notes of loading the image. -/
def notes : List (Turn Channel) :=
  (Image.load .initial options.image (files options.image)).turns console.handler state

/-- Loading the image makes no console call. -/
theorem load_asks_no_call : Dialogue.Asks (fun r => Channel.kind? r = none)
    (Image.load .initial options.image (files options.image)) :=
  Image.asks_load _ _ _ (fun _ => rfl) (fun _ _ => rfl) fun _ _ => rfl

theorem calls_notes : (notes files console state options).filter Turn.isCall = [] :=
  (load_asks_no_call files options).calls_eq_nil console.handler state

theorem fetches_notes : fetches (notes files console state options) = [] := by
  have asks : Dialogue.Asks (fun r => Channel.fetch? r = none)
      (Image.load .initial options.image (files options.image)) :=
    Image.asks_load _ _ _ (fun _ => rfl) (fun _ _ => rfl) fun _ _ => rfl
  exact List.filterMap_eq_nil_iff.mpr (asks.of_mem_turns console.handler state)

/-- The desk once the image has been read. -/
def Desk.loaded : Desk σ :=
  { Desk.opening state room with said := notes files console state options }

/-- The desk once the first dump has been tried. -/
def Desk.dumped (m : Machine) : Desk σ :=
  { Desk.loaded files console state room options with
    out := opened room options m }

/-- The desk once the machine has been run. -/
def Desk.executed (m : Machine) : Desk σ :=
  { Desk.dumped files console state room options m with
    console := ((execute options fuel m).interp console.handler state).2
    said := notes files console state options ++
      (execute options fuel m).turns console.handler state }

/-- What follows the loading of the image begins with what loading gave. -/
theorem interp_onChannel_load {β : Type}
    (next : Except ImageError Nat × Machine → Dialogue Session β) :
    ((onChannel (Image.load .initial options.image (files options.image))).andThen next).interp
        (Desk.handler files console.handler flush) (.opening state room) =
      (next (Image.outcome .initial options.image (files options.image))).interp
        (Desk.handler files console.handler flush)
        (.loaded files console state room options) := by
  rw [Dialogue.interp_andThen, interp_onChannel, Image.interp_load,
    (load_asks_no_call files options).interp_state]
  rfl

variable {files console flush state room options fuel}

/-- What an image that could not be loaded is told with. -/
def imageLine (failure : ImageError) : String := "❌ Cannot load image: " ++ failure.message

theorem interp_run_of_unloaded {failure : ImageError} {m : Machine}
    (h : Image.outcome .initial options.image (files options.image) = (.error failure, m)) :
    (run options fuel).interp (Desk.handler files console.handler flush) (.opening state room) =
      (some .unavailable,
        { Desk.loaded files console state room options with told := [imageLine failure] }) := by
  rw [run, Dialogue.bind_eq_andThen, Dialogue.interp_andThen]
  refine (interp_onChannel_load files console flush state room options _).trans ?_
  rw [h]
  rfl

section
variable {count : Nat} {m : Machine}
  (h : Image.outcome .initial options.image (files options.image) = (.ok count, m))

include h

/-- A loaded machine is dumped, and executed only if the dump is out. -/
theorem interp_run_of_loaded :
    (run options fuel).interp (Desk.handler files console.handler flush) (.opening state room) =
      match BoundedWriter.fault? flush ⟨.empty, room⟩ (openingDump options m) with
      | some fault => (some .unavailable,
          { Desk.dumped files console state room options m with told := [dumpLine fault] })
      | none =>
        (onChannel (execute options fuel m) >>= fun
            | none => return none
            | some outcome => some <$> conclude options outcome).interp
          (Desk.handler files console.handler flush)
          (.dumped files console state room options m) := by
  rw [run, Dialogue.bind_eq_andThen, Dialogue.interp_andThen]
  refine (interp_onChannel_load files console flush state room options _).trans ?_
  rw [h]
  show Dialogue.interp _ ((dump m .afterLoad options.dump).andThen _) _ = _
  have out : (Desk.loaded files console state room options).out = ⟨.empty, room⟩ := rfl
  rw [Dialogue.interp_andThen, interp_dump, out, ← openingDump]
  cases BoundedWriter.fault? flush ⟨.empty, room⟩ (openingDump options m) <;> rfl

variable (written : BoundedWriter.fault? flush ⟨.empty, room⟩ (openingDump options m) = none)

include written

theorem interp_run_of_answer {outcome : Except StepError UInt64 × Machine}
    (answers : ((execute options fuel m).interp console.handler state).1 = some outcome) :
    (run options fuel).interp (Desk.handler files console.handler flush) (.opening state room) =
      (some <$> conclude options outcome).interp (Desk.handler files console.handler flush)
        (.executed files console state room options fuel m) := by
  have begins : (Desk.dumped files console state room options m).console = state := rfl
  rw [interp_run_of_loaded h, written]
  simp only [Dialogue.bind_eq_andThen, Dialogue.interp_andThen, interp_onChannel, begins, answers]
  rfl

theorem interp_run_of_no_answer
    (silent : ((execute options fuel m).interp console.handler state).1 = none) :
    (run options fuel).interp (Desk.handler files console.handler flush) (.opening state room) =
      (none, .executed files console state room options fuel m) := by
  have begins : (Desk.dumped files console state room options m).console = state := rfl
  rw [interp_run_of_loaded h, written]
  simp only [Dialogue.bind_eq_andThen, Dialogue.interp_andThen, interp_onChannel, begins, silent]
  rfl

end

end

/-- How the run of a machine ends, with its limit if there is one. -/
def Ran {σ : Type} (console : Console σ) (state : σ) (options : Options) (fuel : Nat) (m : Machine)
    (result : Except StepError UInt64) (after : Machine) : Prop :=
  match options.maxSteps with
  | some maximum => ((m.runLimited maximum).interp console.handler state).1 = (result, after)
  | none => ((m.run fuel).interp console.handler state).1 = some (result, after)

section
variable {σ : Type} {console : Console σ} {state : σ} {options : Options} {fuel : Nat} {m : Machine}

theorem ran_iff {result : Except StepError UInt64} {after : Machine} :
    Ran console state options fuel m result after ↔
      ((execute options fuel m).interp console.handler state).1 = some (result, after) := by
  rw [Ran, execute]
  cases options.maxSteps with
  | some maximum =>
    rw [Dialogue.interp_map]
    exact Option.some_inj.symm
  | none => exact Iff.rfl

/-- Without a limit a run that answers has stopped its machine. -/
theorem isSome_maxSteps_of_running {count : UInt64} {after : Machine}
    (h : Ran console state options fuel m (.ok count) after) (running : after.state = .running) :
    options.maxSteps.isSome = true := by
  rw [Ran] at h
  cases limit : options.maxSteps with
  | some maximum => rfl
  | none =>
    rw [limit] at h
    obtain ⟨-, -, -, -, stopped⟩ := Machine.exists_endsAfter_run (p := (m, state))
      (q := (after, _)) (Prod.ext h rfl)
    rw [stopped count rfl] at running
    cases running

theorem failsAfter_of_ran {failure : StepError} {after : Machine}
    (h : Ran console state options fuel m (.error failure) after) :
    ∃ k fault, Machine.FailsAfter console.handler (m, state) k fault ∧
      failure = .console fault ∧
      after = (Machine.course console.handler (m, state) (k + 1)).1 ∧
      (execute options fuel m).turns console.handler state =
        Machine.transcript console.handler (m, state) (k + 1) := by
  rw [Ran] at h
  rw [execute]
  cases limit : options.maxSteps with
  | some maximum =>
    rw [limit] at h
    obtain ⟨k, fault, fails, cause, last, said⟩ := Machine.failsAfter_of_returnsWithin
      (p := (m, state)) (q := (after, _)) (Prod.ext h rfl)
    refine ⟨k, fault, fails, cause, congrArg Prod.fst last, ?_⟩
    exact (Dialogue.turns_map _ _ _ _).trans said
  | none =>
    rw [limit] at h
    obtain ⟨k, ⟨-, -, result, -⟩ | ⟨fault, short, fails, result, last⟩⟩ := Machine.answer_cases
      (p := (m, state)) (q := (after, _)) (Prod.ext h rfl)
    · cases result
    · exact ⟨k, fault, fails, Except.error.inj result, congrArg Prod.fst last,
        Machine.turns_run_of_failsAfter fails short⟩

theorem maxSteps_eq_none (h : ∀ result after, ¬ Ran console state options fuel m result after) :
    options.maxSteps = none := by
  cases limit : options.maxSteps with
  | none => rfl
  | some maximum =>
    have answers : Ran console state options fuel m
        ((m.runLimited maximum).interp console.handler state).1.1
        ((m.runLimited maximum).interp console.handler state).1.2 := by
      rw [Ran, limit]
    exact absurd answers (h _ _)

/-- What a session tells of a run that was refused a call: the word that made the call was the
last one fetched, it is a service word, and PC is told as the address behind it. -/
def TellsRefusal {σ : Type} (desk : Desk σ) (failure : StepError) (after : Machine) : Prop :=
  ∃ fault before fetch, failure = .console fault ∧
    desk.calls.getLast?.bind Turn.fault? = some fault ∧
    fetches desk.said = before ++ [fetch] ∧ fetch.word.toNat / 4096 = 15 ∧
    after.regs.pc = fetch.address + 1 ∧
    desk.told = ["❌ CPU error at PC=x" ++ Numeral.hexWord (fetch.address + 1) ++ ": " ++
      failure.message]

theorem failureLine_of_pc {m : Machine} {failure : StepError} {address : Word}
    (h : m.regs.pc = address) : failureLine m failure =
      "❌ CPU error at PC=x" ++ Numeral.hexWord address ++ ": " ++ failure.message := by
  subst h
  rfl

theorem tellsRefusal_of_ran {files : String → Except FileError (Array Byte)} {desk : Desk σ}
    {failure : StepError} {after : Machine}
    (h : Ran console state options fuel m (.error failure) after)
    (said : desk.said = notes files console state options ++
      (execute options fuel m).turns console.handler state)
    (told : desk.told = [failureLine after failure]) : TellsRefusal desk failure after := by
  obtain ⟨k, fault, fails, rfl, rfl, turns⟩ := failsAfter_of_ran h
  obtain ⟨before, fetch, calls, refused, fetched, service, pc, last, cause⟩ :=
    Machine.last_of_failsAfter fails
  rw [turns] at said
  refine ⟨fault, before, fetch, rfl, ?_, ?_, service, pc, ?_⟩
  · have called : refused.isCall = true := Turn.isCall_of_fault cause
    rw [Desk.calls, said, last, ← List.append_assoc, List.filter_append,
      List.filter_cons_of_pos called, List.filter_nil, List.getLast?_concat]
    exact cause
  · rw [said, fetches_append, fetches_notes, List.nil_append, fetched]
  · exact told.trans (congrArg (fun line => [line]) (failureLine_of_pc pc))

end

/-- The status of a session accounts for what became of it, whatever the files, the console and the
output are. An image that cannot be loaded ends the session at once, as does a first dump that
cannot be written and flushed. A run that is refused a call leaves it at that dump; any other is
followed by the second dump. Without a limit the run may have no end, and then there is no status.
-/
theorem run_account {σ : Type} (files : String → Except FileError (Array Byte))
    (console : Console σ) (state : σ) (flush : BoundedWriter → Except IoError Unit)
    (room : Option Nat) (options : Options) (fuel : Nat) :
    ∃ answer desk, (run options fuel).interp (Desk.handler files console.handler flush)
        (.opening state room) = (answer, desk) ∧
      (∀ failure m,
        ((Image.load .initial options.image (files options.image)).interp console.handler state).1 =
            (.error failure, m) →
          answer.map Status.code = some 1 ∧ desk.out.taken = .empty ∧ desk.calls = [] ∧
            desk.told = [imageLine failure]) ∧
      ∀ count m,
        ((Image.load .initial options.image (files options.image)).interp console.handler state).1 =
            (.ok count, m) →
          (∀ fault,
            BoundedWriter.fault? flush ⟨.empty, room⟩ (openingDump options m) = some fault →
              answer.map Status.code = some 1 ∧ desk.calls = [] ∧ fetches desk.said = [] ∧
                desk.told = [dumpLine fault]) ∧
          (BoundedWriter.fault? flush ⟨.empty, room⟩ (openingDump options m) = none →
            (∀ failure after, Ran console state options fuel m (.error failure) after →
              answer.map Status.code = some 2 ∧ desk.out.taken = openingDump options m ∧
                TellsRefusal desk failure after) ∧
            (∀ made after, Ran console state options fuel m (.ok made) after →
              (after.state = .running → options.maxSteps.isSome = true) ∧
              ((opened room options m).fault? flush (closingDump options after) = none →
                answer.map Status.code = some 0 ∧
                  desk.out.taken = openingDump options m ++ closingDump options after ∧
                  desk.told = notice options after) ∧
              ∀ fault,
                (opened room options m).fault? flush (closingDump options after) = some fault →
                  answer.map Status.code = some 1 ∧
                    desk.out = (opened room options m).filled (closingDump options after) ∧
                    desk.told = notice options after ++ [dumpLine fault]) ∧
            ((∀ result after, ¬ Ran console state options fuel m result after) →
              answer = none ∧ options.maxSteps = none)) := by
  generalize held : (run options fuel).interp (Desk.handler files console.handler flush)
    (.opening state room) = final
  obtain ⟨answer, desk⟩ := final
  refine ⟨answer, desk, rfl, ?_, ?_⟩
  · intro failure m h
    rw [Image.interp_load] at h
    rw [interp_run_of_unloaded h] at held
    obtain ⟨rfl, rfl⟩ := Prod.mk.inj held
    exact ⟨rfl, rfl, calls_notes files console state options, rfl⟩
  · intro count m h
    rw [Image.interp_load] at h
    refine ⟨?_, ?_⟩
    · intro fault refused
      rw [interp_run_of_loaded h, refused] at held
      obtain ⟨rfl, rfl⟩ := Prod.mk.inj held
      exact ⟨rfl, calls_notes files console state options,
        fetches_notes files console state options, rfl⟩
    · intro written
      have whole := BoundedWriter.taken_filled (BoundedWriter.fits_of_fault? written)
      rw [ByteArray.empty_append] at whole
      refine ⟨?_, ?_, ?_⟩
      · intro failure after ran
        rw [interp_run_of_answer h written (ran_iff.mp ran)] at held
        obtain ⟨rfl, rfl⟩ := Prod.mk.inj held
        exact ⟨rfl, whole, tellsRefusal_of_ran ran rfl rfl⟩
      · intro made after ran
        have out : (Desk.executed files console state room options fuel m).out =
          opened room options m := rfl
        rw [interp_run_of_answer h written (ran_iff.mp ran), Dialogue.interp_map, interp_conclude,
          out] at held
        refine ⟨isSome_maxSteps_of_running ran, ?_, ?_⟩
        · intro closed
          rw [closed] at held
          obtain ⟨rfl, rfl⟩ := Prod.mk.inj held
          have both := BoundedWriter.taken_filled (BoundedWriter.fits_of_fault? closed)
          rw [opened, whole] at both
          exact ⟨rfl, both, rfl⟩
        · intro fault refused
          rw [refused] at held
          obtain ⟨rfl, rfl⟩ := Prod.mk.inj held
          exact ⟨rfl, rfl, rfl⟩
      · intro silent
        have none : ((execute options fuel m).interp console.handler state).1 = none := by
          rw [Option.eq_none_iff_forall_ne_some]
          rintro ⟨result, after⟩ answers
          exact silent result after (ran_iff.mpr answers)
        rw [interp_run_of_no_answer h written none] at held
        exact ⟨(Prod.mk.inj held).1.symm, maxSteps_eq_none silent⟩

end Session

end LittleComputer
