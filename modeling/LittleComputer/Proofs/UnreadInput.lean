import LittleComputer.Proofs.Flushing
import LittleComputer.Proofs.ScriptedRun
import LittleComputer.Proofs.TwoRuns

/-!
# Input that is not read

A dialogue learns of a scripted console only what its reads tell it. As long as none of them
comes to the end of input, more input behind it makes no difference: the same is said, with the
same value, and the added bytes are left over. What was put out before and how often was flushed
makes no difference at all. GETC and IN read once each and nothing else reads, so a run that
executes no more of them than there are bytes never comes to the end of input.
-/

namespace LittleComputer

open ScriptedConsole (console)

/-- A read that found no byte left. -/
def Turn.AtEnd (turn : Turn Channel) : Prop := turn = ⟨.read, .ok none⟩

/-- The number of reads among some turns. -/
def readCount (turns : List (Turn Channel)) : Nat :=
  turns.countP fun turn => turn.kind? = some .read

theorem readCount_cons (turn : Turn Channel) (turns : List (Turn Channel)) :
    readCount (turn :: turns) = readCount turns + if turn.kind? = some .read then 1 else 0 := by
  simp only [readCount, List.countP_cons, decide_eq_true_eq]

@[simp] theorem readCount_append (first second : List (Turn Channel)) :
    readCount (first ++ second) = readCount first + readCount second := List.countP_append

@[simp] theorem readCount_filter_isCall (turns : List (Turn Channel)) :
    readCount (turns.filter Turn.isCall) = readCount turns := by
  rw [readCount, List.countP_filter]
  refine List.countP_congr fun turn _ => ?_
  simp only [Bool.and_eq_true, decide_eq_true_eq, and_iff_left_iff_imp]
  intro reads
  rw [Turn.isCall, reads]
  rfl

namespace ScriptedConsole

/-- Unless it reads at the end of input, a request gets the same answer with more input behind. -/
theorem handler_longer {r : Channel.Request} {c c' : ScriptedConsole} {rest : List Byte}
    (longer : c'.input = c.input ++ rest)
    (fed : ¬ Turn.AtEnd ⟨r, (console.handler r c).1⟩) :
    (console.handler r c').1 = (console.handler r c).1 ∧
      (console.handler r c').2.input = (console.handler r c).2.input ++ rest := by
  cases r with
  | note event => exact ⟨rfl, longer⟩
  | write byte => exact ⟨rfl, longer⟩
  | flush => exact ⟨rfl, longer⟩
  | read =>
    obtain ⟨input, output, flushes⟩ := c
    obtain ⟨input', output', flushes'⟩ := c'
    cases input with
    | nil => exact absurd rfl fed
    | cons byte left =>
      obtain rfl : input' = byte :: (left ++ rest) := longer
      exact ⟨rfl, rfl⟩

end ScriptedConsole

namespace Dialogue

variable {α : Type}

/-- With more input behind, a dialogue that never reads at the end of input goes as before. -/
theorem interp_longer (d : Dialogue Channel α) {c c' : ScriptedConsole} {rest : List Byte}
    (longer : c'.input = c.input ++ rest)
    (fed : ∀ turn ∈ d.turns console.handler c, ¬ turn.AtEnd) :
    (d.interp console.handler c').1 = (d.interp console.handler c).1 ∧
      d.turns console.handler c' = d.turns console.handler c ∧
      (d.interp console.handler c').2.input = (d.interp console.handler c).2.input ++ rest := by
  induction d generalizing c c' with
  | done value => exact ⟨rfl, rfl, longer⟩
  | ask r next ih =>
    rw [turns_ask] at fed
    obtain ⟨now, later⟩ := List.forall_mem_cons.mp fed
    obtain ⟨answer, left⟩ := ScriptedConsole.handler_longer longer now
    obtain ⟨value, said, input⟩ := ih _ left later
    rw [interp_ask, interp_ask, turns_ask, turns_ask, answer]
    exact ⟨value, congrArg _ said, input⟩

/-- A dialogue reads at the end of input if and only if it makes more reads than there are
bytes. -/
theorem never_atEnd_iff (d : Dialogue Channel α) (c : ScriptedConsole) :
    (∀ turn ∈ d.turns console.handler c, ¬ turn.AtEnd) ↔
      readCount (d.turns console.handler c) ≤ c.input.length := by
  induction d generalizing c with
  | done value =>
    constructor
    · exact fun _ => Nat.zero_le _
    · exact fun _ => nofun
  | ask r next ih =>
    rw [turns_ask, List.forall_mem_cons, readCount_cons, ih]
    cases r with
    | note event => exact and_iff_right nofun
    | write byte => exact and_iff_right nofun
    | flush => exact and_iff_right nofun
    | read =>
      obtain ⟨input, output, flushes⟩ := c
      cases input with
      | nil =>
        constructor
        · rintro ⟨now, -⟩
          exact absurd rfl now
        · exact fun none => absurd none (Nat.not_succ_le_zero _)
      | cons byte left =>
        have fed : ¬ Turn.AtEnd ⟨.read, .ok (some byte)⟩ := nofun
        exact (and_iff_right fed).trans (Nat.succ_le_succ_iff).symm

end Dialogue

namespace Conversation

variable {α β : Type} {times more : Nat}

/-- Console work that makes so many reads on every scripted console. -/
def Reads (times : Nat) (talk : Conversation α) : Prop :=
  ∀ c, ∃ result c', Ends talk c result c' ∧
    readCount (talk.run.turns console.handler c) = times

theorem reads_pure (result : α) : Reads 0 (pure result) := fun c => ⟨result, c, rfl, rfl⟩

theorem reads_bind {talk : Conversation α} {next : α → Conversation β} (first : Reads times talk)
    (rest : ∀ result, Reads more (next result)) : Reads (times + more) (talk >>= next) := by
  intro c
  obtain ⟨result, c', ends, count⟩ := first c
  obtain ⟨result', c'', ends', count'⟩ := rest result c'
  refine ⟨result', c'', ends_bind ends ends', ?_⟩
  rw [run_bind, Dialogue.turns_andThen, ends, readCount_append, count]
  exact congrArg (times + ·) count'

theorem reads_readByte : Reads 1 readByte := fun c => ⟨_, _, ends_readByte c, rfl⟩

theorem reads_writeByte (byte : Byte) : Reads 0 (writeByte byte) :=
  fun c => ⟨_, _, ends_writeByte byte c, rfl⟩

theorem reads_writeAll (bytes : List Byte) : Reads 0 (writeAll bytes) := by
  induction bytes with
  | nil => exact reads_pure ()
  | cons byte rest ih => exact reads_bind (reads_writeByte byte) fun _ => ih

theorem reads_flush : Reads 0 flush := fun c => ⟨_, _, ends_flush c, rfl⟩

theorem reads_report (event : Event) : Reads 0 (report event) :=
  fun c => ⟨_, _, ends_report event c, rfl⟩

end Conversation

namespace Machine

open Conversation in
/-- GETC and IN read once, and the other routines do not. -/
theorem reads_converse (m : Machine) (routine : Service) :
    Reads (if routine.reads then 1 else 0) (m.converse routine) := by
  cases routine with
  | getc => exact reads_bind reads_flush fun _ => reads_bind reads_readByte fun _ => reads_pure _
  | out => exact reads_bind (reads_writeByte _) fun _ => reads_pure _
  | puts => exact reads_bind (reads_writeAll _) fun _ => reads_pure _
  | input =>
    exact reads_bind (reads_writeAll _) fun _ =>
      reads_bind reads_flush fun _ =>
        reads_bind reads_readByte fun _ =>
          reads_bind (reads_writeAll _) fun _ => reads_pure _
  | putsp =>
    exact reads_bind (reads_writeAll _) fun _ => reads_bind reads_flush fun _ => reads_pure _
  | halt =>
    exact reads_bind reads_flush fun _ => reads_bind (reads_report _) fun _ => reads_pure _

theorem readCount_step {m : Machine} (running : m.state = .running) (c : ScriptedConsole) :
    readCount (m.step.turns console.handler c) = if m.nextInstruction.reads then 1 else 0 := by
  rw [← readCount_filter_isCall]
  cases h : m.nextInstruction.routine? with
  | none =>
    have silent : m.step.calls console.handler c = [] := (step_of_silent console c running h).2
    rw [Dialogue.calls] at silent
    rw [silent, Instruction.reads, h]
    rfl
  | some routine =>
    obtain ⟨c', calls, -⟩ := calls_step_of_routine console.handler running h c
    obtain ⟨result, c'', -, count⟩ := reads_converse m.advance routine c'
    rw [Dialogue.calls, Dialogue.calls] at calls
    simp [calls, count, Instruction.reads, h]

theorem readCount_transcript {p : Machine × ScriptedConsole} {k : Nat}
    (running : ∀ j < k, (course console.handler p j).1.state = .running) :
    readCount (transcript console.handler p k) = readsMade p k := by
  induction k with
  | zero => rfl
  | succ k ih =>
    simp [ih fun j lt => running j (Nat.lt_succ_of_lt lt),
      readCount_step (running k (Nat.lt_succ_self k))]

/-- What becomes of a machine with two consoles, the second with more input and with a past of its
own: the same machine, the same additions to what was put out, and all of the added input. -/
structure Alongside (c c' : ScriptedConsole) (rest : List Byte)
    (last last' : Machine × ScriptedConsole) : Prop where
  machine : last'.1 = last.1
  output : ∃ written, last.2.output.toList = c.output.toList ++ written ∧
    last'.2.output.toList = c'.output.toList ++ written
  flushes : ∃ made, last.2.flushes = c.flushes + made ∧ last'.2.flushes = c'.flushes + made
  input : last'.2.input = last.2.input ++ rest
  remaining : last'.2.remaining = last.2.remaining + rest.length

/-- A dialogue that never reads at the end of input leaves consoles that have moved alike. -/
theorem alongside_of_fed {α : Type} (d : Dialogue Channel α) {c c' : ScriptedConsole}
    {rest : List Byte} (longer : c'.input = c.input ++ rest)
    (fed : ∀ turn ∈ d.turns console.handler c, ¬ turn.AtEnd) (m : Machine) :
    Alongside c c' rest (m, (d.interp console.handler c).2)
      (m, (d.interp console.handler c').2) := by
  obtain ⟨-, said, input⟩ := d.interp_longer longer fed
  have moved := d.interp_state_eq_replay console.handler c
  have moved' := d.interp_state_eq_replay console.handler c'
  rw [said] at moved'
  refine ⟨rfl, ?_, ?_, input, ?_⟩
  · rw [moved, moved']
    exact ⟨_, c.output_replay _, c'.output_replay _⟩
  · rw [moved, moved']
    exact ⟨_, c.flushes_replay _, c'.flushes_replay _⟩
  · rw [ScriptedConsole.remaining, input, List.length_append]
    rfl

/-- Two runs of one machine on scripted consoles, the second with more input behind, and each with
any output and any flushes before. A bounded run answers, and it never reads at the end of input
exactly if it executes no more GETC and IN instructions than there are bytes; then the run with more
input is the same. So it is with an unbounded run that answers. -/
theorem unread_input (m : Machine) (input rest : List Byte) (output output' : Array Byte)
    (flushes flushes' : Nat) :
    let c : ScriptedConsole := ⟨input, output, flushes⟩
    let c' : ScriptedConsole := ⟨input ++ rest, output', flushes'⟩
    (∀ n : UInt64, ∃ count last,
      ReturnsWithin console.handler (m, c) n (.ok count) last ∧
      (m.runLimited n).turns console.handler c =
        transcript console.handler (m, c) count.toNat ∧
      ((∀ turn ∈ (m.runLimited n).turns console.handler c, ¬ turn.AtEnd) ↔
        readsMade (m, c) count.toNat ≤ input.length) ∧
      (readsMade (m, c) count.toNat ≤ input.length →
        ∃ last', ReturnsWithin console.handler (m, c') n (.ok count) last' ∧
          (m.runLimited n).turns console.handler c' = (m.runLimited n).turns console.handler c ∧
          Alongside c c' rest last last')) ∧
    ∀ fuel result last,
      (m.run fuel).interp console.handler c = (some (result, last.1), last.2) →
        ∃ k, result = .ok k.toUInt64 ∧
          (m.run fuel).turns console.handler c = transcript console.handler (m, c) k ∧
          ((∀ turn ∈ (m.run fuel).turns console.handler c, ¬ turn.AtEnd) ↔
            readsMade (m, c) k ≤ input.length) ∧
          (readsMade (m, c) k ≤ input.length →
            ∃ last', (m.run fuel).interp console.handler c' =
                (some (result, last'.1), last'.2) ∧
              (m.run fuel).turns console.handler c' = (m.run fuel).turns console.handler c ∧
              Alongside c c' rest last last') := by
  intro c c'
  have longer : c'.input = c.input ++ rest := rfl
  constructor
  · intro n
    obtain ⟨count, finishes, answer, turns⟩ := runLimited_scripted (m, c) n
    have made := readCount_transcript fun j lt => (finishes.lastsFor lt).2
    have enough := (m.runLimited n).never_atEnd_iff c
    rw [turns, made, ← turns] at enough
    refine ⟨count, _, answer, turns, enough, ?_⟩
    intro few
    have fed := enough.mpr few
    obtain ⟨value, said, -⟩ := (m.runLimited n).interp_longer longer fed
    have alongside := alongside_of_fed (m.runLimited n) longer fed
      (course console.handler (m, c) count.toNat).1
    rw [answer] at value alongside
    exact ⟨(_, ((m.runLimited n).interp console.handler c').2), Prod.ext value rfl, said, alongside⟩
  · rintro fuel result ⟨after, left⟩ answer
    obtain ⟨k, ⟨le, halts, counted, -⟩ | ⟨fault, -, fails, -⟩⟩ :=
      answer_cases (p := (m, c)) (q := (after, left)) answer
    · have turns := turns_run_of_haltsAfter halts le
      have made := readCount_transcript fun j lt => (halts.1.lastsFor lt).2
      have enough := (m.run fuel).never_atEnd_iff c
      rw [turns, made, ← turns] at enough
      refine ⟨k, counted, turns, enough, ?_⟩
      intro few
      have fed := enough.mpr few
      obtain ⟨value, said, -⟩ := (m.run fuel).interp_longer longer fed
      have alongside := alongside_of_fed (m.run fuel) longer fed after
      rw [answer] at value alongside
      exact ⟨(after, ((m.run fuel).interp console.handler c').2), Prod.ext value rfl, said,
        alongside⟩
    · exact absurd fails (not_failsAfter_scripted fault)

end Machine

end LittleComputer
