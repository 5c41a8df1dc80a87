import LittleComputer.Console.Scripted
import LittleComputer.Proofs.FaultyConsole
import LittleComputer.Proofs.Run

/-!
# A run with faults beside a run without

A machine on a console with faults goes the same course as without them, as long as the plan
passes what is said. The step in which the plan first refuses a call is its last one: it leaves
the machine that entered the instruction, and a console moved by the calls before. So a bounded
run with faults is a run without, up to the first refused call.
-/

namespace LittleComputer

namespace Machine

variable {σ : Type} {console : Console σ} {plan : FaultPlan} {made : Attempts}
  {p : Machine × σ} {k : Nat}

/-- A course that is passed is the course without the plan. -/
theorem course_faulty (passed : plan.Passes made (transcript console.handler p k)) :
    course (console.faulty plan).handler (p.1, p.2, made) k =
        ((course console.handler p k).1, (course console.handler p k).2,
          made.after (transcript console.handler p k)) ∧
      transcript (console.faulty plan).handler (p.1, p.2, made) k =
        transcript console.handler p k := by
  induction k with
  | zero => exact ⟨rfl, rfl⟩
  | succ k ih =>
    rw [transcript_succ, FaultPlan.passes_append] at passed
    obtain ⟨same, said⟩ := ih passed.1
    obtain ⟨value, spoken⟩ := Dialogue.interp_faulty_of_passes _ passed.2
    simp only [course_succ, transcript_succ, same, stepped, value, said, spoken,
      Attempts.after_append, and_self]

theorem resultAt_faulty (passed : plan.Passes made (transcript console.handler p (k + 1))) :
    resultAt (console.faulty plan).handler (p.1, p.2, made) k = resultAt console.handler p k := by
  rw [transcript_succ, FaultPlan.passes_append] at passed
  rw [resultAt, (course_faulty passed.1).1, (Dialogue.interp_faulty_of_passes _ passed.2).1]
  rfl

theorem Finishes.faulty (h : Finishes console.handler p k)
    (passed : plan.Passes made (transcript console.handler p k)) :
    Finishes (console.faulty plan).handler (p.1, p.2, made) k := by
  intro j lt
  rw [resultAt_faulty (FaultPlan.passes_of_prefix passed (transcript_le lt))]
  exact h j lt

/-- Where a plan first refuses a call: in which step, and after which turns of it. -/
structure FirstRefusal (console : Console σ) (plan : FaultPlan) (made : Attempts)
    (p : Machine × σ) (k : Nat) (within : List (Turn Channel)) (turn : Turn Channel)
    (fault : IoError) : Prop where
  lasts : LastsFor console.handler p k
  said : ∃ rest, (course console.handler p k).1.step.turns console.handler
    (course console.handler p k).2 = within ++ turn :: rest
  passed : plan.Passes made (transcript console.handler p k ++ within)
  refused : plan.faultFor (made.after (transcript console.handler p k ++ within)) turn.request =
    some fault

/-- A course that is not passed has a first refusal. -/
theorem exists_firstRefusal (lasts : ∀ j < k, LastsFor console.handler p j)
    (h : ¬ plan.Passes made (transcript console.handler p k)) :
    ∃ j, j < k ∧ ∃ within turn fault, FirstRefusal console plan made p j within turn fault := by
  induction k with
  | zero => exact absurd trivial h
  | succ k ih =>
    by_cases passed : plan.Passes made (transcript console.handler p k)
    · rw [transcript_succ, FaultPlan.passes_append, not_and] at h
      obtain ⟨within, turn, rest, fault, said, spoken, refused⟩ :=
        FaultPlan.exists_of_not_passes (h passed)
      rw [← Attempts.after_append] at refused
      exact ⟨k, Nat.lt_succ_self k, within, turn, fault, lasts k (Nat.lt_succ_self k),
        ⟨rest, said⟩, FaultPlan.passes_append.mpr ⟨passed, spoken⟩, refused⟩
    · obtain ⟨j, lt, first⟩ := ih (fun j lt => lasts j (Nat.lt_succ_of_lt lt)) passed
      exact ⟨j, Nat.lt_succ_of_lt lt, first⟩

namespace FirstRefusal

variable {within : List (Turn Channel)} {turn : Turn Channel} {fault : IoError}

/-- The step of the refusal, on the console with faults. -/
theorem step (h : FirstRefusal console plan made p k within turn fault) :
    resultAt (console.faulty plan).handler (p.1, p.2, made) k = .error (.console fault) ∧
      course (console.faulty plan).handler (p.1, p.2, made) (k + 1) =
        ((Machine.course console.handler p k).1.entered,
          console.handler.replay p.2 (transcript console.handler p k ++ within),
          made.after (transcript console.handler p k ++ within ++ [turn])) ∧
      transcript (console.faulty plan).handler (p.1, p.2, made) (k + 1) =
        transcript console.handler p k ++ within ++
          [⟨turn.request, Channel.refusal turn.request fault⟩] := by
  obtain ⟨rest, said⟩ := h.said
  obtain ⟨before, passed⟩ := FaultPlan.passes_append.mp h.passed
  have refused := h.refused
  rw [Attempts.after_append] at refused
  obtain ⟨same, spoken⟩ := course_faulty before
  obtain ⟨value, last⟩ :=
    (careful_step h.lasts.2).interp_faulty_of_refused said passed refused
  refine ⟨?_, ?_, ?_⟩
  · rw [resultAt, same, value]
  · rw [course_succ, same, stepped, value, Handler.replay_append, ← course_state_eq_replay,
      List.append_assoc, Attempts.after_append made]
  · simp [spoken, same, last]

theorem failsAfter (h : FirstRefusal console plan made p k within turn fault) :
    FailsAfter (console.faulty plan).handler (p.1, p.2, made) k fault :=
  ⟨h.lasts.1.faulty (FaultPlan.passes_append.mp h.passed).1, h.step.1⟩

theorem transcript (h : FirstRefusal console plan made p k within turn fault) {n : Nat}
    (lt : k < n) :
    ∃ later, Machine.transcript console.handler p n =
      Machine.transcript console.handler p k ++ within ++ turn :: later := by
  obtain ⟨rest, said⟩ := h.said
  have start : Machine.transcript console.handler p (k + 1) <+:
      Machine.transcript console.handler p n := transcript_le lt
  obtain ⟨more, whole⟩ := start
  refine ⟨rest ++ more, ?_⟩
  rw [← whole, transcript_succ, said]
  simp only [List.append_assoc, List.cons_append]

/-- A bounded run with faults ends at the first refusal that it comes to. -/
theorem runLimited {n : UInt64} (h : FirstRefusal console plan made p k within turn fault)
    (lt : k < p.1.allowance n) :
    ReturnsWithin (console.faulty plan).handler (p.1, p.2, made) n (.error (.console fault))
        ((course console.handler p k).1.entered,
          console.handler.replay p.2 (Machine.transcript console.handler p k ++ within),
          made.after (Machine.transcript console.handler p k ++ within ++ [turn])) ∧
      (p.1.runLimited n).turns (console.faulty plan).handler (p.2, made) =
        Machine.transcript console.handler p k ++ within ++
          [⟨turn.request, Channel.refusal turn.request fault⟩] := by
  obtain ⟨-, last, said⟩ := h.step
  have answer := runLimited_of_failsAfter h.failsAfter lt
  rw [last] at answer
  exact ⟨answer, (turns_runLimited_of_failsAfter h.failsAfter lt).trans said⟩

/-- The unrefused run comes to the step of the refusal as well. -/
theorem runLimited_before {n : UInt64} (h : FirstRefusal console plan made p k within turn fault)
    (lt : k < p.1.allowance n) :
    k.toUInt64 < n ∧
      ReturnsWithin console.handler p k.toUInt64 (.ok k.toUInt64) (course console.handler p k) ∧
      (p.1.runLimited k.toUInt64).turns console.handler p.2 =
        Machine.transcript console.handler p k := by
  have room := p.1.allowance_room n
  have below := p.1.allowance_le n
  have small : k.toUInt64.toNat = k :=
    UInt64.toNat_ofNat_of_lt' (Nat.lt_trans (Nat.lt_of_lt_of_le lt below) n.toNat_lt)
  have lasts := h.lasts
  rw [← small] at lasts
  have answer := runLimited_of_lastsFor lasts (by omega)
  have said := turns_runLimited_of_lastsFor lasts (by omega)
  rw [small] at answer said
  exact ⟨UInt64.lt_iff_toNat_lt.mpr (by omega), answer, said⟩

end FirstRefusal

/-- After `k` instructions a run has come to a machine whose next instruction makes a call, and
these are the calls before it. -/
structure MakesCall (console : Console σ) (p : Machine × σ) (k : UInt64) (r : Machine × σ)
    (before : List (Turn Channel)) (call : Turn Channel) : Prop where
  returns : ReturnsWithin console.handler p k (.ok k) r
  running : r.1.state = .running
  calls : ∃ within rest, before = (p.1.runLimited k).calls console.handler p.2 ++ within ∧
    r.1.step.calls console.handler r.2 = within ++ call :: rest

theorem FirstRefusal.makesCall {within : List (Turn Channel)} {turn : Turn Channel}
    {fault : IoError} {n : UInt64}
    (h : FirstRefusal console plan made p k within turn fault) (lt : k < p.1.allowance n) :
    MakesCall console p k.toUInt64 (course console.handler p k)
      ((Machine.transcript console.handler p k ++ within).filter Turn.isCall) turn := by
  obtain ⟨-, returns, turns⟩ := h.runLimited_before lt
  obtain ⟨rest, said⟩ := h.said
  refine ⟨returns, h.lasts.2, within.filter Turn.isCall, rest.filter Turn.isCall, ?_, ?_⟩
  · rw [Dialogue.calls, turns, List.filter_append]
  · rw [Dialogue.calls, said, List.filter_append,
      List.filter_cons_of_pos (FaultPlan.isCall_of_faultFor h.refused)]

/-- A bounded run that is not passed comes to a first refusal. -/
theorem exists_refusal (p : Machine × σ) {n : UInt64}
    (h : ¬ plan.Passes made ((p.1.runLimited n).calls console.handler p.2)) :
    ∃ k within call fault later, k < p.1.allowance n ∧
      FirstRefusal console plan made p k within call fault ∧
      (p.1.runLimited n).turns console.handler p.2 =
        transcript console.handler p k ++ within ++ call :: later := by
  obtain ⟨last, fits, said, lasts⟩ := exists_turns_runLimited console.handler p n
  rw [Dialogue.calls, FaultPlan.passes_filter_isCall, said] at h
  obtain ⟨k, lt, within, call, fault, first⟩ := exists_firstRefusal lasts h
  obtain ⟨later, split⟩ := first.transcript lt
  exact ⟨k, within, call, fault, later, Nat.lt_of_lt_of_le lt fits, first, said.trans split⟩

theorem entered_eq (m : Machine) :
    m.entered =
      { m with
        regs := m.regs.jump (m.regs.pc + 1)
        state := if m.nextInstruction = .trap 0x25 then .halted else m.state } := by
  have halts : m.nextInstruction.routine? = some .halt ↔ m.nextInstruction = .trap 0x25 :=
    Instruction.routine?_eq_some_iff
  simp only [entered, halts]
  rfl

end Machine

namespace ScriptedConsole

variable (c : ScriptedConsole) (turns later : List (Turn Channel))

/-- The bytes that some turns write. -/
def bytesWritten (turns : List (Turn Channel)) : List Byte :=
  turns.filterMap fun turn => match turn.request with
    | .write byte => some byte
    | .read | .flush | .note _ => none

theorem output_replay :
    (console.handler.replay c turns).output.toList = c.output.toList ++ bytesWritten turns := by
  induction turns generalizing c with
  | nil => exact (List.append_nil _).symm
  | cons turn rest ih =>
    obtain ⟨r, answer⟩ := turn
    refine (ih (console.handler r c).2).trans ?_
    cases r with
    | note event => rfl
    | flush => rfl
    | write byte =>
      have pushed : (c.output.push byte).toList = c.output.toList ++ [byte] := Array.toList_push
      exact (congrArg (· ++ bytesWritten rest) pushed).trans (List.append_assoc _ _ _)
    | read =>
      obtain ⟨left, out, count⟩ := c
      cases left with
      | nil => rfl
      | cons byte left => rfl

theorem input_replay :
    ∃ consumed, c.input = consumed ++ (console.handler.replay c turns).input := by
  induction turns generalizing c with
  | nil => exact ⟨[], rfl⟩
  | cons turn rest ih =>
    obtain ⟨r, answer⟩ := turn
    obtain ⟨consumed, input⟩ := ih (console.handler r c).2
    cases r with
    | note event => exact ⟨consumed, input⟩
    | flush => exact ⟨consumed, input⟩
    | write byte => exact ⟨consumed, input⟩
    | read =>
      obtain ⟨left, out, count⟩ := c
      cases left with
      | nil => exact ⟨consumed, input⟩
      | cons byte left => exact ⟨byte :: consumed, congrArg (byte :: ·) input⟩

theorem flushes_replay :
    (console.handler.replay c turns).flushes =
      c.flushes + turns.countP fun turn => turn.kind? = some .flush := by
  induction turns generalizing c with
  | nil => rfl
  | cons turn rest ih =>
    obtain ⟨r, answer⟩ := turn
    refine (ih (console.handler r c).2).trans ?_
    rw [List.countP_cons]
    cases r with
    | note event => rfl
    | write byte => rfl
    | flush =>
      simp only [console, Console.handler, flush, Turn.kind?, Channel.kind?, decide_true, if_true]
      omega
    | read =>
      obtain ⟨left, out, count⟩ := c
      cases left with
      | nil => rfl
      | cons byte left => rfl

/-- A console after some turns, beside the same console after more of them. -/
theorem replay_le :
    (console.handler.replay c turns).output.toList <+:
        (console.handler.replay c (turns ++ later)).output.toList ∧
      (∃ consumed more, c.input = consumed ++ (console.handler.replay c turns).input ∧
        (console.handler.replay c turns).input =
          more ++ (console.handler.replay c (turns ++ later)).input) ∧
      (console.handler.replay c turns).flushes =
        c.flushes + turns.countP fun turn => turn.kind? = some .flush := by
  obtain ⟨consumed, input⟩ := c.input_replay turns
  obtain ⟨more, left⟩ := (console.handler.replay c turns).input_replay later
  have output := (console.handler.replay c turns).output_replay later
  rw [Handler.replay_append]
  exact ⟨⟨bytesWritten later, output.symm⟩, ⟨consumed, more, input, left⟩, c.flushes_replay turns⟩

end ScriptedConsole

namespace Machine

open ScriptedConsole (console)

/-- Two bounded runs of one machine, without and with a plan of faults. If the plan passes the
calls of the first run, the second one is the same. Otherwise the second one ends at the first
refused call, with the machine that entered the instruction of that call. -/
theorem two_runs (plan : FaultPlan) (m : Machine) (c : ScriptedConsole) (n : UInt64) :
    ∃ result last, ReturnsWithin console.handler (m, c) n result last ∧
      (plan.Passes .none ((m.runLimited n).calls console.handler c) →
        ∃ made, ReturnsWithin (console.faulty plan).handler (m, c, .none) n
          result (last.1, last.2, made)) ∧
      (¬ plan.Passes .none ((m.runLimited n).calls console.handler c) →
        ∃ before call fault k r after c' made,
          plan.FirstFault ((m.runLimited n).calls console.handler c) before call fault ∧
          k < n ∧ MakesCall console (m, c) k r before call ∧
          ReturnsWithin (console.faulty plan).handler (m, c, .none) n
            (.error (.console fault)) (after, c', made) ∧
          (m.runLimited n).calls (console.faulty plan).handler (c, .none) =
            before ++ [⟨call.request, Channel.refusal call.request fault⟩] ∧
          after =
            { r.1 with
              regs := r.1.regs.jump (r.1.regs.pc + 1)
              state := if r.1.nextInstruction = .trap 0x25 then .halted else r.1.state } ∧
          c' = console.handler.replay c before ∧
          c'.output.toList <+: last.2.output.toList ∧
          (∃ consumed more, c.input = consumed ++ c'.input ∧ c'.input = more ++ last.2.input) ∧
          c'.flushes = c.flushes + before.countP fun turn => turn.kind? = some .flush) := by
  refine ⟨_, (_, _), rfl, ?_, ?_⟩
  · intro passed
    rw [Dialogue.calls, FaultPlan.passes_filter_isCall] at passed
    exact ⟨_, (Dialogue.interp_faulty_of_passes _ passed).1⟩
  · intro refused
    obtain ⟨k, within, call, fault, later, lt, first, said⟩ := exists_refusal (m, c) refused
    obtain ⟨sooner, -⟩ := first.runLimited_before lt
    obtain ⟨returns, spoken⟩ := first.runLimited lt
    have moved := Dialogue.replay_filter_isCall console c
      (transcript console.handler (m, c) k ++ within)
    have final : ((m.runLimited n).interp console.handler c).2 = console.handler.replay c
        ((transcript console.handler (m, c) k ++ within).filter Turn.isCall ++ call :: later) := by
      rw [Dialogue.interp_state_eq_replay, said, Handler.replay_append, ← moved,
        ← Handler.replay_append]
    obtain ⟨output, input, flushes⟩ := c.replay_le
      ((transcript console.handler (m, c) k ++ within).filter Turn.isCall) (call :: later)
    rw [← final, moved] at output input
    rw [moved] at flushes
    refine ⟨_, call, fault, k.toUInt64, _, _, _, _, ?_, sooner, first.makesCall lt, returns, ?_,
      entered_eq _, moved.symm, output, input, flushes⟩
    · rw [Dialogue.calls, said]
      exact FaultPlan.firstFault_filter_isCall rfl first.passed first.refused
    · have called : Turn.isCall ⟨call.request, Channel.refusal call.request fault⟩ = true :=
        FaultPlan.isCall_of_faultFor first.refused
      rw [Dialogue.calls, spoken, List.filter_append, List.filter_cons_of_pos called]
      rfl

end Machine

end LittleComputer
