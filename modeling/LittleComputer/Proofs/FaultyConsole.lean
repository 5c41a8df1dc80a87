import LittleComputer.Console.Faulty
import LittleComputer.Proofs.Transcript

/-!
# Dialogues on a console with faults

A plan passes the turns of a dialogue if it has no fault for any of them. Then the dialogue
goes on the console behind the plan as it goes without the plan. At the first turn that the
plan does not pass, a careful dialogue ends: what it said before is what it says without the
plan, and the console behind the plan has been moved by that alone.
-/

namespace LittleComputer

open Channel (kind?)

namespace Attempts

/-- Count a request if it is a call. -/
def noting (made : Attempts) (r : Channel.Request) : Attempts := (kind? r).elim made made.record

/-- The calls made once some turns were taken as well. -/
def after (made : Attempts) (turns : List (Turn Channel)) : Attempts :=
  turns.foldl (fun made turn => made.noting turn.request) made

@[simp] theorem after_append (made : Attempts) (first second : List (Turn Channel)) :
    made.after (first ++ second) = (made.after first).after second := List.foldl_append

@[simp] theorem after_filter_isCall (made : Attempts) (turns : List (Turn Channel)) :
    made.after (turns.filter Turn.isCall) = made.after turns := by
  induction turns generalizing made with
  | nil => rfl
  | cons turn rest ih =>
    obtain ⟨r, answer⟩ := turn
    cases r with
    | note event => exact ih made
    | read => exact ih _
    | write byte => exact ih _
    | flush => exact ih _

theorem count_after (made : Attempts) (turns : List (Turn Channel)) (call : Call) :
    (made.after turns).count call =
      made.count call + turns.countP fun turn => turn.kind? = some call := by
  induction turns generalizing made with
  | nil => rfl
  | cons turn rest ih =>
    have later : made.after (turn :: rest) = (made.noting turn.request).after rest := rfl
    rw [later, ih, List.countP_cons, noting]
    cases h : kind? turn.request with
    | none => simp [Turn.kind?, h]
    | some other =>
      rw [Option.elim_some, count_record]
      by_cases same : other = call
      · simp only [Turn.kind?, h, same, if_true, decide_true]
        omega
      · simp [Turn.kind?, h, same]

end Attempts

namespace FaultPlan

/-- The fault that a plan has for a request, by the calls made before. -/
def faultFor (plan : FaultPlan) (made : Attempts) (r : Channel.Request) : Option IoError :=
  (kind? r).bind fun call => plan call (made.count call)

/-- A plan has no fault for any of these turns. -/
def Passes (plan : FaultPlan) : Attempts → List (Turn Channel) → Prop
  | _, [] => True
  | made, turn :: rest =>
    plan.faultFor made turn.request = none ∧ plan.Passes (made.noting turn.request) rest

variable {plan : FaultPlan} {made : Attempts}

@[simp] theorem passes_append {first second : List (Turn Channel)} :
    plan.Passes made (first ++ second) ↔
      plan.Passes made first ∧ plan.Passes (made.after first) second := by
  induction first generalizing made with
  | nil => exact ⟨fun h => ⟨trivial, h⟩, fun h => h.2⟩
  | cons turn rest ih =>
    exact (and_congr_right fun _ => ih).trans and_assoc.symm

@[simp] theorem passes_filter_isCall {turns : List (Turn Channel)} :
    plan.Passes made (turns.filter Turn.isCall) ↔ plan.Passes made turns := by
  induction turns generalizing made with
  | nil => exact Iff.rfl
  | cons turn rest ih =>
    obtain ⟨r, answer⟩ := turn
    cases r with
    | note event => exact ih.trans ⟨fun h => ⟨rfl, h⟩, fun h => h.2⟩
    | read => exact and_congr_right fun _ => ih
    | write byte => exact and_congr_right fun _ => ih
    | flush => exact and_congr_right fun _ => ih

theorem passes_of_prefix {first all : List (Turn Channel)} (h : plan.Passes made all)
    (le : first <+: all) : plan.Passes made first := by
  obtain ⟨rest, rfl⟩ := le
  exact (passes_append.mp h).1

/-- The turns that a plan does not pass begin with some that it passes, up to a refused one. -/
theorem exists_of_not_passes {turns : List (Turn Channel)} (h : ¬ plan.Passes made turns) :
    ∃ before turn rest fault, turns = before ++ turn :: rest ∧ plan.Passes made before ∧
      plan.faultFor (made.after before) turn.request = some fault := by
  induction turns generalizing made with
  | nil => exact absurd trivial h
  | cons turn rest ih =>
    cases found : plan.faultFor made turn.request with
    | some fault => exact ⟨[], turn, rest, fault, rfl, trivial, found⟩
    | none =>
      have later : ¬ plan.Passes (made.noting turn.request) rest := fun passed => h ⟨found, passed⟩
      obtain ⟨before, last, left, fault, split, passed, refused⟩ := ih later
      exact ⟨turn :: before, last, left, fault, congrArg _ split, ⟨found, passed⟩, refused⟩

/-- The first of some calls that a plan has a fault for, by its number among its kind. -/
structure FirstFault (plan : FaultPlan) (calls before : List (Turn Channel))
    (call : Turn Channel) (fault : IoError) : Prop where
  among : ∃ later, calls = before ++ call :: later
  passed : plan.Passes .none before
  refused : ∃ kind, call.kind? = some kind ∧
    plan kind (before.countP fun turn => turn.kind? = some kind) = some fault

theorem isCall_of_faultFor {turn : Turn Channel} {fault : IoError}
    (h : plan.faultFor made turn.request = some fault) : turn.isCall = true := by
  rw [Turn.isCall, Turn.kind?]
  cases call : kind? turn.request with
  | none =>
    rw [faultFor, call] at h
    cases h
  | some call => rfl

theorem firstFault_filter_isCall {turns before later : List (Turn Channel)}
    {turn : Turn Channel} {fault : IoError} (split : turns = before ++ turn :: later)
    (passed : plan.Passes .none before)
    (refused : plan.faultFor (Attempts.none.after before) turn.request = some fault) :
    plan.FirstFault (turns.filter Turn.isCall) (before.filter Turn.isCall) turn fault := by
  refine ⟨⟨later.filter Turn.isCall, ?_⟩, passes_filter_isCall.mpr passed, ?_⟩
  · rw [split, List.filter_append, List.filter_cons_of_pos (isCall_of_faultFor refused)]
  · obtain ⟨kind, found, planned⟩ := Option.bind_eq_some_iff.mp refused
    have none : Attempts.none.count kind = 0 := by cases kind <;> rfl
    rw [← Attempts.after_filter_isCall, Attempts.count_after, none, Nat.zero_add] at planned
    exact ⟨kind, found, planned⟩

end FaultPlan

namespace Console

variable {σ α : Type} {console : Console σ} {plan : FaultPlan} {made : Attempts} {state : σ}

/-- A request that a plan passes reaches the console behind it. -/
theorem handler_faulty_of_none {r : Channel.Request} (h : plan.faultFor made r = none) :
    (console.faulty plan).handler r (state, made) =
      ((console.handler r state).1, (console.handler r state).2, made.noting r) := by
  cases r with
  | note event => rfl
  | read => exact FaultPlan.guarded_of_none h _ _
  | write byte => exact FaultPlan.guarded_of_none h _ _
  | flush => exact FaultPlan.guarded_of_none h _ _

/-- A request that a plan refuses does not reach the console behind it. -/
theorem handler_faulty_of_some {r : Channel.Request} {fault : IoError}
    (h : plan.faultFor made r = some fault) :
    (console.faulty plan).handler r (state, made) =
      (Channel.refusal r fault, state, made.noting r) := by
  cases r with
  | note event => cases h
  | read => exact FaultPlan.guarded_of_some h _ _
  | write byte => exact FaultPlan.guarded_of_some h _ _
  | flush => exact FaultPlan.guarded_of_some h _ _

end Console

namespace Dialogue

variable {σ α : Type} {console : Console σ} {plan : FaultPlan} {made : Attempts} {state : σ}

/-- A dialogue whose turns are passed goes as it goes without the plan. -/
theorem interp_faulty_of_passes (d : Dialogue Channel α)
    (h : plan.Passes made (d.turns console.handler state)) :
    d.interp (console.faulty plan).handler (state, made) =
        ((d.interp console.handler state).1, (d.interp console.handler state).2,
          made.after (d.turns console.handler state)) ∧
      d.turns (console.faulty plan).handler (state, made) = d.turns console.handler state := by
  induction d generalizing state made with
  | done value => exact ⟨rfl, rfl⟩
  | ask r next ih =>
    obtain ⟨now, later⟩ := h
    obtain ⟨same, said⟩ := ih _ later
    simp only [interp_ask, turns_ask, Console.handler_faulty_of_none now]
    exact ⟨same, congrArg _ said⟩

/-- A careful dialogue ends at the first turn that is not passed. -/
theorem Careful.interp_faulty_of_refused {atFault : IoError → α} {Good : α → Prop}
    {d : Dialogue Channel α} (careful : Careful atFault Good d)
    {before rest : List (Turn Channel)} {turn : Turn Channel} {fault : IoError}
    (said : d.turns console.handler state = before ++ turn :: rest)
    (passed : plan.Passes made before)
    (refused : plan.faultFor (made.after before) turn.request = some fault) :
    d.interp (console.faulty plan).handler (state, made) =
        (atFault fault, console.handler.replay state before, made.after (before ++ [turn])) ∧
      d.turns (console.faulty plan).handler (state, made) =
        before ++ [⟨turn.request, Channel.refusal turn.request fault⟩] := by
  induction careful generalizing state made before with
  | done good => simp at said
  | @ask r next ends answered ih =>
    rw [turns_ask] at said
    rw [interp_ask, turns_ask]
    cases before with
    | nil =>
      obtain ⟨rfl, -⟩ := List.cons.inj said
      have now : plan.faultFor made r = some fault := refused
      obtain ⟨call, kind⟩ := Option.isSome_iff_exists.mp (FaultPlan.isCall_of_faultFor refused)
      have ended := ends _ fault (Channel.fault?_refusal kind fault)
      rw [Console.handler_faulty_of_some now, ended]
      exact ⟨rfl, rfl⟩
    | cons first before =>
      obtain ⟨rfl, tail⟩ := List.cons.inj said
      obtain ⟨now, later⟩ := passed
      rw [Console.handler_faulty_of_none now]
      cases plain : Channel.fault? r (console.handler r state).1 with
      | some own =>
        rw [ends _ own plain, turns_done] at tail
        simp at tail
      | none =>
        obtain ⟨same, spoken⟩ := ih _ plain tail later refused
        exact ⟨same, congrArg _ spoken⟩

end Dialogue

end LittleComputer
