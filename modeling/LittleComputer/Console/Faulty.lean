import LittleComputer.Console.Basic

/-!
# Consoles with faults

A console whose calls fail by a plan. The plan sees the kind of a call and how many calls of
that kind were made before, refused ones included. A call that the plan fails does not reach
the console behind it; any other call does.
-/

namespace LittleComputer

/-- The fault of a call, by its kind and its number among the calls of that kind. -/
abbrev FaultPlan : Type := Call → Nat → Option IoError

/-- How many calls of each kind were made. -/
structure Attempts where
  reads : Nat
  writes : Nat
  flushes : Nat
  deriving DecidableEq

namespace Attempts

def none : Attempts := ⟨0, 0, 0⟩

def count (made : Attempts) : Call → Nat
  | .read => made.reads
  | .write => made.writes
  | .flush => made.flushes

/-- Count one more call. -/
def record (made : Attempts) : Call → Attempts
  | .read => { made with reads := made.reads + 1 }
  | .write => { made with writes := made.writes + 1 }
  | .flush => { made with flushes := made.flushes + 1 }

theorem count_record (made : Attempts) (a b : Call) :
    (made.record a).count b = if a = b then made.count b + 1 else made.count b := by
  cases a <;> cases b <;> simp [record, count]

end Attempts

namespace FaultPlan

/-- The plan that refuses every call of a kind from a given number on, if one is given. -/
def refusingFrom (first : Call → Option Nat) : FaultPlan := fun call number =>
  match first call with
  | some start => if start ≤ number then some (.refused call) else none
  | none => none

def refusing (call : Call) : FaultPlan := refusingFrom fun c => if c = call then some 0 else none

/-- Pass a call on unless the plan fails it. -/
def guarded {σ α : Type} (plan : FaultPlan) (call : Call) (act : σ → Except IoError α × σ) :
    σ × Attempts → Except IoError α × (σ × Attempts)
  | (state, made) =>
    match plan call (made.count call) with
    | some fault => (.error fault, state, made.record call)
    | none =>
      match act state with
      | (answer, state) => (answer, state, made.record call)

end FaultPlan

/-- A console behind a plan of faults. -/
def Console.faulty {σ : Type} (console : Console σ) (plan : FaultPlan) :
    Console (σ × Attempts) where
  read := plan.guarded .read console.read
  write byte := plan.guarded .write (console.write byte)
  flush := plan.guarded .flush console.flush

section
variable {σ α : Type} {plan : FaultPlan} {call : Call} {made : Attempts}

theorem FaultPlan.guarded_of_none (h : plan call (made.count call) = none)
    (act : σ → Except IoError α × σ) (state : σ) :
    plan.guarded call act (state, made) = ((act state).1, (act state).2, made.record call) := by
  simp only [guarded, h]

theorem FaultPlan.guarded_of_some {fault : IoError} (h : plan call (made.count call) = some fault)
    (act : σ → Except IoError α × σ) (state : σ) :
    plan.guarded call act (state, made) = (.error fault, state, made.record call) := by
  simp only [guarded, h]

end

end LittleComputer
