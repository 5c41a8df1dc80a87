/-!
# Dialogues

A computation that talks to its surroundings, as a tree: it is done with a value, or it asks a
request and goes on with the answer. The tree says nothing about who answers, so a law about
dialogues holds for every console, also for one that refuses. Interpreting a dialogue by a
handler with a state gives its value and the last state.
-/

namespace LittleComputer

/-- Requests and the type of their answers. -/
structure Signature where
  Request : Type
  Answer : Request → Type

/-- A computation that asks requests of a signature. -/
inductive Dialogue (S : Signature) (α : Type) where
  | done (value : α)
  | ask (request : S.Request) (next : S.Answer request → Dialogue S α)

/-- Who answers the requests of a signature, with a state. -/
abbrev Handler (S : Signature) (σ : Type) : Type := (request : S.Request) → σ → S.Answer request × σ

namespace Dialogue

variable {S T : Signature} {α β γ σ : Type}

/-- Go on with the value of a dialogue. -/
def andThen : Dialogue S α → (α → Dialogue S β) → Dialogue S β
  | .done value, f => f value
  | .ask r next, f => .ask r fun answer => (next answer).andThen f

instance : Monad (Dialogue S) where
  pure := .done
  bind := andThen

/-- The value of a dialogue and the last state of its handler. -/
def interp (handler : Handler S σ) : Dialogue S α → σ → α × σ
  | .done value, state => (value, state)
  | .ask r next, state =>
    match handler r state with
    | (answer, state) => (next answer).interp handler state

/-- The same dialogue with its requests posed in another signature. -/
def relay (embed : (r : S.Request) → Dialogue T (S.Answer r)) : Dialogue S α → Dialogue T α
  | .done value => .done value
  | .ask r next => (embed r).andThen fun answer => (next answer).relay embed

@[simp] theorem pure_eq_done (value : α) : (pure value : Dialogue S α) = .done value := rfl

@[simp] theorem bind_eq_andThen (d : Dialogue S α) (f : α → Dialogue S β) :
    (d >>= f) = d.andThen f := rfl

@[simp] theorem done_andThen (value : α) (f : α → Dialogue S β) :
    (done value).andThen f = f value := rfl

@[simp] theorem ask_andThen (r : S.Request) (next : S.Answer r → Dialogue S α)
    (f : α → Dialogue S β) :
    (ask r next).andThen f = .ask r fun answer => (next answer).andThen f := rfl

@[simp] theorem andThen_done (d : Dialogue S α) : d.andThen .done = d := by
  induction d with
  | done value => rfl
  | ask r next ih => exact congrArg (ask r) (funext ih)

@[simp] theorem andThen_assoc (d : Dialogue S α) (f : α → Dialogue S β) (g : β → Dialogue S γ) :
    (d.andThen f).andThen g = d.andThen fun value => (f value).andThen g := by
  induction d with
  | done value => rfl
  | ask r next ih => exact congrArg (ask r) (funext ih)

instance : LawfulMonad (Dialogue S) :=
  .mk' _ (fun d => andThen_done d) (fun _ _ => rfl) andThen_assoc

@[simp] theorem interp_done (handler : Handler S σ) (value : α) (state : σ) :
    (done value).interp handler state = (value, state) := rfl

@[simp] theorem interp_ask (handler : Handler S σ) (r : S.Request)
    (next : S.Answer r → Dialogue S α) (state : σ) :
    (ask r next).interp handler state =
      (next (handler r state).1).interp handler (handler r state).2 := rfl

@[simp] theorem interp_andThen (handler : Handler S σ) (d : Dialogue S α) (f : α → Dialogue S β)
    (state : σ) :
    (d.andThen f).interp handler state =
      (f (d.interp handler state).1).interp handler (d.interp handler state).2 := by
  induction d generalizing state with
  | done value => rfl
  | ask r next ih => exact ih (handler r state).1 (handler r state).2

@[simp] theorem interp_map (handler : Handler S σ) (f : α → β) (d : Dialogue S α) (state : σ) :
    (f <$> d).interp handler state =
      (f (d.interp handler state).1, (d.interp handler state).2) :=
  interp_andThen handler d (fun value => .done (f value)) state

@[simp] theorem relay_done (embed : (r : S.Request) → Dialogue T (S.Answer r)) (value : α) :
    (done value).relay embed = .done value := rfl

@[simp] theorem relay_ask (embed : (r : S.Request) → Dialogue T (S.Answer r)) (r : S.Request)
    (next : S.Answer r → Dialogue S α) :
    (ask r next).relay embed =
      (embed r).andThen fun answer => (next answer).relay embed := rfl

end Dialogue

end LittleComputer
