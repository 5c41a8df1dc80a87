import LittleComputer.Console.Basic

/-!
# What was said in a dialogue

The turns of a dialogue are its requests with the answers they got, in order. A turn that is
no note is a console call. A dialogue is careful if a refused call ends it at once, with a
value that only the fault decides. Who wants to know the turns of a long dialogue can let its
handler keep a record: a law for every handler is then a law about turns as well.
-/

namespace LittleComputer

/-- A request with its answer. -/
structure Turn (S : Signature) where
  request : S.Request
  answer : S.Answer request

/-- A handler that also records the turns. -/
def Handler.recording {S : Signature} {σ : Type} (handler : Handler S σ) :
    Handler S (σ × List (Turn S)) := fun r kept =>
  ((handler r kept.1).1, (handler r kept.1).2, kept.2 ++ [⟨r, (handler r kept.1).1⟩])

/-- The state of a handler after the requests of some turns. -/
def Handler.replay {S : Signature} {σ : Type} (handler : Handler S σ) (state : σ)
    (turns : List (Turn S)) : σ :=
  turns.foldl (fun state turn => (handler turn.request state).2) state

@[simp] theorem Handler.replay_append {S : Signature} {σ : Type} (handler : Handler S σ) (state : σ)
    (first second : List (Turn S)) :
    handler.replay state (first ++ second) =
      handler.replay (handler.replay state first) second := List.foldl_append

namespace Dialogue

variable {S : Signature} {α β σ : Type}

/-- The turns of a dialogue. -/
def turns (handler : Handler S σ) : Dialogue S α → σ → List (Turn S)
  | .done _, _ => []
  | .ask r next, state =>
    ⟨r, (handler r state).1⟩ :: (next (handler r state).1).turns handler (handler r state).2

@[simp] theorem turns_done (handler : Handler S σ) (value : α) (state : σ) :
    (done value).turns handler state = [] := rfl

@[simp] theorem turns_ask (handler : Handler S σ) (r : S.Request) (next : S.Answer r → Dialogue S α)
    (state : σ) :
    (ask r next).turns handler state = ⟨r, (handler r state).1⟩ ::
      (next (handler r state).1).turns handler (handler r state).2 := rfl

@[simp] theorem turns_andThen (handler : Handler S σ) (d : Dialogue S α) (f : α → Dialogue S β)
    (state : σ) :
    (d.andThen f).turns handler state = d.turns handler state ++
      (f (d.interp handler state).1).turns handler (d.interp handler state).2 := by
  induction d generalizing state with
  | done value => rfl
  | ask r next ih =>
    simp [ih]

@[simp] theorem turns_map (handler : Handler S σ) (f : α → β) (d : Dialogue S α) (state : σ) :
    (f <$> d).turns handler state = d.turns handler state :=
  (turns_andThen handler d (fun value => .done (f value)) state).trans (List.append_nil _)

@[simp] theorem interp_recording (handler : Handler S σ) (d : Dialogue S α) (state : σ)
    (before : List (Turn S)) :
    d.interp handler.recording (state, before) =
      ((d.interp handler state).1, (d.interp handler state).2,
        before ++ d.turns handler state) := by
  induction d generalizing state before with
  | done value => simp
  | ask r next ih =>
    rw [interp_ask, interp_ask, turns_ask]
    exact (ih _ _ _).trans (by simp [Handler.recording])

theorem interp_state_eq_replay (handler : Handler S σ) (d : Dialogue S α) (state : σ) :
    (d.interp handler state).2 = handler.replay state (d.turns handler state) := by
  induction d generalizing state with
  | done value => rfl
  | ask r next ih => exact ih _ _

end Dialogue

namespace Dialogue

variable {S : Signature} {α β σ : Type} {P : S.Request → Prop}

/-- All requests of a dialogue, whatever the answers, have a property. -/
inductive Asks (P : S.Request → Prop) : Dialogue S α → Prop where
  | done (value : α) : Asks P (.done value)
  | ask {r : S.Request} {next : S.Answer r → Dialogue S α} (now : P r)
      (later : ∀ answer, Asks P (next answer)) : Asks P (.ask r next)

theorem Asks.andThen {d : Dialogue S α} {f : α → Dialogue S β} (asks : Asks P d)
    (goes : ∀ value, Asks P (f value)) : Asks P (d.andThen f) := by
  induction asks with
  | done value => exact goes value
  | ask now later ih => exact .ask now ih

theorem Asks.of_mem_turns {d : Dialogue S α} (asks : Asks P d) (handler : Handler S σ) (state : σ) :
    ∀ turn ∈ d.turns handler state, P turn.request := by
  induction asks generalizing state with
  | done value => exact fun turn mem => nomatch mem
  | ask now later ih => exact List.forall_mem_cons.mpr ⟨now, ih _ _⟩

end Dialogue

namespace Channel

/-- The console call of a request; a note is none. -/
def kind? : Request → Option Call
  | .read => some .read
  | .write _ => some .write
  | .flush => some .flush
  | .note _ => none

/-- The fault that an answer reports. -/
def fault? : (r : Request) → Answer r → Option IoError
  | .read, .error fault | .write _, .error fault | .flush, .error fault => some fault
  | .read, .ok _ | .write _, .ok _ | .flush, .ok _ | .note _, _ => none

/-- The answer that refuses a request; a note cannot be refused. -/
def refusal : (r : Request) → IoError → Answer r
  | .read, fault | .write _, fault | .flush, fault => .error fault
  | .note _, _ => ()

theorem fault?_refusal {r : Request} {call : Call} (h : kind? r = some call) (fault : IoError) :
    fault? r (refusal r fault) = some fault := by
  cases r with
  | note event => cases h
  | read => rfl
  | write byte => rfl
  | flush => rfl

end Channel

namespace Turn

/-- The console call of a turn; a note is none. -/
def kind? (turn : Turn Channel) : Option Call := Channel.kind? turn.request

/-- The fault that a turn ended with. -/
def fault? (turn : Turn Channel) : Option IoError := Channel.fault? turn.request turn.answer

/-- Whether a turn is a console call. -/
def isCall (turn : Turn Channel) : Bool := turn.kind?.isSome

theorem isCall_of_fault {turn : Turn Channel} {fault : IoError} (h : turn.fault? = some fault) :
    turn.isCall = true := by
  obtain ⟨r, answer⟩ := turn
  cases r with
  | note event => cases h
  | read => rfl
  | write byte => rfl
  | flush => rfl

end Turn

namespace Dialogue

variable {α β σ : Type}

/-- The console calls of a dialogue. -/
def calls (handler : Handler Channel σ) (d : Dialogue Channel α) (state : σ) :
    List (Turn Channel) := (d.turns handler state).filter Turn.isCall

/-- A console is moved by its calls alone. -/
theorem replay_filter_isCall (console : Console σ) (state : σ) (turns : List (Turn Channel)) :
    console.handler.replay state (turns.filter Turn.isCall) =
      console.handler.replay state turns := by
  induction turns generalizing state with
  | nil => rfl
  | cons turn rest ih =>
    obtain ⟨r, answer⟩ := turn
    cases r with
    | note event => exact ih state
    | read => exact ih _
    | write byte => exact ih _
    | flush => exact ih _

theorem Asks.calls_eq_nil {d : Dialogue Channel α}
    (asks : Asks (fun r => Channel.kind? r = none) d) (handler : Handler Channel σ) (state : σ) :
    d.calls handler state = [] := by
  rw [calls, List.filter_eq_nil_iff]
  intro turn mem call
  rw [Turn.isCall, Turn.kind?, asks.of_mem_turns handler state turn mem] at call
  cases call

/-- Notes do not move a console. -/
theorem Asks.interp_state {d : Dialogue Channel α}
    (asks : Asks (fun r => Channel.kind? r = none) d) (console : Console σ) (state : σ) :
    (d.interp console.handler state).2 = state := by
  have silent : (d.turns console.handler state).filter Turn.isCall = [] :=
    asks.calls_eq_nil console.handler state
  rw [interp_state_eq_replay, ← replay_filter_isCall, silent]
  rfl

/-- A dialogue that ends with a good value, unless a call is refused: then it ends at once,
with the value of the fault. -/
inductive Careful (atFault : IoError → α) (Good : α → Prop) : Dialogue Channel α → Prop where
  | done {value : α} (good : Good value) : Careful atFault Good (.done value)
  | ask {r : Channel.Request} {next : Channel.Answer r → Dialogue Channel α}
      (refused : ∀ answer fault, Channel.fault? r answer = some fault →
        next answer = .done (atFault fault))
      (answered : ∀ answer, Channel.fault? r answer = none →
        Careful atFault Good (next answer)) :
      Careful atFault Good (.ask r next)

namespace Careful

variable {atFault : IoError → α} {Good : α → Prop} {atFault' : IoError → β} {Good' : β → Prop}

theorem andThen {d : Dialogue Channel α} {f : α → Dialogue Channel β}
    (careful : Careful atFault Good d) (ends : ∀ fault, f (atFault fault) = .done (atFault' fault))
    (goes : ∀ value, Good value → Careful atFault' Good' (f value)) :
    Careful atFault' Good' (d.andThen f) := by
  induction careful with
  | done good => exact goes _ good
  | ask refused answered ih =>
    refine .ask ?_ ih
    intro answer fault h
    simp [refused answer fault h, ends]

/-- Two ways to go on are the same if they agree on faults and on good values. -/
theorem andThen_congr {d : Dialogue Channel α} {f g : α → Dialogue Channel β}
    (careful : Careful atFault Good d) (ends : ∀ fault, f (atFault fault) = g (atFault fault))
    (goes : ∀ value, Good value → f value = g value) : d.andThen f = d.andThen g := by
  induction careful with
  | done good => exact goes _ good
  | @ask r next refused answered ih =>
    rw [ask_andThen, ask_andThen]
    congr 1
    funext answer
    cases h : Channel.fault? r answer with
    | some fault => simp [refused answer fault h, ends]
    | none => exact ih answer h

/-- Either no call was refused and the value is good, or only the last turn was refused and
the value is the one of its fault. -/
theorem outcome {d : Dialogue Channel α} (careful : Careful atFault Good d)
    (handler : Handler Channel σ) (state : σ) :
    (Good (d.interp handler state).1 ∧ ∀ turn ∈ d.turns handler state, turn.fault? = none) ∨
    ∃ before refused fault, d.turns handler state = before ++ [refused] ∧
      refused.fault? = some fault ∧ (∀ turn ∈ before, turn.fault? = none) ∧
      (d.interp handler state).1 = atFault fault := by
  induction careful generalizing state with
  | done good => exact Or.inl ⟨good, by simp⟩
  | @ask r next refused answered ih =>
    rw [turns_ask, interp_ask]
    cases h : Channel.fault? r (handler r state).1 with
    | some fault =>
      refine Or.inr ⟨[], ⟨r, (handler r state).1⟩, fault, ?_, h, by simp, ?_⟩
      · simp [refused _ fault h]
      · simp [refused _ fault h]
    | none =>
      rcases ih _ h (handler r state).2 with ⟨good, quiet⟩ | ⟨before, last, fault, ht, hf, hq, hv⟩
      · exact Or.inl ⟨good, List.forall_mem_cons.mpr ⟨h, quiet⟩⟩
      · refine Or.inr ⟨⟨r, (handler r state).1⟩ :: before, last, fault, ?_, hf, ?_, hv⟩
        · rw [ht, List.cons_append]
        · exact List.forall_mem_cons.mpr ⟨h, hq⟩

/-- The same about the calls alone. -/
theorem calls_outcome {d : Dialogue Channel α} (careful : Careful atFault Good d)
    (handler : Handler Channel σ) (state : σ) :
    (Good (d.interp handler state).1 ∧ ∀ turn ∈ d.calls handler state, turn.fault? = none) ∨
    ∃ before refused fault, d.calls handler state = before ++ [refused] ∧
      refused.fault? = some fault ∧ (∀ turn ∈ before, turn.fault? = none) ∧
      (d.interp handler state).1 = atFault fault := by
  rcases careful.outcome handler state with ⟨good, quiet⟩ | ⟨before, last, fault, ht, hf, hq, hv⟩
  · refine Or.inl ⟨good, ?_⟩
    intro turn h
    exact quiet turn (List.mem_filter.mp h).1
  · refine Or.inr ⟨before.filter Turn.isCall, last, fault, ?_, hf, ?_, hv⟩
    · rw [calls, ht, List.filter_append]
      exact congrArg _ (List.filter_cons_of_pos (Turn.isCall_of_fault hf))
    · intro turn h
      exact hq turn (List.mem_filter.mp h).1

end Careful

end Dialogue

namespace Conversation

variable {α β : Type}

/-- Console work that ends at the first refused call, and otherwise with a good result. -/
def Careful (Good : α → Prop) (talk : Conversation α) : Prop :=
  Dialogue.Careful Except.error (fun outcome => ∃ result, outcome = .ok result ∧ Good result)
    talk.run

theorem careful_pure {Good : α → Prop} {result : α} (good : Good result) :
    Careful Good (pure result) := .done ⟨result, rfl, good⟩

theorem careful_bind {Good : α → Prop} {Good' : β → Prop} {talk : Conversation α}
    {next : α → Conversation β} (careful : Careful Good talk)
    (goes : ∀ result, Good result → Careful Good' (next result)) :
    Careful Good' (talk >>= next) := by
  refine Dialogue.Careful.andThen careful (fun fault => rfl) ?_
  rintro _ ⟨result, rfl, good⟩
  exact goes result good

theorem careful_readByte : Careful (fun _ => True) readByte := by
  refine .ask ?_ ?_
  · rintro (fault | byte) found h
    · cases h
      rfl
    · cases h
  · rintro (fault | byte) h
    · cases h
    · exact .done ⟨byte, rfl, trivial⟩

theorem careful_writeByte (byte : Byte) : Careful (fun _ => True) (writeByte byte) := by
  refine .ask ?_ ?_
  · rintro (fault | sent) found h
    · cases h
      rfl
    · cases h
  · rintro (fault | sent) h
    · cases h
    · exact .done ⟨sent, rfl, trivial⟩

theorem careful_flush : Careful (fun _ => True) flush := by
  refine .ask ?_ ?_
  · rintro (fault | sent) found h
    · cases h
      rfl
    · cases h
  · rintro (fault | sent) h
    · cases h
    · exact .done ⟨sent, rfl, trivial⟩

theorem careful_report (event : Event) : Careful (fun _ => True) (report event) :=
  .ask (fun _ _ h => nomatch h) fun _ _ => .done ⟨(), rfl, trivial⟩

theorem careful_writeAll (bytes : List Byte) : Careful (fun _ => True) (writeAll bytes) := by
  induction bytes with
  | nil => exact careful_pure trivial
  | cons byte rest ih => exact careful_bind (careful_writeByte byte) fun _ _ => ih

/-- All requests of console work have a property. -/
def Asks (P : Channel.Request → Prop) (talk : Conversation α) : Prop := Dialogue.Asks P talk.run

section
variable {P : Channel.Request → Prop}

theorem asks_pure (result : α) : Asks P (pure result) := .done _

theorem asks_bind {talk : Conversation α} {next : α → Conversation β} (asks : Asks P talk)
    (goes : ∀ result, Asks P (next result)) : Asks P (talk >>= next) := by
  refine Dialogue.Asks.andThen asks ?_
  rintro (fault | result)
  · exact .done _
  · exact goes result

theorem asks_readByte (h : P .read) : Asks P readByte := .ask h fun _ => .done _

theorem asks_writeByte {byte : Byte} (h : P (.write byte)) : Asks P (writeByte byte) :=
  .ask h fun _ => .done _

theorem asks_flush (h : P .flush) : Asks P flush := .ask h fun _ => .done _

theorem asks_report {event : Event} (h : P (.note event)) : Asks P (report event) :=
  .ask h fun _ => .done _

theorem asks_writeAll (bytes : List Byte) (h : ∀ byte, P (.write byte)) :
    Asks P (writeAll bytes) := by
  induction bytes with
  | nil => exact asks_pure ()
  | cons byte rest ih => exact asks_bind (asks_writeByte (h byte)) fun _ => ih

end

end Conversation

end LittleComputer
