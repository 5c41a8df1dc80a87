import LittleComputer.Console.Faulty
import LittleComputer.Console.Scripted
import LittleComputer.Proofs.Run

/-!
# The unbounded run is a limit

The unbounded run has no answer as long as its fuel is short, and always the same one after
that. Below that point the bounded runs are the beginnings of the unbounded run; from that
point on they are the run itself. The counter bounds this: where it stands at its largest
value, a bounded run makes no step, so it does not fail there, though the unbounded run may.
-/

namespace LittleComputer

namespace Machine

variable {σ : Type} {handler : Handler Channel σ} {p q : Machine × σ} {k fuel : Nat}
  {n : UInt64} {result : Except StepError UInt64}

/-- An unbounded run returns: its loop ends after `k` finished steps, because the machine has
stopped or the next step fails. -/
structure Returns (handler : Handler Channel σ) (p : Machine × σ) (k : Nat)
    (result : Except StepError UInt64) (q : Machine × σ) : Prop where
  answer : ∃ fuel, (p.1.run fuel).interp handler p.2 = (some (result, q.1), q.2)
  finishes : Finishes handler p k
  ends : (course handler p k).1.state = .halted ∨ ∃ e, resultAt handler p k = .error e

theorem finishes_unique {j : Nat} {e e' : StepError} (hj : Finishes handler p j)
    (ej : resultAt handler p j = .error e) (hk : Finishes handler p k)
    (ek : resultAt handler p k = .error e') : j = k := by
  rcases Nat.lt_trichotomy j k with lt | eq | lt
  · obtain ⟨i, good⟩ := hk j lt
    rw [ej] at good
    cases good
  · exact eq
  · obtain ⟨i, good⟩ := hj k lt
    rw [ek] at good
    cases good

theorem answer_cases (h : (p.1.run fuel).interp handler p.2 = (some (result, q.1), q.2)) :
    ∃ k, (k ≤ fuel ∧ HaltsAfter handler p k ∧ result = .ok k.toUInt64 ∧
        q = course handler p k) ∨
      ∃ fault, k < fuel ∧ FailsAfter handler p k fault ∧ result = .error (.console fault) ∧
        q = course handler p (k + 1) := by
  obtain ⟨m', state'⟩ := q
  rcases fate handler p fuel with ⟨k, le, halts⟩ | ⟨k, lt, fault, fails⟩ | lasts
  · rw [run_of_haltsAfter halts le] at h
    cases h
    exact ⟨k, Or.inl ⟨le, halts, rfl, rfl⟩⟩
  · rw [run_of_failsAfter fails lt] at h
    cases h
    exact ⟨k, Or.inr ⟨fault, lt, fails, rfl, rfl⟩⟩
  · have silent := run_of_lastsFor lasts
    rw [h] at silent
    cases silent

/-- An unbounded run that answers ends, and with a count only if the machine has stopped. -/
theorem exists_endsAfter_run (h : (p.1.run fuel).interp handler p.2 = (some (result, q.1), q.2)) :
    ∃ k, EndsAfter handler p k result ∧ q = course handler p k ∧
      (p.1.run fuel).turns handler p.2 = transcript handler p k ∧
      ∀ count, result = .ok count → q.1.state = .halted := by
  obtain ⟨k, ⟨le, halts, rfl, rfl⟩ | ⟨fault, lt, fails, rfl, rfl⟩⟩ := answer_cases h
  · exact ⟨k, endsAfter_of_finishes halts.1, rfl, turns_run_of_haltsAfter halts le,
      fun _ _ => halts.2⟩
  · exact ⟨k + 1, fails.endsAfter, rfl, turns_run_of_failsAfter fails lt, nofun⟩

theorem returns_of_haltsAfter (h : HaltsAfter handler p k) :
    Returns handler p k (.ok k.toUInt64) (course handler p k) :=
  ⟨⟨k, run_of_haltsAfter h (Nat.le_refl k)⟩, h.1, Or.inl h.2⟩

theorem returns_of_failsAfter {fault : IoError} (h : FailsAfter handler p k fault) :
    Returns handler p k (.error (.console fault)) (course handler p (k + 1)) :=
  ⟨⟨k + 1, run_of_failsAfter h (Nat.lt_succ_self k)⟩, h.1, Or.inr ⟨_, h.2⟩⟩

/-- The number of finished steps and the answer belong together. -/
theorem Returns.cases (h : Returns handler p k result q) :
    (HaltsAfter handler p k ∧ result = .ok k.toUInt64 ∧ q = Machine.course handler p k) ∨
      ∃ fault, FailsAfter handler p k fault ∧ result = .error (.console fault) ∧
        q = Machine.course handler p (k + 1) := by
  obtain ⟨fuel, answer⟩ := h.answer
  have last : ∃ e, resultAt handler p k = .error e := by
    rcases h.ends with halted | failed
    · exact ⟨_, resultAt_of_halted halted⟩
    · exact failed
  obtain ⟨e, last⟩ := last
  obtain ⟨j, ⟨-, halts, rest⟩ | ⟨fault, -, fails, rest⟩⟩ := answer_cases answer
  · obtain rfl : k = j := finishes_unique h.finishes last halts.1 (resultAt_of_halted halts.2)
    exact Or.inl ⟨halts, rest⟩
  · obtain rfl : k = j := finishes_unique h.finishes last fails.1 fails.2
    exact Or.inr ⟨fault, fails, rest⟩

theorem exists_returns (h : (p.1.run fuel).interp handler p.2 = (some (result, q.1), q.2)) :
    ∃ k, Returns handler p k result q := by
  obtain ⟨k, ⟨-, halts, rfl, rfl⟩ | ⟨fault, -, fails, rfl, rfl⟩⟩ := answer_cases h
  · exact ⟨k, returns_of_haltsAfter halts⟩
  · exact ⟨k, returns_of_failsAfter fails⟩

theorem haltsAfter_of_returns {count : UInt64} (h : Returns handler p k (.ok count) q) :
    HaltsAfter handler p k ∧ count = k.toUInt64 ∧ q = course handler p k := by
  rcases h.cases with ⟨halts, count, last⟩ | ⟨fault, -, result, -⟩
  · exact ⟨halts, Except.ok.inj count, last⟩
  · cases result

theorem failsAfter_of_returns {e : StepError} (h : Returns handler p k (.error e) q) :
    ∃ fault, FailsAfter handler p k fault ∧ e = .console fault ∧
      q = course handler p (k + 1) := by
  rcases h.cases with ⟨-, result, -⟩ | ⟨fault, fails, result, last⟩
  · cases result
  · exact ⟨fault, fails, Except.error.inj result, last⟩

section
variable {count : UInt64} {e : StepError}

theorem toNat_of_returns (h : Returns handler p k (.ok count) q)
    (room : p.1.cycles.toNat + k < 2 ^ 64) : count.toNat = k := by
  obtain ⟨-, rfl, -⟩ := haltsAfter_of_returns h
  exact toNat_toUInt64_of_room room

/-- From the length of the unbounded run on, a bounded run is the unbounded run. -/
theorem returnsWithin_of_returns_ok (h : Returns handler p k (.ok count) q)
    (room : p.1.cycles.toNat + k < 2 ^ 64) (le : k ≤ n.toNat) :
    ReturnsWithin handler p n (.ok count) q := by
  obtain ⟨halts, rfl, rfl⟩ := haltsAfter_of_returns h
  exact runLimited_of_finishes halts.1 (le_allowance le room) (Or.inl halts.2)

/-- A shorter bounded run is the beginning of the unbounded run, which can be continued there. -/
theorem returnsWithin_before_end (h : Returns handler p k (.ok count) q)
    (room : p.1.cycles.toNat + k < 2 ^ 64) (lt : n.toNat < k) :
    ∃ r, ReturnsWithin handler p n (.ok n) r ∧ r.1.state = .running ∧
      Returns handler r (k - n.toNat) (.ok (count - n)) q := by
  obtain ⟨halts, rfl, rfl⟩ := haltsAfter_of_returns h
  have lasts := halts.1.lastsFor lt
  have rest := returns_of_haltsAfter (halts.course (Nat.le_of_lt lt))
  have left : (k - n.toNat).toUInt64 = k.toUInt64 - n := by
    rw [← UInt64.toNat_inj, UInt64.toNat_sub_of_le]
    · simp only [Nat.toUInt64, UInt64.toNat_ofNat']
      omega
    · rw [UInt64.le_iff_toNat_le]
      simp only [Nat.toUInt64, UInt64.toNat_ofNat']
      omega
  rw [course_course, Nat.sub_add_cancel (Nat.le_of_lt lt), left] at rest
  exact ⟨course handler p n.toNat, runLimited_of_lastsFor lasts (by omega), lasts.2, rest⟩

theorem returnsWithin_before_error (h : Returns handler p k (.error e) q)
    (room : p.1.cycles.toNat + k < 2 ^ 64) (le : n.toNat ≤ k) :
    ∃ r, ReturnsWithin handler p n (.ok n) r ∧ r.1.state = .running := by
  obtain ⟨fault, fails, -, -⟩ := failsAfter_of_returns h
  have lasts : LastsFor handler p n.toNat := by
    rcases Nat.lt_or_eq_of_le le with lt | eq
    · exact fails.1.lastsFor lt
    · exact eq ▸ fails.lastsFor
  exact ⟨course handler p n.toNat, runLimited_of_lastsFor lasts (by omega), lasts.2⟩

/-- A longer bounded run fails as the unbounded run does, if the counter has room for the
step that fails. -/
theorem returnsWithin_of_returns_error (h : Returns handler p k (.error e) q)
    (room : p.1.cycles.toNat + k + 1 < 2 ^ 64) (lt : k < n.toNat) :
    ReturnsWithin handler p n (.error e) q := by
  obtain ⟨fault, fails, rfl, rfl⟩ := failsAfter_of_returns h
  exact runLimited_of_failsAfter fails (le_allowance lt room)

/-- With the counter at its largest value no bounded run makes the step that fails. -/
theorem returnsWithin_of_full_counter (h : Returns handler p k (.error e) q)
    (full : p.1.cycles.toNat + k + 1 = 2 ^ 64) (lt : k < n.toNat) :
    ∃ r, ReturnsWithin handler p n (.ok k.toUInt64) r ∧ r.1.state = .running := by
  obtain ⟨fault, fails, rfl, rfl⟩ := failsAfter_of_returns h
  have exhausted : k = p.1.allowance n := by
    simp only [allowance]
    omega
  exact ⟨course handler p k,
    runLimited_of_finishes fails.1 (Nat.le_of_eq exhausted) (Or.inr exhausted), fails.running⟩

end

/-- What a bounded run answers, by the fate of the machine. -/
theorem returnsWithin_cases (h : ReturnsWithin handler p n result q) :
    (∃ k, p.1.cycles.toNat + k < 2 ^ 64 ∧ HaltsAfter handler p k ∧ result = .ok k.toUInt64) ∨
      (∃ k fault, p.1.cycles.toNat + k + 1 < 2 ^ 64 ∧ FailsAfter handler p k fault ∧
        result = .error (.console fault)) ∨
      ∃ k : Nat, result = .ok k.toUInt64 ∧ q.1.state = .running := by
  have room := p.1.allowance_room n
  rcases fate handler p (p.1.allowance n) with ⟨k, le, halts⟩ | ⟨k, lt, fault, fails⟩ | lasts
  · obtain ⟨rfl, -⟩ := h.unique (runLimited_of_finishes halts.1 le (Or.inl halts.2))
    exact Or.inl ⟨k, by omega, halts, rfl⟩
  · obtain ⟨rfl, -⟩ := h.unique (runLimited_of_failsAfter fails lt)
    exact Or.inr (Or.inl ⟨k, fault, by omega, fails, rfl⟩)
  · obtain ⟨rfl, rfl⟩ := h.unique (runLimited_of_finishes lasts.1 (Nat.le_refl _) (Or.inr rfl))
    exact Or.inr (Or.inr ⟨_, rfl, lasts.2⟩)

/-- A bounded run that fails has come to a step that is refused a call. -/
theorem failsAfter_of_returnsWithin {e : StepError} (h : ReturnsWithin handler p n (.error e) q) :
    ∃ k fault, FailsAfter handler p k fault ∧ e = .console fault ∧
      q = course handler p (k + 1) ∧
      (p.1.runLimited n).turns handler p.2 = transcript handler p (k + 1) := by
  obtain ⟨k, result, stops⟩ := exists_stopsAt handler p n
  obtain ⟨rfl, rfl⟩ := h.unique stops.returnsWithin
  have said := stops.turns
  cases stops with
  | refused fails fits => exact ⟨_, _, fails, rfl, rfl, said⟩

/-- The unbounded run ends if and only if some bounded run fails or halts. -/
theorem exists_returns_iff :
    ((∃ k count q, Returns handler p k (.ok count) q ∧ p.1.cycles.toNat + k < 2 ^ 64) ∨
      ∃ k e q, Returns handler p k (.error e) q ∧ p.1.cycles.toNat + k + 1 < 2 ^ 64) ↔
    ∃ n result q, ReturnsWithin handler p n result q ∧
      ((∃ e, result = .error e) ∨ q.1.state = .halted) := by
  constructor
  · rintro (⟨k, count, q, returns, room⟩ | ⟨k, e, q, returns, room⟩)
    · have length := toNat_of_returns returns room
      obtain ⟨halts, -, rfl⟩ := haltsAfter_of_returns returns
      exact ⟨count, .ok count, _,
        returnsWithin_of_returns_ok returns room (Nat.le_of_eq length.symm), Or.inr halts.2⟩
    · have next : (k + 1).toUInt64.toNat = k + 1 := toNat_toUInt64_of_room room
      exact ⟨(k + 1).toUInt64, .error e, q, returnsWithin_of_returns_error returns room (by omega),
        Or.inl ⟨e, rfl⟩⟩
  · rintro ⟨n, result, q, within, stopped⟩
    rcases returnsWithin_cases within with ⟨k, room, halts, -⟩ | ⟨k, fault, room, fails, -⟩ |
      ⟨k, rfl, running⟩
    · exact Or.inl ⟨k, _, _, returns_of_haltsAfter halts, room⟩
    · exact Or.inr ⟨k, _, _, returns_of_failsAfter fails, room⟩
    · rcases stopped with ⟨e, failed⟩ | halted
      · cases failed
      · rw [running] at halted
        cases halted

theorem runLimited_never_notRunning (handler : Handler Channel σ) (p : Machine × σ)
    (n : UInt64) (q : Machine × σ) : ¬ ReturnsWithin handler p n (.error .notRunning) q := by
  intro within
  rcases returnsWithin_cases within with ⟨k, -, -, result⟩ | ⟨k, fault, -, -, result⟩ |
    ⟨k, result, -⟩
  · cases result
  · cases result
  · cases result

theorem run_never_notRunning (handler : Handler Channel σ) (p : Machine × σ) (k : Nat)
    (q : Machine × σ) : ¬ Returns handler p k (.error .notRunning) q := by
  intro returns
  obtain ⟨fault, -, result, -⟩ := failsAfter_of_returns returns
  cases result

/-- The unbounded run is the limit of the bounded ones, on every console, as far as the counter
reaches. Each of its answers comes after some number of finished steps. If it is a count, longer
bounded runs are the same and shorter ones its beginnings; if it is a fault, longer ones fail alike,
except with the counter at its largest value. It ends within the counter if and only if some bounded
run fails or halts. Neither kind of run reports a stopped machine as a fault or does anything to
one. -/
theorem run_is_limit (console : Console σ) (p : Machine × σ) :
    (∀ fuel result q,
      (p.1.run fuel).interp console.handler p.2 = (some (result, q.1), q.2) →
        ∃ k, Returns console.handler p k result q) ∧
    (∀ k count q, Returns console.handler p k (.ok count) q → p.1.cycles.toNat + k < 2 ^ 64 →
      count.toNat = k ∧
      (∀ n : UInt64, k ≤ n.toNat → ReturnsWithin console.handler p n (.ok count) q) ∧
      ∀ n : UInt64, n.toNat < k → ∃ r, ReturnsWithin console.handler p n (.ok n) r ∧
        r.1.state = .running ∧
        Returns console.handler r (k - n.toNat) (.ok (count - n)) q) ∧
    (∀ k e q, Returns console.handler p k (.error e) q → p.1.cycles.toNat + k < 2 ^ 64 →
      (∀ n : UInt64, n.toNat ≤ k → ∃ r, ReturnsWithin console.handler p n (.ok n) r ∧
        r.1.state = .running) ∧
      (p.1.cycles.toNat + k + 1 < 2 ^ 64 → ∀ n : UInt64, k < n.toNat →
        ReturnsWithin console.handler p n (.error e) q) ∧
      (p.1.cycles.toNat + k + 1 = 2 ^ 64 → ∀ n : UInt64, k < n.toNat →
        ∃ r, ReturnsWithin console.handler p n (.ok k.toUInt64) r ∧ r.1.state = .running)) ∧
    (((∃ k count q, Returns console.handler p k (.ok count) q ∧
          p.1.cycles.toNat + k < 2 ^ 64) ∨
        ∃ k e q, Returns console.handler p k (.error e) q ∧
          p.1.cycles.toNat + k + 1 < 2 ^ 64) ↔
      ∃ n result q, ReturnsWithin console.handler p n result q ∧
        ((∃ e, result = .error e) ∨ q.1.state = .halted)) ∧
    (∀ n q, ¬ ReturnsWithin console.handler p n (.error .notRunning) q) ∧
    (∀ k q, ¬ Returns console.handler p k (.error .notRunning) q) ∧
    (p.1.state = .halted → ∀ n fuel, p.1.runLimited n = .done (.ok 0, p.1) ∧
      p.1.run fuel = .done (some (.ok 0, p.1))) := by
  refine ⟨?_, ?_, ?_, exists_returns_iff, runLimited_never_notRunning _ p,
    run_never_notRunning _ p, ?_⟩
  · intro fuel result q answer
    exact exists_returns answer
  · intro k count q returns room
    refine ⟨toNat_of_returns returns room, ?_, ?_⟩
    · intro n le
      exact returnsWithin_of_returns_ok returns room le
    · intro n lt
      exact returnsWithin_before_end returns room lt
  · intro k e q returns room
    refine ⟨?_, ?_, ?_⟩
    · intro n le
      exact returnsWithin_before_error returns room le
    · intro more n lt
      exact returnsWithin_of_returns_error returns more lt
    · intro full n lt
      exact returnsWithin_of_full_counter returns full lt
  · intro halted n fuel
    exact ⟨runLimited_of_halted _ _ halted, run_of_halted _ _ halted⟩

/-- A machine with a full counter about to write a character, and a console that refuses. -/
def exhausted : Machine × (ScriptedConsole × Attempts) :=
  ({ about start 0xF021 with cycles := 0xFFFFFFFFFFFFFFFF }, .ofInput [], .none)

/-- The console that refuses every write. -/
def mute : Console (ScriptedConsole × Attempts) := ScriptedConsole.console.faulty (.refusing .write)

theorem resultAt_exhausted :
    resultAt mute.handler exhausted 0 = .error (.console (.refused .write)) := by
  have word : exhausted.1.nextWord = 0xF021 := nextWord_about start 0xF021
  have out : exhausted.1.nextInstruction = .trap 0x21 := by
    rw [nextInstruction, word]
    exact Instruction.decode_of_code rfl rfl
  rw [resultAt, course_zero, step_of_running rfl, out]
  rfl

/-- With a full counter the unbounded run fails at once, and a bounded run of one step makes
none: the rule for failures needs room for the step that fails. -/
theorem runLimited_of_full_counter :
    ReturnsWithin mute.handler exhausted 1 (.ok 0) exhausted ∧
      ¬ ∀ k e q, Returns mute.handler exhausted k (.error e) q →
        exhausted.1.cycles.toNat + k < 2 ^ 64 →
        ∀ n : UInt64, k < n.toNat → ReturnsWithin mute.handler exhausted n (.error e) q := by
  have fails : FailsAfter mute.handler exhausted 0 (.refused .write) :=
    ⟨finishes_zero, resultAt_exhausted⟩
  have unmoved : 0 = exhausted.1.allowance 1 := rfl
  have within : ReturnsWithin mute.handler exhausted 1 (.ok 0) exhausted :=
    runLimited_of_finishes finishes_zero (Nat.zero_le _) (Or.inr unmoved)
  refine ⟨within, ?_⟩
  intro rule
  have failed := rule 0 _ _ (returns_of_failsAfter fails) exhausted.1.cycles.toNat_lt 1 Nat.one_pos
  rw [ReturnsWithin, within] at failed
  cases failed

end Machine

end LittleComputer
