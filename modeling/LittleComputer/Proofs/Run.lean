import LittleComputer.Proofs.Course

/-!
# Runs and their limits

A bounded run makes at most as many steps as its limit and the counter leave room for. What
it answers is decided by the fate of the machine within that many steps, and so is the answer
of an unbounded run, which exists from some fuel on exactly if the machine does not last. An
unbounded run is therefore the limit of the bounded ones.

The counter stops a bounded run one step early at its end: a run that would fail with the
counter at its largest value is not failed by the bounded run, which makes no step there.
-/

namespace LittleComputer

namespace Machine

variable {σ : Type} {handler : Handler Channel σ} {p : Machine × σ} {k fuel : Nat}

/-- The number of steps that a bounded run may make. -/
def allowance (m : Machine) (maximum : UInt64) : Nat :=
  min maximum.toNat (2 ^ 64 - 1 - m.cycles.toNat)

theorem allowance_room (m : Machine) (maximum : UInt64) :
    m.cycles.toNat + m.allowance maximum < 2 ^ 64 := by
  have bound := m.cycles.toNat_lt
  simp only [allowance]
  omega

theorem le_allowance {m : Machine} {n : UInt64} (le : k ≤ n.toNat)
    (room : m.cycles.toNat + k < 2 ^ 64) : k ≤ m.allowance n := by
  simp only [allowance]
  omega

theorem allowance_le (m : Machine) (n : UInt64) : m.allowance n ≤ n.toNat := Nat.min_le_left _ _

theorem toNat_limitAfter (m : Machine) (maximum : UInt64) :
    (limitAfter m.cycles maximum).toNat = m.cycles.toNat + m.allowance maximum := by
  have bound := m.cycles.toNat_lt
  have below := maximum.toNat_lt
  have largest : (0xFFFFFFFFFFFFFFFF : UInt64).toNat = 2 ^ 64 - 1 := rfl
  have left : (0xFFFFFFFFFFFFFFFF - m.cycles).toNat = 2 ^ 64 - 1 - m.cycles.toNat := by
    rw [UInt64.toNat_sub_of_le _ _ (UInt64.le_iff_toNat_le.mpr (by omega)), largest]
  simp only [limitAfter, allowance, UInt64.le_iff_toNat_le, left]
  split
  · rw [UInt64.toNat_add]
    omega
  · rw [largest]
    omega

theorem limitAfter_sub (m : Machine) (maximum : UInt64) :
    (limitAfter m.cycles maximum - m.cycles).toNat = m.allowance maximum := by
  have limit := m.toNat_limitAfter maximum
  rw [UInt64.toNat_sub_of_le _ _ (UInt64.le_iff_toNat_le.mpr (by omega)), limit]
  omega

theorem stepsBelow_of_ok {limit : UInt64} {i : Instruction} (h : resultAt handler p 0 = .ok i)
    (below : p.1.cycles.toNat < limit.toNat) :
    (stepsBelow limit (fuel + 1) p.1).interp handler p.2 =
      (stepsBelow limit fuel (stepped handler p).1).interp handler (stepped handler p).2 := by
  have going : p.1.state = .running ∧ p.1.cycles < limit :=
    ⟨running_of_ok h, UInt64.lt_iff_toNat_lt.mpr below⟩
  simp [stepsBelow, going, step_at, h]

theorem stepsToHalt_of_ok {i : Instruction} (h : resultAt handler p 0 = .ok i) :
    (stepsToHalt (fuel + 1) p.1).interp handler p.2 =
      (stepsToHalt fuel (stepped handler p).1).interp handler (stepped handler p).2 := by
  have going : ¬ p.1.state = .halted := by
    intro halted
    have running : p.1.state = .running := running_of_ok h
    rw [running] at halted
    cases halted
  simp [stepsToHalt, going, step_at, h]

theorem stepsBelow_of_error {limit : UInt64} {e : StepError}
    (h : resultAt handler p 0 = .error e) (running : p.1.state = .running)
    (below : p.1.cycles.toNat < limit.toNat) :
    (stepsBelow limit (fuel + 1) p.1).interp handler p.2 =
      ((.error e, (stepped handler p).1), (stepped handler p).2) := by
  have going : p.1.state = .running ∧ p.1.cycles < limit :=
    ⟨running, UInt64.lt_iff_toNat_lt.mpr below⟩
  simp [stepsBelow, going, step_at, h]

theorem stepsToHalt_of_error {e : StepError} (h : resultAt handler p 0 = .error e)
    (running : p.1.state = .running) :
    (stepsToHalt (fuel + 1) p.1).interp handler p.2 =
      (some (.error e, (stepped handler p).1), (stepped handler p).2) := by
  simp [stepsToHalt, running, step_at, h]

/-- A bounded loop comes to the end of a course of finished steps. -/
theorem stepsBelow_of_finishes {limit : UInt64} (h : Finishes handler p k)
    (room : p.1.cycles.toNat + k ≤ limit.toNat) :
    (stepsBelow limit (fuel + k) p.1).interp handler p.2 =
      (stepsBelow limit fuel (course handler p k).1).interp handler (course handler p k).2 := by
  induction k generalizing fuel with
  | zero => rfl
  | succ k ih =>
    obtain ⟨before, i, last⟩ := finishes_succ_iff.mp h
    have bound := limit.toNat_lt
    have count := toNat_cycles_course before (by omega)
    have shift : fuel + (k + 1) = fuel + 1 + k := by omega
    have now : resultAt handler (course handler p k) 0 = .ok i := by
      simp [last]
    rw [shift, ih before (by omega), stepsBelow_of_ok now (by omega), course_succ]

/-- The unbounded loop comes to the end of a course of finished steps. -/
theorem stepsToHalt_of_finishes (h : Finishes handler p k) :
    (stepsToHalt (fuel + k) p.1).interp handler p.2 =
      (stepsToHalt fuel (course handler p k).1).interp handler (course handler p k).2 := by
  induction k generalizing fuel with
  | zero => rfl
  | succ k ih =>
    obtain ⟨before, i, last⟩ := finishes_succ_iff.mp h
    have shift : fuel + (k + 1) = fuel + 1 + k := by omega
    have now : resultAt handler (course handler p k) 0 = .ok i := by
      simp [last]
    simp [shift, ih before, stepsToHalt_of_ok now]

theorem counted_course (h : Finishes handler p k) :
    counted p.1.cycles (.ok (), (course handler p k).1) =
      (.ok k.toUInt64, (course handler p k).1) := by
  rw [counted, cycles_course h, UInt64.add_comm, UInt64.add_sub_cancel]

/-- A bounded run returns. -/
def ReturnsWithin (handler : Handler Channel σ) (p : Machine × σ) (n : UInt64)
    (result : Except StepError UInt64) (q : Machine × σ) : Prop :=
  (p.1.runLimited n).interp handler p.2 = ((result, q.1), q.2)

/-- A bounded run answers at the end of a course that has used up its allowance or halted. -/
theorem runLimited_of_finishes {n : UInt64} (h : Finishes handler p k)
    (fits : k ≤ p.1.allowance n)
    (ended : (course handler p k).1.state = .halted ∨ k = p.1.allowance n) :
    ReturnsWithin handler p n (.ok k.toUInt64) (course handler p k) := by
  have limit := p.1.toNat_limitAfter n
  have shift : p.1.allowance n = p.1.allowance n - k + k := by omega
  have rest : stepsBelow (limitAfter p.1.cycles n) (p.1.allowance n - k) (course handler p k).1 =
      .done (.ok (), (course handler p k).1) := by
    rcases ended with halted | rfl
    · exact stepsBelow_of_halted _ _ _ halted
    · rw [Nat.sub_self]
      rfl
  rw [ReturnsWithin, runLimited, Dialogue.interp_map, limitAfter_sub, shift,
    stepsBelow_of_finishes h (by omega), rest,
    Dialogue.interp_done, counted_course h]

/-- A bounded run fails with the step that its allowance still covers. -/
theorem runLimited_of_failsAfter {n : UInt64} {fault : IoError}
    (h : FailsAfter handler p k fault) (fits : k < p.1.allowance n) :
    ReturnsWithin handler p n (.error (.console fault)) (course handler p (k + 1)) := by
  have limit := p.1.toNat_limitAfter n
  have room := p.1.allowance_room n
  have count := toNat_cycles_course h.1 (by omega)
  have shift : p.1.allowance n = p.1.allowance n - k - 1 + 1 + k := by omega
  have now : resultAt handler (course handler p k) 0 = .error (.console fault) := by
    simp [h.2]
  rw [ReturnsWithin, runLimited, Dialogue.interp_map, limitAfter_sub, shift,
    stepsBelow_of_finishes h.1 (by omega), stepsBelow_of_error now h.running (by omega),
    course_succ]
  rfl

theorem runLimited_of_lastsFor {n : UInt64} (h : LastsFor handler p n.toNat)
    (room : p.1.cycles.toNat + n.toNat < 2 ^ 64) :
    ReturnsWithin handler p n (.ok n) (course handler p n.toNat) := by
  have fits := le_allowance (Nat.le_refl n.toNat) room
  have same := Nat.le_antisymm fits (p.1.allowance_le n)
  have answer := runLimited_of_finishes h.1 fits (Or.inr same)
  rwa [Nat.toUInt64, UInt64.ofNat_toNat] at answer

theorem ReturnsWithin.unique {n : UInt64} {result result' : Except StepError UInt64}
    {q q' : Machine × σ} (h : ReturnsWithin handler p n result q)
    (h' : ReturnsWithin handler p n result' q') : result = result' ∧ q = q' := by
  have same := h.symm.trans h'
  exact ⟨congrArg (fun answer => answer.1.1) same,
    congrArg (fun answer => (answer.1.2, answer.2)) same⟩

theorem ReturnsWithin.turns {n : UInt64} {result : Except StepError UInt64}
    {q : Machine × σ × List (Turn Channel)}
    (h : ReturnsWithin handler.recording (p.1, p.2, []) n result q) :
    (p.1.runLimited n).turns handler p.2 = q.2.2 := by
  rw [ReturnsWithin, Dialogue.interp_recording] at h
  exact congrArg (fun answer => answer.2.2) h

theorem turns_runLimited_of_finishes {n : UInt64} (h : Finishes handler p k)
    (fits : k ≤ p.1.allowance n)
    (ended : (course handler p k).1.state = .halted ∨ k = p.1.allowance n) :
    (p.1.runLimited n).turns handler p.2 = transcript handler p k := by
  have answer := runLimited_of_finishes (h.recording []) fits (by rwa [course_recording])
  rw [answer.turns, course_recording]
  rfl

theorem turns_runLimited_of_lastsFor {n : UInt64} (h : LastsFor handler p n.toNat)
    (room : p.1.cycles.toNat + n.toNat < 2 ^ 64) :
    (p.1.runLimited n).turns handler p.2 = transcript handler p n.toNat := by
  have fits := le_allowance (Nat.le_refl n.toNat) room
  have same := Nat.le_antisymm fits (p.1.allowance_le n)
  exact turns_runLimited_of_finishes h.1 fits (Or.inr same)

theorem turns_runLimited_of_failsAfter {n : UInt64} {fault : IoError}
    (h : FailsAfter handler p k fault) (fits : k < p.1.allowance n) :
    (p.1.runLimited n).turns handler p.2 = transcript handler p (k + 1) := by
  have fails : FailsAfter handler.recording (p.1, p.2, []) k fault :=
    ⟨h.1.recording [], (resultAt_recording []).trans h.2⟩
  rw [(runLimited_of_failsAfter fails fits).turns, course_recording]
  rfl

/-- A run of `k` steps with its result: every step begins with a running machine, and if the
result is a count, all of them finish and are counted. -/
structure EndsAfter (handler : Handler Channel σ) (p : Machine × σ) (k : Nat)
    (result : Except StepError UInt64) : Prop where
  lasts : ∀ j < k, LastsFor handler p j
  counts : ∀ count, result = .ok count → Finishes handler p k ∧ count = k.toUInt64

theorem endsAfter_of_finishes (h : Finishes handler p k) :
    EndsAfter handler p k (.ok k.toUInt64) := by
  refine ⟨fun j lt => h.lastsFor lt, ?_⟩
  intro count same
  exact ⟨h, (Except.ok.inj same).symm⟩

theorem FailsAfter.endsAfter {fault : IoError} (h : FailsAfter handler p k fault) :
    EndsAfter handler p (k + 1) (.error (.console fault)) := by
  refine ⟨?_, nofun⟩
  intro j lt
  rcases Nat.lt_succ_iff_lt_or_eq.mp lt with sooner | rfl
  · exact h.1.lastsFor sooner
  · exact h.lastsFor

/-- How a bounded run stops: with all of its steps finished, or with the last one refused a call. -/
inductive StopsAt (handler : Handler Channel σ) (p : Machine × σ) (n : UInt64) :
    Nat → Except StepError UInt64 → Prop where
  | finished {k : Nat} (finishes : Finishes handler p k) (fits : k ≤ p.1.allowance n)
      (ended : (course handler p k).1.state = .halted ∨ k = p.1.allowance n) :
      StopsAt handler p n k (.ok k.toUInt64)
  | refused {k : Nat} {fault : IoError} (fails : FailsAfter handler p k fault)
      (fits : k < p.1.allowance n) : StopsAt handler p n (k + 1) (.error (.console fault))

theorem exists_stopsAt (handler : Handler Channel σ) (p : Machine × σ) (n : UInt64) :
    ∃ k result, StopsAt handler p n k result := by
  rcases fate handler p (p.1.allowance n) with ⟨k, le, halts⟩ | ⟨k, lt, fault, fails⟩ | lasts
  · exact ⟨k, _, .finished halts.1 le (Or.inl halts.2)⟩
  · exact ⟨k + 1, _, .refused fails lt⟩
  · exact ⟨_, _, .finished lasts.1 (Nat.le_refl _) (Or.inr rfl)⟩

namespace StopsAt

variable {n : UInt64} {result : Except StepError UInt64}

theorem returnsWithin (h : StopsAt handler p n k result) :
    ReturnsWithin handler p n result (course handler p k) := by
  cases h with
  | finished finishes fits ended => exact runLimited_of_finishes finishes fits ended
  | refused fails fits => exact runLimited_of_failsAfter fails fits

theorem turns (h : StopsAt handler p n k result) :
    (p.1.runLimited n).turns handler p.2 = transcript handler p k := by
  cases h with
  | finished finishes fits ended => exact turns_runLimited_of_finishes finishes fits ended
  | refused fails fits => exact turns_runLimited_of_failsAfter fails fits

theorem le_allowance (h : StopsAt handler p n k result) : k ≤ p.1.allowance n := by
  cases h with
  | finished finishes fits ended => exact fits
  | refused fails fits => exact fits

theorem endsAfter (h : StopsAt handler p n k result) : EndsAfter handler p k result := by
  cases h with
  | finished finishes fits ended => exact endsAfter_of_finishes finishes
  | refused fails fits => exact fails.endsAfter

end StopsAt

/-- A bounded run always ends, within its allowance. -/
theorem exists_endsAfter_runLimited (handler : Handler Channel σ) (p : Machine × σ) (n : UInt64) :
    ∃ k result, EndsAfter handler p k result ∧ k ≤ p.1.allowance n ∧
      ReturnsWithin handler p n result (course handler p k) ∧
      (p.1.runLimited n).turns handler p.2 = transcript handler p k := by
  obtain ⟨k, result, stops⟩ := exists_stopsAt handler p n
  exact ⟨k, result, stops.endsAfter, stops.le_allowance, stops.returnsWithin, stops.turns⟩

/-- A bounded run says what a number of steps say, each of a running machine. -/
theorem exists_turns_runLimited (handler : Handler Channel σ) (p : Machine × σ) (n : UInt64) :
    ∃ k, k ≤ p.1.allowance n ∧ (p.1.runLimited n).turns handler p.2 = transcript handler p k ∧
      ∀ j < k, LastsFor handler p j := by
  obtain ⟨k, result, ends, le, -, said⟩ := exists_endsAfter_runLimited handler p n
  exact ⟨k, le, said, ends.lasts⟩

/-- An unbounded run answers at the end of a course that has halted. -/
theorem run_of_haltsAfter (h : HaltsAfter handler p k) (fits : k ≤ fuel) :
    (p.1.run fuel).interp handler p.2 =
      (some (.ok k.toUInt64, (course handler p k).1), (course handler p k).2) := by
  have shift : fuel = fuel - k + k := by omega
  rw [run, Dialogue.interp_map, shift, stepsToHalt_of_finishes h.1, stepsToHalt_of_halted _ _ h.2,
    Dialogue.interp_done, Option.map_some, counted_course h.1]

theorem run_of_failsAfter {fault : IoError} (h : FailsAfter handler p k fault)
    (fits : k < fuel) :
    (p.1.run fuel).interp handler p.2 =
      (some (.error (.console fault), (course handler p (k + 1)).1),
        (course handler p (k + 1)).2) := by
  have shift : fuel = fuel - k - 1 + 1 + k := by omega
  have now : resultAt handler (course handler p k) 0 = .error (.console fault) := by
    simp [h.2]
  rw [run, Dialogue.interp_map, shift, stepsToHalt_of_finishes h.1,
    stepsToHalt_of_error now h.running, course_succ]
  rfl

theorem turns_run_of_haltsAfter (h : HaltsAfter handler p k) (fits : k ≤ fuel) :
    (p.1.run fuel).turns handler p.2 = transcript handler p k := by
  have halts : HaltsAfter handler.recording (p.1, p.2, []) k :=
    ⟨h.1.recording [], by rw [course_recording]; exact h.2⟩
  have answer := run_of_haltsAfter halts fits
  rw [Dialogue.interp_recording, course_recording] at answer
  exact congrArg (fun answer => answer.2.2) answer

theorem turns_run_of_failsAfter {fault : IoError} (h : FailsAfter handler p k fault)
    (fits : k < fuel) : (p.1.run fuel).turns handler p.2 = transcript handler p (k + 1) := by
  have fails : FailsAfter handler.recording (p.1, p.2, []) k fault :=
    ⟨h.1.recording [], (resultAt_recording []).trans h.2⟩
  have answer := run_of_failsAfter fails fits
  rw [Dialogue.interp_recording, course_recording] at answer
  exact congrArg (fun answer => answer.2.2) answer

/-- An unbounded run whose fuel is too short has come so far on its course. -/
theorem interp_run_of_lastsFor (h : LastsFor handler p fuel) :
    (p.1.run fuel).interp handler p.2 = (none, (course handler p fuel).2) := by
  have shift : fuel = 0 + fuel := (Nat.zero_add _).symm
  rw [run, Dialogue.interp_map, shift, stepsToHalt_of_finishes h.1, Nat.zero_add, stepsToHalt,
    if_neg (by simp [h.2])]
  rfl

theorem run_of_lastsFor (h : LastsFor handler p fuel) :
    ((p.1.run fuel).interp handler p.2).1 = none :=
  congrArg Prod.fst (interp_run_of_lastsFor h)

theorem turns_run_of_lastsFor (h : LastsFor handler p fuel) :
    (p.1.run fuel).turns handler p.2 = transcript handler p fuel := by
  have lasts : LastsFor handler.recording (p.1, p.2, []) fuel :=
    ⟨h.1.recording [], by rw [course_recording]; exact h.2⟩
  have answer := interp_run_of_lastsFor lasts
  rw [Dialogue.interp_recording, course_recording] at answer
  exact congrArg (fun answer => answer.2.2) answer

/-- How far a run has come, with its answer if it has one. -/
inductive Progress (handler : Handler Channel σ) (p : Machine × σ) :
    Nat → Option (Except StepError UInt64) → Prop where
  | finished {k : Nat} (finishes : Finishes handler p k) :
      Progress handler p k (some (.ok k.toUInt64))
  | refused {k : Nat} {fault : IoError} (fails : FailsAfter handler p k fault) :
      Progress handler p (k + 1) (some (.error (.console fault)))
  | unanswered {k : Nat} (lasts : LastsFor handler p k) : Progress handler p k none

theorem StopsAt.progress {n : UInt64} {result : Except StepError UInt64}
    (h : StopsAt handler p n k result) : Progress handler p k (some result) := by
  cases h with
  | finished finishes fits ended => exact .finished finishes
  | refused fails fits => exact .refused fails

theorem Progress.lasts {answer : Option (Except StepError UInt64)}
    (h : Progress handler p k answer) : ∀ j < k, LastsFor handler p j := by
  intro j lt
  cases h with
  | finished finishes => exact finishes.lastsFor lt
  | refused fails => exact fails.endsAfter.lasts j lt
  | unanswered lasts => exact lasts.1.lastsFor lt

/-- An unbounded run makes some progress, also if it has no answer yet. -/
theorem exists_progress_run (handler : Handler Channel σ) (p : Machine × σ) (fuel : Nat) :
    ∃ k answer, Progress handler p k answer ∧
      (p.1.run fuel).interp handler p.2 =
        (answer.map fun result => (result, (course handler p k).1), (course handler p k).2) ∧
      (p.1.run fuel).turns handler p.2 = transcript handler p k := by
  rcases fate handler p fuel with ⟨k, le, halts⟩ | ⟨k, lt, fault, fails⟩ | lasts
  · exact ⟨k, _, .finished halts.1, run_of_haltsAfter halts le, turns_run_of_haltsAfter halts le⟩
  · exact ⟨k + 1, _, .refused fails, run_of_failsAfter fails lt, turns_run_of_failsAfter fails lt⟩
  · exact ⟨fuel, _, .unanswered lasts, interp_run_of_lastsFor lasts, turns_run_of_lastsFor lasts⟩

/-- An unbounded run says what a number of steps say, each of a running machine. -/
theorem exists_turns_run (handler : Handler Channel σ) (p : Machine × σ) (fuel : Nat) :
    ∃ k, (p.1.run fuel).turns handler p.2 = transcript handler p k ∧
      ∀ j < k, LastsFor handler p j := by
  obtain ⟨k, answer, progress, -, said⟩ := exists_progress_run handler p fuel
  exact ⟨k, said, progress.lasts⟩

end Machine

end LittleComputer
