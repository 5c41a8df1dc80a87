import LittleComputer.Proofs.Step

/-!
# The course of a machine

Following a machine and its surroundings step by step gives a course, whatever the steps do.
Within any number of steps it halts, or a step fails at a refused call, or it lasts. Both
loops of the machine, the bounded and the unbounded one, read their answer off the course.
-/

namespace LittleComputer

namespace Machine

variable {σ : Type} {handler : Handler Channel σ} {p : Machine × σ} {k fuel : Nat}

/-- The machine and its surroundings after one step, however it ends. -/
def stepped (handler : Handler Channel σ) (p : Machine × σ) : Machine × σ :=
  ((p.1.step.interp handler p.2).1.2, (p.1.step.interp handler p.2).2)

/-- The machine and its surroundings after a number of steps. -/
def course (handler : Handler Channel σ) (p : Machine × σ) (k : Nat) : Machine × σ :=
  (stepped handler)^[k] p

/-- The result of the step that comes after `k` others. -/
def resultAt (handler : Handler Channel σ) (p : Machine × σ) (k : Nat) :
    Except StepError Instruction :=
  ((course handler p k).1.step.interp handler (course handler p k).2).1.1

/-- What is said in the first `k` steps. -/
def transcript (handler : Handler Channel σ) (p : Machine × σ) (k : Nat) : List (Turn Channel) :=
  (List.range k).flatMap fun j =>
    (course handler p j).1.step.turns handler (course handler p j).2

/-- The first `k` steps all finish. -/
def Finishes (handler : Handler Channel σ) (p : Machine × σ) (k : Nat) : Prop :=
  ∀ j < k, ∃ i, resultAt handler p j = .ok i

/-- After `k` finished steps the machine has stopped. -/
def HaltsAfter (handler : Handler Channel σ) (p : Machine × σ) (k : Nat) : Prop :=
  Finishes handler p k ∧ (course handler p k).1.state = .halted

/-- After `k` finished steps the next one is refused a call. -/
def FailsAfter (handler : Handler Channel σ) (p : Machine × σ) (k : Nat) (fault : IoError) :
    Prop := Finishes handler p k ∧ resultAt handler p k = .error (.console fault)

/-- After `k` finished steps the machine still runs. -/
def LastsFor (handler : Handler Channel σ) (p : Machine × σ) (k : Nat) : Prop :=
  Finishes handler p k ∧ (course handler p k).1.state = .running

@[simp] theorem course_zero : course handler p 0 = p := rfl

@[simp] theorem course_succ : course handler p (k + 1) = stepped handler (course handler p k) :=
  Function.iterate_succ_apply' _ _ _

@[simp] theorem course_course (j : Nat) :
    course handler (course handler p k) j = course handler p (j + k) :=
  (Function.iterate_add_apply _ _ _ _).symm

@[simp] theorem resultAt_course (j : Nat) :
    resultAt handler (course handler p k) j = resultAt handler p (j + k) := by
  simp [resultAt]

theorem step_at (handler : Handler Channel σ) (p : Machine × σ) :
    p.1.step.interp handler p.2 =
      ((resultAt handler p 0, (stepped handler p).1), (stepped handler p).2) := rfl

@[simp] theorem transcript_succ :
    transcript handler p (k + 1) = transcript handler p k ++
      (course handler p k).1.step.turns handler (course handler p k).2 := by
  simp [transcript, List.range_succ]

theorem transcript_le {j : Nat} (le : j ≤ k) :
    transcript handler p j <+: transcript handler p k := by
  induction le with
  | refl => exact List.prefix_refl _
  | step le ih =>
    simpa using ih.trans (List.prefix_append _ _)

theorem course_state_eq_replay :
    (course handler p k).2 = handler.replay p.2 (transcript handler p k) := by
  induction k with
  | zero => rfl
  | succ k ih =>
    rw [course_succ, stepped, Dialogue.interp_state_eq_replay, transcript_succ,
      Handler.replay_append, ← ih]

theorem course_recording (before : List (Turn Channel)) :
    course handler.recording (p.1, p.2, before) k =
      ((course handler p k).1, (course handler p k).2, before ++ transcript handler p k) := by
  induction k with
  | zero => exact congrArg (fun kept => (p.1, p.2, kept)) (List.append_nil before).symm
  | succ k ih =>
    simp [ih, stepped]

theorem resultAt_recording (before : List (Turn Channel)) :
    resultAt handler.recording (p.1, p.2, before) k = resultAt handler p k := by
  simp [resultAt, course_recording]

theorem finishes_zero : Finishes handler p 0 := fun _ h => absurd h (Nat.not_lt_zero _)

theorem finishes_succ_iff :
    Finishes handler p (k + 1) ↔ Finishes handler p k ∧ ∃ i, resultAt handler p k = .ok i := by
  constructor
  · intro h
    exact ⟨fun j hj => h j (by omega), h k (by omega)⟩
  · rintro ⟨h, last⟩ j hj
    by_cases e : j = k
    · exact e ▸ last
    · exact h j (by omega)

theorem Finishes.le (h : Finishes handler p k) {j : Nat} (le : j ≤ k) : Finishes handler p j :=
  fun i hi => h i (by omega)

theorem Finishes.course (h : Finishes handler p k) {j n : Nat} (le : j + n ≤ k) :
    Finishes handler (course handler p n) j := by
  intro i hi
  simpa using h (i + n) (by omega)

theorem Finishes.recording (h : Finishes handler p k) (before : List (Turn Channel)) :
    Finishes handler.recording (p.1, p.2, before) k := by
  intro j lt
  rw [resultAt_recording]
  exact h j lt

theorem HaltsAfter.course (h : HaltsAfter handler p k) {j : Nat} (le : j ≤ k) :
    HaltsAfter handler (course handler p j) (k - j) := by
  refine ⟨h.1.course (by omega), ?_⟩
  simpa [Nat.sub_add_cancel le] using h.2

theorem resultAt_of_halted (h : (course handler p k).1.state = .halted) :
    resultAt handler p k = .error .notRunning := by
  rw [resultAt, step_of_halted _ h]
  rfl

theorem running_of_ok {i : Instruction} (h : resultAt handler p k = .ok i) :
    (course handler p k).1.state = .running := by
  cases state : (course handler p k).1.state with
  | running => rfl
  | halted => rw [resultAt_of_halted state] at h; cases h

theorem Finishes.lastsFor (h : Finishes handler p k) {j : Nat} (lt : j < k) :
    LastsFor handler p j := by
  obtain ⟨i, good⟩ := h j lt
  exact ⟨h.le (Nat.le_of_lt lt), running_of_ok good⟩

/-- A step of a running machine finishes, or a refused call ends it. -/
theorem step_cases (running : (course handler p k).1.state = .running) :
    (∃ word, word.isSome = (course handler p k).1.nextInstruction.reads ∧
      resultAt handler p k = .ok (course handler p k).1.nextInstruction ∧
      (course handler p (k + 1)).1 = (course handler p k).1.finished word) ∨
    ∃ fault, resultAt handler p k = .error (.console fault) ∧
      (course handler p (k + 1)).1 = (course handler p k).1.entered := by
  rw [course_succ]
  rcases (careful_step running).outcome handler (course handler p k).2 with
    ⟨⟨word, reads, value⟩, -⟩ | ⟨-, -, fault, -, -, -, value⟩
  · exact Or.inl ⟨word, reads, congrArg Prod.fst value, congrArg Prod.snd value⟩
  · exact Or.inr ⟨fault, congrArg Prod.fst value, congrArg Prod.snd value⟩

theorem FailsAfter.running {fault : IoError} (h : FailsAfter handler p k fault) :
    (Machine.course handler p k).1.state = .running := by
  cases state : (Machine.course handler p k).1.state with
  | running => rfl
  | halted =>
    have ended := h.2
    rw [resultAt_of_halted state] at ended
    cases ended

theorem FailsAfter.lastsFor {fault : IoError} (h : FailsAfter handler p k fault) :
    LastsFor handler p k := ⟨h.1, h.running⟩

/-- Every finished step is counted once. -/
theorem cycles_course (h : Finishes handler p k) :
    (course handler p k).1.cycles = p.1.cycles + k.toUInt64 := by
  induction k with
  | zero => exact (UInt64.add_zero _).symm
  | succ k ih =>
    obtain ⟨before, i, last⟩ := finishes_succ_iff.mp h
    rcases step_cases (running_of_ok last) with ⟨word, -, -, after⟩ | ⟨fault, failed, -⟩
    · rw [after, cycles_finished, ih before, UInt64.add_assoc]
      exact congrArg (p.1.cycles + ·) (UInt64.ofNat_add k 1).symm
    · rw [failed] at last
      cases last

/-- A number of steps that a counter has room for is not cut off when it is counted. -/
theorem toNat_toUInt64_of_room {start : Nat} (room : start + k < 2 ^ 64) : k.toUInt64.toNat = k :=
  UInt64.toNat_ofNat_of_lt' (Nat.lt_of_le_of_lt (Nat.le_add_left _ _) room)

theorem toNat_cycles_course (h : Finishes handler p k) (room : p.1.cycles.toNat + k < 2 ^ 64) :
    (course handler p k).1.cycles.toNat = p.1.cycles.toNat + k := by
  rw [cycles_course h, UInt64.toNat_add, toNat_toUInt64_of_room room]
  exact Nat.mod_eq_of_lt room

/-- A failing step is not counted. -/
theorem FailsAfter.toNat_cycles {fault : IoError} (h : FailsAfter handler p k fault)
    (room : p.1.cycles.toNat + k < 2 ^ 64) :
    (Machine.course handler p (k + 1)).1.cycles.toNat = p.1.cycles.toNat + k := by
  rcases step_cases h.running with ⟨word, -, last, -⟩ | ⟨other, -, after⟩
  · rw [h.2] at last
    cases last
  · rw [after]
    exact toNat_cycles_course h.1 room

/-- Within any number of steps a machine halts, or fails, or it lasts. -/
theorem fate (handler : Handler Channel σ) (p : Machine × σ) (fuel : Nat) :
    (∃ k, k ≤ fuel ∧ HaltsAfter handler p k) ∨
      (∃ k, k < fuel ∧ ∃ fault, FailsAfter handler p k fault) ∨ LastsFor handler p fuel := by
  induction fuel with
  | zero =>
    cases state : p.1.state with
    | running => exact Or.inr (Or.inr ⟨finishes_zero, state⟩)
    | halted => exact Or.inl ⟨0, Nat.le_refl _, finishes_zero, state⟩
  | succ fuel ih =>
    rcases ih with ⟨k, le, halts⟩ | ⟨k, lt, fails⟩ | ⟨finishes, running⟩
    · exact Or.inl ⟨k, by omega, halts⟩
    · exact Or.inr (Or.inl ⟨k, by omega, fails⟩)
    · rcases step_cases running with ⟨word, -, last, -⟩ | ⟨fault, failed, -⟩
      · have longer := finishes_succ_iff.mpr ⟨finishes, _, last⟩
        cases state : (course handler p (fuel + 1)).1.state with
        | running => exact Or.inr (Or.inr ⟨longer, state⟩)
        | halted => exact Or.inl ⟨fuel + 1, Nat.le_refl _, longer, state⟩
      · exact Or.inr (Or.inl ⟨fuel, by omega, fault, finishes, failed⟩)

end Machine

end LittleComputer
