import LittleComputer.Proofs.Run

/-!
# A bounded run in parts

A bounded run is the same as a shorter one followed by another that is given the rest of its
steps, and so as any number of runs that follow one another. The two sides are equal as
dialogues: on every console they make the same calls, come to the same machine and answer with
the same count or the same fault. The limit of the whole is the sum of the parts, cut off where
the counter ends.
-/

namespace LittleComputer

namespace Machine

/-- A number of steps, cut off at the largest one that a bounded run can be given. -/
def saturated (steps : Nat) : UInt64 := (min steps (2 ^ 64 - 1)).toUInt64

/-- Go on after a run that was counted, and add up the counts; an error ends it. -/
def continued (next : Machine → Dialogue Channel (Except StepError UInt64 × Machine)) :
    Except StepError UInt64 × Machine → Dialogue Channel (Except StepError UInt64 × Machine)
  | (.ok count, m) => (fun later => (later.1.map (count + ·), later.2)) <$> next m
  | (.error fault, m) => return (.error fault, m)

/-- Bounded runs that follow one another as long as there is no error, with their counts added. -/
def runInParts : List UInt64 → Machine → Dialogue Channel (Except StepError UInt64 × Machine)
  | [], m => return (.ok 0, m)
  | part :: rest, m => m.runLimited part >>= continued (runInParts rest)

@[simp] theorem toNat_saturated (steps : Nat) : (saturated steps).toNat = min steps (2 ^ 64 - 1) :=
  UInt64.toNat_ofNat_of_lt' (Nat.lt_of_le_of_lt (Nat.min_le_right _ _) (by decide))

theorem saturated_toNat (n : UInt64) : saturated n.toNat = n := by
  have bound := n.toNat_lt
  apply UInt64.toNat.inj
  rw [toNat_saturated]
  omega

/-- A bounded loop passes any lower limit on its way: from there on it may be followed by
anything that goes on as it does. -/
theorem stepsBelow_split {low limit : UInt64} {fuel more : Nat} (le : low ≤ limit)
    {next : Machine → Dialogue Channel (Except StepError Unit × Machine)}
    (goes : ∀ m : Machine, m.state = .halted ∨ m.cycles = low →
      next m = stepsBelow limit more m)
    (m : Machine) (gap : m.cycles.toNat + fuel = low.toNat) :
    stepsBelow limit (fuel + more) m =
      (stepsBelow low fuel m).andThen fun
        | (.ok (), m) => next m
        | (.error fault, m) => .done (.error fault, m) := by
  induction fuel generalizing m with
  | zero =>
    have reached : m.cycles = low := UInt64.toNat.inj gap
    rw [Nat.zero_add]
    exact (goes m (Or.inr reached)).symm
  | succ fuel ih =>
    cases state : m.state with
    | halted =>
      rw [stepsBelow_of_halted _ _ m state, stepsBelow_of_halted _ _ m state]
      exact ((goes m (Or.inl state)).trans (stepsBelow_of_halted _ _ m state)).symm
    | running =>
      have bound := UInt64.le_iff_toNat_le.mp le
      have below : m.state = .running ∧ m.cycles < low :=
        ⟨state, UInt64.lt_iff_toNat_lt.mpr (by omega)⟩
      have inside : m.state = .running ∧ m.cycles < limit :=
        ⟨state, UInt64.lt_iff_toNat_lt.mpr (by omega)⟩
      have room := low.toNat_lt
      rw [Nat.add_right_comm, stepsBelow, if_pos inside, stepsBelow, if_pos below,
        Dialogue.bind_eq_andThen, Dialogue.bind_eq_andThen, Dialogue.andThen_assoc]
      apply (careful_step state).andThen_congr
      · intro fault
        rfl
      · rintro _ ⟨word, -, rfl⟩
        have counted := m.toNat_cycles_finished word (by omega)
        exact ih (m.finished word) (by omega)

theorem counted_counted (start : UInt64) (m : Machine)
    (answer : Except StepError Unit × Machine) :
    ((counted m.cycles answer).1.map (m.cycles - start + ·), (counted m.cycles answer).2) =
      counted start answer := by
  obtain ⟨result, after⟩ := answer
  cases result with
  | error fault => rfl
  | ok done =>
    have whole : m.cycles - start + (after.cycles - m.cycles) = after.cycles - start := by
      rw [UInt64.add_comm, sub_add_sub_cancel]
    exact congrArg (fun count => (Except.ok count, after)) whole

section
variable {m : Machine} {first second total : UInt64}
  (sum : total.toNat = min (first.toNat + second.toNat) (2 ^ 64 - 1))

include sum

theorem allowance_le_of_sum : m.allowance first ≤ m.allowance total := by
  simp only [allowance]
  omega

/-- Where a first run has used up its limit, the limit of the second is the one of the whole. -/
theorem limitAfter_of_sum {m' : Machine} (reached : m'.cycles = limitAfter m.cycles first) :
    limitAfter m'.cycles second = limitAfter m.cycles total := by
  have start := m.cycles.toNat_lt
  have middle := congrArg UInt64.toNat reached
  rw [toNat_limitAfter, allowance] at middle
  apply UInt64.toNat.inj
  rw [toNat_limitAfter, toNat_limitAfter, allowance, allowance]
  omega

/-- Wherever a first run ends without an error, the loop of the second is the rest of the loop
of the whole. -/
theorem stepsBelow_of_sum {m' : Machine}
    (ended : m'.state = .halted ∨ m'.cycles = limitAfter m.cycles first) :
    stepsBelow (limitAfter m'.cycles second) (limitAfter m'.cycles second - m'.cycles).toNat m' =
      stepsBelow (limitAfter m.cycles total) (m.allowance total - m.allowance first) m' := by
  rcases ended with halted | reached
  · rw [stepsBelow_of_halted _ _ m' halted, stepsBelow_of_halted _ _ m' halted]
  · have lowest := m.toNat_limitAfter first
    have highest := m.toNat_limitAfter total
    have longer : m.allowance first ≤ m.allowance total := allowance_le_of_sum sum
    have left : (limitAfter m.cycles total - limitAfter m.cycles first).toNat =
        m.allowance total - m.allowance first := by
      rw [UInt64.toNat_sub_of_le _ _ (UInt64.le_iff_toNat_le.mpr (by omega))]
      omega
    rw [limitAfter_of_sum sum reached, reached, left]

/-- A bounded run is a first part of it, followed by the rest. -/
theorem runLimited_append :
    m.runLimited total = m.runLimited first >>= continued fun m => m.runLimited second := by
  have lowest := m.toNat_limitAfter first
  have highest := m.toNat_limitAfter total
  have longer : m.allowance first ≤ m.allowance total := allowance_le_of_sum sum
  have le : limitAfter m.cycles first ≤ limitAfter m.cycles total :=
    UInt64.le_iff_toNat_le.mpr (by omega)
  have split := stepsBelow_split le (fun m' ended => stepsBelow_of_sum sum ended) m lowest.symm
  rw [Nat.add_sub_cancel' longer] at split
  rw [runLimited, runLimited, limitAfter_sub, limitAfter_sub, split, map_eq_pure_bind,
    map_eq_pure_bind]
  simp only [Dialogue.bind_eq_andThen, Dialogue.andThen_assoc]
  congr 1
  funext answer
  obtain ⟨result, m'⟩ := answer
  cases result with
  | error fault => rfl
  | ok done =>
    refine Eq.trans ?_ (Dialogue.andThen_assoc _ _ _).symm
    congr 1
    funext later
    exact congrArg Dialogue.done (counted_counted m.cycles m' later).symm

end

theorem runLimited_zero (m : Machine) : m.runLimited 0 = return (.ok 0, m) := by
  have none : m.allowance 0 = 0 := Nat.zero_min _
  rw [runLimited, limitAfter_sub, none]
  exact congrArg (fun count => Dialogue.done (Except.ok count, m)) (UInt64.sub_self m.cycles)

/-- Any number of runs that follow one another are one run. -/
theorem runInParts_eq (parts : List UInt64) (m : Machine) :
    runInParts parts m = m.runLimited (saturated (parts.map UInt64.toNat).sum) := by
  induction parts generalizing m with
  | nil => exact m.runLimited_zero.symm
  | cons part rest ih =>
    have sum : (saturated ((part :: rest).map UInt64.toNat).sum).toNat =
        min (part.toNat + (saturated (rest.map UInt64.toNat).sum).toNat) (2 ^ 64 - 1) := by
      rw [toNat_saturated, toNat_saturated, List.map_cons, List.sum_cons]
      omega
    rw [runInParts, funext ih, runLimited_append sum]

theorem runInParts_ones (n : UInt64) (m : Machine) :
    runInParts (List.replicate n.toNat 1) m = m.runLimited n := by
  have total : ((List.replicate n.toNat (1 : UInt64)).map UInt64.toNat).sum = n.toNat := by
    simp
  rw [runInParts_eq, total, saturated_toNat]

section
variable {σ : Type} {handler : Handler Channel σ} {p q : Machine × σ} {n : UInt64}

/-- A count is the difference of the counter, which never wraps around. -/
theorem toNat_cycles_of_returnsWithin {count : UInt64}
    (h : ReturnsWithin handler p n (.ok count) q) :
    q.1.cycles.toNat = p.1.cycles.toNat + count.toNat := by
  have room := p.1.allowance_room n
  obtain ⟨k, result, ends, le, within, -⟩ := exists_endsAfter_runLimited handler p n
  obtain ⟨rfl, rfl⟩ := h.unique within
  obtain ⟨finishes, rfl⟩ := ends.counts count rfl
  have fits : p.1.cycles.toNat + k < 2 ^ 64 := by omega
  rw [toNat_cycles_course finishes fits, toNat_toUInt64_of_room fits]

end

/-- A bounded run can be split anywhere, into any number of parts: the whole is one part and then
the other, as dialogues and so on every console, the counts add up without wrapping around, and runs
of one step each are one run of them all. -/
theorem split_anywhere (m : Machine) :
    (∀ first second : UInt64,
      m.runLimited (saturated (first.toNat + second.toNat)) =
        m.runLimited first >>= continued fun m => m.runLimited second) ∧
    (∀ {σ : Type} (console : Console σ) (state : σ) (first second count later : UInt64) (q r),
      ReturnsWithin console.handler (m, state) first (.ok count) q →
        ReturnsWithin console.handler q second (.ok later) r →
          (count + later).toNat = count.toNat + later.toNat) ∧
    ∀ n : UInt64, runInParts (List.replicate n.toNat 1) m = m.runLimited n := by
  refine ⟨?_, ?_, fun n => runInParts_ones n m⟩
  · intro first second
    exact runLimited_append (toNat_saturated _)
  · intro σ console state first second count later q r before after
    have start := toNat_cycles_of_returnsWithin before
    have last := toNat_cycles_of_returnsWithin after
    have bound := r.1.cycles.toNat_lt
    rw [UInt64.toNat_add]
    omega

end Machine

end LittleComputer
