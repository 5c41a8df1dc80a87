import LittleComputer.Proofs.Halting
import LittleComputer.Proofs.Split

/-!
# The budget of a bounded run

A bounded run has a budget of steps: its limit, or what is left of the counter if that is less.
Its loop ends by itself within the budget, so the fuel it is given never cuts it short. The
counter grows by one for every finished step and for no other, whether the run ends well or
with a fault, and no step of it begins with the counter at its largest value.
-/

namespace LittleComputer

namespace Machine

theorem stepsBelow_of_reached {limit : UInt64} {m : Machine} (fuel : Nat)
    (reached : m.cycles = limit) : stepsBelow limit fuel m = .done (.ok (), m) := by
  have stop : ¬ (m.state = .running ∧ m.cycles < limit) := by
    rintro ⟨-, below⟩
    rw [reached] at below
    exact UInt64.lt_irrefl limit below
  cases fuel with
  | zero => rfl
  | succ fuel =>
    rw [stepsBelow, if_neg stop]
    rfl

/-- The loop of a bounded run ends by itself within the budget: more fuel changes nothing. -/
theorem runLimited_of_fuel {m : Machine} {n : UInt64} {fuel : Nat}
    (enough : m.allowance n ≤ fuel) :
    counted m.cycles <$> stepsBelow (limitAfter m.cycles n) fuel m = m.runLimited n := by
  have ended : ∀ m' : Machine, m'.state = .halted ∨ m'.cycles = limitAfter m.cycles n →
      .done (.ok (), m') = stepsBelow (limitAfter m.cycles n) (fuel - m.allowance n) m' := by
    rintro m' (halted | reached)
    · exact (stepsBelow_of_halted _ _ m' halted).symm
    · exact (stepsBelow_of_reached _ reached).symm
  have split := stepsBelow_split (UInt64.le_refl _) ended m (m.toNat_limitAfter n).symm
  have loop : stepsBelow (limitAfter m.cycles n) fuel m =
      stepsBelow (limitAfter m.cycles n) (m.allowance n) m := by
    rw [Nat.add_sub_cancel' enough] at split
    rw [split]
    refine Eq.trans ?_ (Dialogue.andThen_done _)
    congr 1
    funext answer
    obtain ⟨_ | _, m'⟩ := answer
    · rfl
    · rfl
  rw [loop, runLimited, limitAfter_sub]

section
variable {σ : Type} {handler : Handler Channel σ} {p q : Machine × σ} {k : Nat} {n : UInt64}

/-- The number of finished steps among the first `k`. -/
def finishedWithin (handler : Handler Channel σ) (p : Machine × σ) (k : Nat) : Nat :=
  (List.range k).countP fun j => (resultAt handler p j).isOk

theorem finishedWithin_succ :
    finishedWithin handler p (k + 1) =
      finishedWithin handler p k + if (resultAt handler p k).isOk then 1 else 0 := by
  rw [finishedWithin, List.range_succ, List.countP_append, List.countP_singleton]
  rfl

theorem finishedWithin_of_finishes (h : Finishes handler p k) : finishedWithin handler p k = k := by
  induction k with
  | zero => rfl
  | succ k ih =>
    obtain ⟨before, i, last⟩ := finishes_succ_iff.mp h
    rw [finishedWithin_succ, ih before, last]
    rfl

theorem finishedWithin_of_failsAfter {fault : IoError} (h : FailsAfter handler p k fault) :
    finishedWithin handler p (k + 1) = k := by
  rw [finishedWithin_succ, finishedWithin_of_finishes h.1, h.2]
  rfl

/-- What a bounded run that makes so many steps does with its budget. -/
structure Spends (handler : Handler Channel σ) (p : Machine × σ) (n : UInt64) (made : Nat)
    (result : Except StepError UInt64) (last : Machine × σ) : Prop where
  /-- The run is made of so many steps and fetches a word in each of them. -/
  answer : ReturnsWithin handler p n result last
  reached : last = course handler p made
  fetched : (fetches ((p.1.runLimited n).turns handler p.2)).length = made
  /-- The finished steps are within the budget, and one more is made only if it fails. -/
  within : finishedWithin handler p made ≤ min n.toNat (2 ^ 64 - 1 - p.1.cycles.toNat)
  failing : made = finishedWithin handler p made + if result.isOk then 0 else 1
  /-- Where a step begins, the counter has room for one more. -/
  room : ∀ j < made, (course handler p j).1.cycles.toNat + 1 < 2 ^ 64
  /-- The counter has grown by the finished steps, -/
  cycles : last.1.cycles.toNat = p.1.cycles.toNat + finishedWithin handler p made
  /-- and a count is their number, -/
  counts : ∀ count, result = .ok count → count.toNat = finishedWithin handler p made
  /-- which is the whole budget unless the machine has stopped. -/
  ended : ∀ count, result = .ok count → p.1.state = .running →
    last.1.state = .halted ∧ 1 ≤ count.toNat ∨
      last.1.state = .running ∧ count.toNat = min n.toNat (2 ^ 64 - 1 - p.1.cycles.toNat)

theorem length_fetches_transcript (lasts : ∀ j < k, LastsFor handler p j) :
    (fetches (transcript handler p k)).length = k := by
  simp [fetches_transcript fun j lt => (lasts j lt).2]

theorem room_of_finishes (h : Finishes handler p k) (room : p.1.cycles.toNat + k < 2 ^ 64 - 1) :
    (course handler p k).1.cycles.toNat + 1 < 2 ^ 64 := by
  rw [toNat_cycles_course h (by omega)]
  omega

/-- A bounded run that ends well has used up its budget or stopped the machine. -/
theorem spends_of_finishes (h : Finishes handler p k) (fits : k ≤ p.1.allowance n)
    (ended : (course handler p k).1.state = .halted ∨ k = p.1.allowance n) :
    Spends handler p n k (.ok k.toUInt64) (course handler p k) := by
  have budget := p.1.allowance_room n
  have small : p.1.cycles.toNat + k < 2 ^ 64 := by omega
  have number : k.toUInt64.toNat = k := toNat_toUInt64_of_room small
  have finished := finishedWithin_of_finishes h
  refine ⟨runLimited_of_finishes h fits ended, rfl, ?_, ?_, ?_, ?_, ?_, ?_, ?_⟩
  · rw [turns_runLimited_of_finishes h fits ended]
    exact length_fetches_transcript fun j lt => h.lastsFor lt
  · rw [finished]
    exact fits
  · rw [finished]
    rfl
  · intro j lt
    exact room_of_finishes (h.le (Nat.le_of_lt lt)) (by omega)
  · rw [finished]
    exact toNat_cycles_course h small
  · rintro _ ⟨⟩
    rw [finished, number]
  · rintro _ ⟨⟩ running
    rw [number]
    cases state : (course handler p k).1.state with
    | halted =>
      have some : k ≠ 0 := by
        rintro rfl
        simp [running] at state
      exact Or.inl ⟨rfl, Nat.one_le_iff_ne_zero.mpr some⟩
    | running =>
      rw [state] at ended
      exact Or.inr ⟨rfl, ended.resolve_left nofun⟩

/-- A bounded run that fails has made one step more than it has finished. -/
theorem spends_of_failsAfter {fault : IoError} (h : FailsAfter handler p k fault)
    (fits : k < p.1.allowance n) :
    Spends handler p n (k + 1) (.error (.console fault)) (course handler p (k + 1)) := by
  have budget := p.1.allowance_room n
  have finished := finishedWithin_of_failsAfter h
  refine ⟨runLimited_of_failsAfter h fits, rfl, ?_, ?_, ?_, ?_, ?_, nofun, nofun⟩
  · rw [turns_runLimited_of_failsAfter h fits]
    exact length_fetches_transcript h.endsAfter.lasts
  · rw [finished]
    exact Nat.le_of_lt fits
  · rw [finished]
    rfl
  · intro j lt
    exact room_of_finishes (h.1.le (Nat.le_of_lt_succ lt)) (by omega)
  · rw [finished]
    exact h.toNat_cycles (by omega)

/-- Every bounded run keeps to its budget. -/
theorem exists_spends (handler : Handler Channel σ) (p : Machine × σ) (n : UInt64) :
    ∃ made result last, Spends handler p n made result last := by
  obtain ⟨k, result, stops⟩ := exists_stopsAt handler p n
  cases stops with
  | finished finishes fits ended => exact ⟨k, _, _, spends_of_finishes finishes fits ended⟩
  | refused fails fits => exact ⟨_, _, _, spends_of_failsAfter fails fits⟩

end

/-- A bounded run ends by itself and keeps to its budget, on every console and from every count: no
fuel beyond the budget is of any use, and the limit of the loop is the sum of both, cut off where
the counter ends. -/
theorem budget_of_runLimited {σ : Type} (console : Console σ) (m : Machine) (state : σ)
    (n : UInt64) :
    (∀ fuel, min n.toNat (2 ^ 64 - 1 - m.cycles.toNat) ≤ fuel →
      counted m.cycles <$> stepsBelow (limitAfter m.cycles n) fuel m = m.runLimited n) ∧
    (limitAfter m.cycles n).toNat = min (m.cycles.toNat + n.toNat) (2 ^ 64 - 1) ∧
    ∃ made result last, Spends console.handler (m, state) n made result last := by
  refine ⟨fun fuel enough => runLimited_of_fuel enough, ?_, exists_spends _ (m, state) n⟩
  have bound := m.cycles.toNat_lt
  rw [toNat_limitAfter, allowance]
  omega

end Machine

end LittleComputer
