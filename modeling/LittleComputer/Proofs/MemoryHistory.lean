import LittleComputer.Memory

/-!
# Memory over its history

Whatever is written, loaded and cleared, a memory is the total map that remembers for each
address what was put there last. A program that would go past the top is refused and leaves no
trace. The listing of the occupied cells shows this map: each address once, in order, with what
is read there. So a memory can be filled again from its listing, cell by cell in any order.
-/

namespace LittleComputer.Memory

/-- What can be done to a memory. -/
inductive Operation where
  | write (address value : Word)
  | load (origin : Word) (program : Array Word)
  | clear

/-- Carry out an operation; a program that is refused changes nothing. -/
def perform (mem : Memory) : Operation → Except ProgramTooLarge Unit × Memory
  | .write address value => (.ok (), mem.write address value)
  | .load origin program =>
    match mem.load origin program with
    | .ok loaded => (.ok (), loaded)
    | .error refusal => (.error refusal, mem)
  | .clear => (.ok (), mem.clear)

/-- The memory after some operations. -/
def after (mem : Memory) (history : List Operation) : Memory :=
  history.foldl (fun mem operation => (mem.perform operation).2) mem

/-- What an operation puts at an address, if it covers the address. A program covers the addresses
from its origin up to its length, unless it is refused. -/
def Operation.put? (address : Word) : Operation → Option Word
  | write a value => if a = address then some value else none
  | load origin program =>
    if origin.toNat + program.size ≤ size ∧ origin.toNat ≤ address.toNat then
      program[address.toNat - origin.toNat]?
    else none
  | clear => some 0

/-- The operation that puts a listed cell back. -/
def Operation.ofCell (cell : Word × Word) : Operation := write cell.1 cell.2

theorem load_of_fits (mem : Memory) {origin : Word} {program : Array Word}
    (fits : origin.toNat + program.size ≤ size) :
    ∃ loaded, mem.load origin program = .ok loaded := by
  have ok := (mem.load_isOk_iff origin program).mpr fits
  cases h : mem.load origin program with
  | ok loaded => exact ⟨loaded, rfl⟩
  | error refusal =>
    rw [h] at ok
    cases ok

theorem load_of_too_large (mem : Memory) {origin : Word} {program : Array Word}
    (large : size < origin.toNat + program.size) :
    mem.load origin program = .error ⟨program.size, size - origin.toNat⟩ := by
  have unfit : ¬ program.size ≤ size - origin.toNat := by
    have bound := origin.toNat_lt
    simp only [size] at large ⊢
    omega
  simp only [load, if_neg unfit]

theorem after_cons (mem : Memory) (operation : Operation) (history : List Operation) :
    mem.after (operation :: history) = (mem.perform operation).2.after history := rfl

theorem size_perform (mem : Memory) (operation : Operation) :
    (mem.perform operation).2.cells.size = mem.cells.size := by
  cases operation with
  | write address value => exact size_write mem address value
  | clear => exact size_clear mem
  | load origin program =>
    rw [perform]
    cases h : mem.load origin program with
    | ok loaded => exact size_load h
    | error refusal => rfl

/-- After an operation an address holds what the operation put there, or what it held before. -/
theorem read_perform {mem : Memory} (full : mem.cells.size = size) (operation : Operation)
    (address : Word) :
    (mem.perform operation).2.read address =
      (operation.put? address).getD (mem.read address) := by
  cases operation with
  | write a value =>
    rw [perform, read_write mem a address value full, Operation.put?]
    split <;> rfl
  | clear => exact read_clear mem address
  | load origin program =>
    by_cases fits : origin.toNat + program.size ≤ size
    · obtain ⟨loaded, h⟩ := mem.load_of_fits fits
      simp only [perform, h, read_load h full, Operation.put?, fits, true_and,
        Array.getD_eq_getD_getElem?]
      split <;> rfl
    · simp only [perform, mem.load_of_too_large (Nat.lt_of_not_le fits), Operation.put?, fits,
        false_and, if_false, Option.getD_none]

theorem size_after (mem : Memory) (history : List Operation) :
    (mem.after history).cells.size = mem.cells.size := by
  induction history generalizing mem with
  | nil => rfl
  | cons operation history ih => rw [after_cons, ih, size_perform]

/-- After some operations an address holds what was put there last, or what it held before. -/
theorem read_after {mem : Memory} (full : mem.cells.size = size) (history : List Operation)
    (address : Word) :
    (mem.after history).read address =
      (history.filterMap (Operation.put? address)).getLast?.getD (mem.read address) := by
  induction history generalizing mem with
  | nil => rfl
  | cons operation history ih =>
    rw [after_cons, ih ((mem.size_perform operation).trans full), read_perform full]
    cases h : operation.put? address with
    | none => rw [List.filterMap_cons_none h, Option.getD_none]
    | some value =>
      rw [List.filterMap_cons_some h, List.getLast?_cons, Option.getD_some]
      rfl

section
variable {mem : Memory} (full : mem.cells.size = size)

include full

/-- The listing shows what is read, wherever it is not zero. -/
theorem mem_occupied_iff (address value : Word) :
    (address, value) ∈ mem.occupied ↔ value ≠ 0 ∧ mem.read address = value := by
  rw [occupied, List.mem_filterMap]
  constructor
  · rintro ⟨i, inside, listed⟩
    have small : i < 65536 := Nat.lt_of_lt_of_eq (List.mem_range.mp inside) full
    have here : i.toUInt16.toNat = i := Nat.mod_eq_of_lt small
    by_cases zero : mem.cells.getD i 0 = 0
    · simp [zero] at listed
    · simp only [if_neg zero, Option.some.injEq, Prod.mk.injEq] at listed
      obtain ⟨rfl, rfl⟩ := listed
      exact ⟨zero, by rw [read, here]⟩
  · rintro ⟨occupied, rfl⟩
    refine ⟨address.toNat, List.mem_range.mpr ?_, ?_⟩
    · rw [full]
      exact address.toNat_lt
    · rw [read] at occupied ⊢
      rw [if_neg occupied, Nat.toUInt16, UInt16.ofNat_toNat]

/-- The listing goes through the addresses once, from the lowest to the highest. -/
theorem pairwise_occupied : mem.occupied.Pairwise fun a b => a.1 < b.1 := by
  have upwards : (List.range mem.cells.size).Pairwise fun i j => i < j ∧ j < 65536 := by
    refine List.pairwise_lt_range.imp_of_mem ?_
    intro i j _ inside lt
    exact ⟨lt, Nat.lt_of_lt_of_eq (List.mem_range.mp inside) full⟩
  refine upwards.filterMap _ ?_
  rintro i j ⟨lt, small⟩ a listed b listed'
  simp only [Option.ite_none_left_eq_some, Option.some.injEq] at listed listed'
  obtain ⟨-, rfl⟩ := listed
  obtain ⟨-, rfl⟩ := listed'
  have low : i.toUInt16.toNat = i := Nat.mod_eq_of_lt (Nat.lt_trans lt small)
  have high : j.toUInt16.toNat = j := Nat.mod_eq_of_lt small
  rw [UInt16.lt_iff_toNat_lt, low, high]
  exact lt

/-- A memory is filled again from its listing, in any order of the cells. -/
theorem after_listing {listing : List (Word × Word)} (same : listing.Perm mem.occupied) :
    initial.after (listing.map Operation.ofCell) = mem := by
  refine ext_read ((size_after _ _).trans size_initial) full fun address => ?_
  rw [read_after size_initial, read_initial]
  have listed (value : Word) :
      value ∈ (listing.map Operation.ofCell).filterMap (Operation.put? address) ↔
        value ≠ 0 ∧ mem.read address = value := by
    rw [← mem_occupied_iff full, ← same.mem_iff]
    simp [Operation.ofCell, Operation.put?]
  cases last : ((listing.map Operation.ofCell).filterMap (Operation.put? address)).getLast? with
  | some value => exact ((listed value).mp (List.mem_of_getLast? last)).2.symm
  | none =>
    by_cases zero : mem.read address = 0
    · rw [zero]
      rfl
    · have there := (listed (mem.read address)).mpr ⟨zero, rfl⟩
      rw [List.getLast?_eq_none_iff.mp last] at there
      cases there

theorem eq_of_occupied_eq {other : Memory} (full' : other.cells.size = size)
    (same : other.occupied = mem.occupied) : other = mem := by
  rw [← after_listing full' (List.Perm.refl _), ← after_listing full (List.Perm.refl _), same]

end

theorem occupied_initial : initial.occupied = [] := by
  refine List.eq_nil_iff_forall_not_mem.mpr fun (address, value) mem => ?_
  obtain ⟨nonzero, holds⟩ := (mem_occupied_iff size_initial address value).mp mem
  exact nonzero (holds.symm.trans (read_initial address))

/-- A memory is a total map over its whole history. A program is refused exactly if it would go past
the top, and then nothing changes; all the cells are there, and each holds what was put there last.
The listing shows each address that does not hold zero, once and in order, so a fresh memory is
filled from it in any order, and no other memory has this listing. -/
theorem total_map_of_history (history : List Operation) :
    (∀ origin program,
      (65536 < origin.toNat + program.size →
        (initial.after history).perform (.load origin program) =
          (.error ⟨program.size, 65536 - origin.toNat⟩, initial.after history)) ∧
      (origin.toNat + program.size ≤ 65536 →
        ((initial.after history).perform (.load origin program)).1 = .ok ())) ∧
    (initial.after history).cells.size = 65536 ∧
    (∀ address, (initial.after history).read address =
      (history.filterMap (Operation.put? address)).getLast?.getD 0) ∧
    (∀ address value, (address, value) ∈ (initial.after history).occupied ↔
      value ≠ 0 ∧ (initial.after history).read address = value) ∧
    ((initial.after history).occupied.Pairwise fun a b => a.1 < b.1) ∧
    (∀ listing : List (Word × Word), listing.Perm (initial.after history).occupied →
      initial.after (listing.map Operation.ofCell) = initial.after history) ∧
    ∀ other : Memory, other.cells.size = 65536 →
      other.occupied = (initial.after history).occupied → other = initial.after history := by
  have full : (initial.after history).cells.size = size :=
    (size_after _ _).trans size_initial
  refine ⟨?_, full, ?_, mem_occupied_iff full, pairwise_occupied full, ?_, ?_⟩
  · intro origin program
    constructor
    · intro large
      rw [perform, load_of_too_large _ large]
      rfl
    · intro fits
      obtain ⟨loaded, h⟩ := (initial.after history).load_of_fits fits
      rw [perform, h]
  · intro address
    simp [read_after size_initial]
  · intro listing same
    exact after_listing full same
  · intro other full' same
    exact eq_of_occupied_eq full full' same

end LittleComputer.Memory
