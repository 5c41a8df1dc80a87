import LittleComputer.Word

/-!
# Memory

Cells of one word each. A machine has 65536 of them, so that every word is an address; a
memory read from a record may have any other number, and then a cell that is not there reads
as zero and keeps nothing. A program is put into consecutive cells, never past the top.
-/

namespace LittleComputer

/-- A sequence of cells, addressed from zero. -/
structure Memory where
  cells : Array Word
  deriving DecidableEq

/-- A program that does not fit between its origin and the top of memory. -/
structure ProgramTooLarge where
  /-- The number of words of the program. -/
  size : Nat
  /-- The number of cells from the origin upwards. -/
  available : Nat
  deriving DecidableEq, Repr

def ProgramTooLarge.message (e : ProgramTooLarge) : String :=
  "program size " ++ e.size.repr ++ " exceeds available space " ++ e.available.repr

namespace Memory

def size : Nat := 65536

/-- The address kept for the state of a keyboard; an ordinary cell. -/
def keyboardStatus : Word := 0xFE00

/-- The address kept for the data of a keyboard; an ordinary cell. -/
def keyboardData : Word := 0xFE02

def initial : Memory := ⟨Array.replicate size 0⟩

@[inline] def read (mem : Memory) (address : Word) : Word := mem.cells.getD address.toNat 0

@[inline] def write (mem : Memory) (address value : Word) : Memory :=
  ⟨mem.cells.setIfInBounds address.toNat value⟩

def clear (mem : Memory) : Memory := ⟨mem.cells.map fun _ => 0⟩

/-- Put the words of a program into the cells from an origin upwards. -/
def load (mem : Memory) (origin : Word) (program : Array Word) : Except ProgramTooLarge Memory :=
  let start := origin.toNat
  if program.size ≤ size - start then
    .ok ⟨mem.cells.mapIdx fun i old => if start ≤ i then program.getD (i - start) old else old⟩
  else
    .error ⟨program.size, size - start⟩

/-- The cells that do not hold zero, with their addresses, in the order of addresses. -/
def occupied (mem : Memory) : List (Word × Word) :=
  (List.range mem.cells.size).filterMap fun i =>
    let value := mem.cells.getD i 0
    if value = 0 then none else some (i.toUInt16, value)

/-- The number of cells from an address up to the first zero cell, going on at address zero
after the top; the second argument counts the cells passed and the last bounds the search. -/
def distanceToZero (mem : Memory) (start : Word) (passed : Nat) : Nat → Nat
  | 0 => passed
  | fuel + 1 =>
    if mem.read (start + passed.toUInt16) = 0 then passed
    else mem.distanceToZero start (passed + 1) fuel

/-- The length of the string at an address: up to the first zero cell, wrapping at the top and
reading no cell twice. -/
def stringLength (mem : Memory) (start : Word) : Nat := mem.distanceToZero start 0 size

def stringAt (mem : Memory) (start : Word) : List Word :=
  (List.range (mem.stringLength start)).map fun k => mem.read (start + k.toUInt16)

/-- All cells, from an address upwards and on from the bottom. -/
def cellsFrom (mem : Memory) (start : Word) : List Word :=
  (List.range size).map fun k => mem.read (start + k.toUInt16)

@[simp] theorem length_cellsFrom (mem : Memory) (start : Word) :
    (mem.cellsFrom start).length = size := by
  simp [cellsFrom]

theorem distanceToZero_eq (mem : Memory) (start : Word) (passed fuel : Nat) :
    mem.distanceToZero start passed fuel = passed +
      (((List.range' passed fuel).map fun k => mem.read (start + k.toUInt16)).takeWhile
        (· ≠ 0)).length := by
  induction fuel generalizing passed with
  | zero => rfl
  | succ fuel ih =>
    rw [distanceToZero, List.range'_succ, List.map_cons]
    by_cases zero : mem.read (start + passed.toUInt16) = 0
    · rw [if_pos zero, List.takeWhile_cons_of_neg (by simp [zero])]
      rfl
    · rw [if_neg zero, ih, List.takeWhile_cons_of_pos (by simp [zero]), List.length_cons]
      omega

theorem stringLength_eq (mem : Memory) (start : Word) :
    mem.stringLength start = ((mem.cellsFrom start).takeWhile (· ≠ 0)).length := by
  rw [stringLength, distanceToZero_eq, ← List.range_eq_range', Nat.zero_add]
  rfl

/-- A string is what stands before the first zero in the cells from its address on. -/
theorem stringAt_eq (mem : Memory) (start : Word) :
    mem.stringAt start = (mem.cellsFrom start).takeWhile (· ≠ 0) := by
  -- A prefix is the cells up to its length, and that is the length of the string.
  have before : (mem.cellsFrom start).takeWhile (· ≠ 0) <+: mem.cellsFrom start :=
    List.takeWhile_prefix _
  have short : mem.stringLength start ≤ size := by
    rw [stringLength_eq, ← mem.length_cellsFrom start]
    exact before.length_le
  rw [List.prefix_iff_eq_take.mp before, ← stringLength_eq, cellsFrom, ← List.map_take,
    List.take_range, Nat.min_eq_left short, stringAt]

@[simp] theorem read_initial (address : Word) : initial.read address = 0 := by
  have inside : address.toNat < (Array.replicate size (0 : Word)).size := by
    rw [Array.size_replicate]
    exact address.toNat_lt
  simp only [read, initial, Array.getD_eq_getD_getElem?, Array.getElem?_eq_getElem inside,
    Array.getElem_replicate, Option.getD_some]

@[simp] theorem size_initial : initial.cells.size = size := Array.size_replicate

@[simp] theorem size_write (mem : Memory) (address value : Word) :
    (mem.write address value).cells.size = mem.cells.size := by
  simp [write]

@[simp] theorem size_clear (mem : Memory) : mem.clear.cells.size = mem.cells.size := by
  simp [clear]

theorem read_write (mem : Memory) (a b value : Word) (full : mem.cells.size = size) :
    (mem.write a value).read b = if a = b then value else mem.read b := by
  have bound := a.toNat_lt
  simp only [read, write, Array.getD_eq_getD_getElem?, Array.getElem?_setIfInBounds]
  by_cases same : a = b
  · subst same
    have inside : a.toNat < mem.cells.size := by rw [full]; exact bound
    simp [inside]
  · have apart : a.toNat ≠ b.toNat := fun h => same (UInt16.toNat.inj h)
    simp [same, apart]

@[simp] theorem read_clear (mem : Memory) (address : Word) : mem.clear.read address = 0 := by
  simp only [read, clear, Array.getD_eq_getD_getElem?, Array.getElem?_map]
  cases mem.cells[address.toNat]? <;> rfl

theorem load_eq_ok {mem loaded : Memory} {origin : Word} {program : Array Word}
    (h : mem.load origin program = .ok loaded) :
    loaded.cells = mem.cells.mapIdx fun i old =>
      if origin.toNat ≤ i then program.getD (i - origin.toNat) old else old := by
  by_cases fits : program.size ≤ size - origin.toNat
  · simp only [load, fits, if_true] at h
    cases h
    rfl
  · simp [load, fits] at h

theorem size_load {mem loaded : Memory} {origin : Word} {program : Array Word}
    (h : mem.load origin program = .ok loaded) : loaded.cells.size = mem.cells.size := by
  rw [load_eq_ok h, Array.size_mapIdx]

theorem read_load {mem loaded : Memory} {origin : Word} {program : Array Word}
    (h : mem.load origin program = .ok loaded) (full : mem.cells.size = size) (address : Word) :
    loaded.read address =
      if origin.toNat ≤ address.toNat then
        program.getD (address.toNat - origin.toNat) (mem.read address)
      else mem.read address := by
  have inside : address.toNat < mem.cells.size := by
    rw [full]
    exact address.toNat_lt
  simp only [read, load_eq_ok h, Array.getD_eq_getD_getElem?, Array.getElem?_mapIdx,
    Array.getElem?_eq_getElem inside, Option.map_some, Option.getD_some]

theorem load_isOk_iff (mem : Memory) (origin : Word) (program : Array Word) :
    (mem.load origin program).isOk = true ↔ origin.toNat + program.size ≤ size := by
  have bound := origin.toNat_lt
  by_cases fits : program.size ≤ size - origin.toNat
  · simp only [load, fits, if_true, Except.isOk, Except.toBool, true_iff]
    simp only [size] at fits ⊢
    omega
  · simp only [load, fits, if_false, Except.isOk, Except.toBool, Bool.false_eq_true, false_iff]
    simp only [size] at fits ⊢
    omega

theorem ext_read {mem mem' : Memory} (full : mem.cells.size = size)
    (full' : mem'.cells.size = size)
    (cells : ∀ address, mem.read address = mem'.read address) : mem = mem' := by
  obtain ⟨cells₁⟩ := mem
  obtain ⟨cells₂⟩ := mem'
  have same : cells₁ = cells₂ := by
    apply Array.ext (full.trans full'.symm)
    intro i bound bound'
    have small : i < 65536 := Nat.lt_of_lt_of_eq bound full
    have address : i.toUInt16.toNat = i := Nat.mod_eq_of_lt small
    have here := cells i.toUInt16
    simpa [read, address, Array.getD_eq_getD_getElem?, bound, bound'] using here
  rw [same]

end Memory

end LittleComputer
