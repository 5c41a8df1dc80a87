import LittleComputer.Exchange

/-!
# JSON forms read back

A type is exchanged without loss if the JSON form of each of its values is read as that value.
Numbers are, as they are in range, and so are lists of what is. The members of a record are
found by their names as long as no name is given twice.
-/

namespace LittleComputer

namespace Exchange

/-- The JSON form of a value is read as the value. -/
class Lossless (α : Type) [Exchange α] : Prop where
  ofJson?_toJson (value : α) : ofJson? (toJson value) = some value

export Lossless (ofJson?_toJson)

theorem naturalBelow?_of_lt {bound n : Nat} (h : n < bound) :
    naturalBelow? bound (.integer n) = some n := by
  have inside : (0 : Int) ≤ n ∧ (n : Int) < bound := by omega
  rw [naturalBelow?, if_pos inside, Int.toNat_natCast]

instance : Lossless UInt16 where
  ofJson?_toJson w := by
    show (naturalBelow? UInt16.size (.integer w.toNat)).map Nat.toUInt16 = some w
    rw [naturalBelow?_of_lt w.toNat_lt, Option.map_some, Nat.toUInt16, UInt16.ofNat_toNat]

instance : Lossless UInt64 where
  ofJson?_toJson n := by
    show (naturalBelow? UInt64.size (.integer n.toNat)).map Nat.toUInt64 = some n
    rw [naturalBelow?_of_lt n.toNat_lt, Option.map_some, Nat.toUInt64, UInt64.ofNat_toNat]

instance : Lossless Flag where
  ofJson?_toJson flag := by cases flag <;> rfl

/-- Reading items one by one gives what each of them is read as. -/
theorem mapM_of_forall {α β : Type} {read : α → Option β} (meant : α → β) {items : List α}
    (h : ∀ item ∈ items, read item = some (meant item)) :
    items.mapM read = some (items.map meant) := by
  induction items with
  | nil => rfl
  | cons item items ih =>
    obtain ⟨first, rest⟩ := List.forall_mem_cons.mp h
    rw [List.mapM_cons, first, ih rest]
    rfl

/-- Reading what was written item by item gives the items. -/
theorem mapM_map {α β : Type} {write : α → β} {read : β → Option α}
    (h : ∀ item, read (write item) = some item) (items : List α) :
    (items.map write).mapM read = some items := by
  have each : ∀ item ∈ items, (read ∘ write) item = some (id item) := fun item _ => h item
  rw [List.mapM_map, mapM_of_forall id each, List.map_id]

instance {α : Type} [Exchange α] [Lossless α] : Lossless (List α) where
  ofJson?_toJson items := mapM_map ofJson?_toJson items

end Exchange

namespace Json

variable {members : List (String × Json)}

theorem filter_name (distinct : (members.map Prod.fst).Nodup) {m : String × Json}
    (mem : m ∈ members) :
    (members.map fun m => (some m.1, m.2)).filter (fun other => other.1 == some m.1) =
      [(some m.1, m.2)] := by
  induction members with
  | nil => cases mem
  | cons first rest ih =>
    obtain ⟨new, distinct⟩ := List.nodup_cons.mp distinct
    rcases List.mem_cons.mp mem with rfl | later
    · have others : (rest.map fun m => (some m.1, m.2)).filter (fun other => other.1 == some m.1) =
          [] := by
        rw [List.filter_eq_nil_iff]
        intro other there same
        obtain ⟨member, isMember, rfl⟩ := List.mem_map.mp there
        obtain same : member.1 = m.1 := by simpa using same
        exact new (List.mem_map.mpr ⟨member, isMember, same⟩)
      rw [List.map_cons, List.filter_cons_of_pos (by simp), others]
    · have other : first.1 ≠ m.1 := by
        intro same
        exact new (List.mem_map.mpr ⟨m, later, same.symm⟩)
      rw [List.map_cons, List.filter_cons_of_neg (by simpa using other), ih distinct later]

/-- The members of a record are found by their names. -/
theorem members?_record (members chosen : List (String × Json))
    (distinct : (members.map Prod.fst).Nodup) (subset : chosen ⊆ members) :
    (record members).members? (chosen.map Prod.fst) = some (chosen.map Prod.snd) := by
  have named : ((members.map fun m => ((some m.1 : Option String), m.2)).all
      fun m => m.1.isSome) = true := by simp
  rw [record, members?, if_pos named]
  induction chosen with
  | nil => rfl
  | cons m rest ih =>
    obtain ⟨mem, subset⟩ := List.cons_subset.mp subset
    rw [List.map_cons, List.mapM_cons, filter_name distinct mem, ih subset]
    rfl

/-- The fields of a record are its members. -/
theorem fields?_record (members : List (String × Json))
    (distinct : (members.map Prod.fst).Nodup) :
    (record members).fields? (members.map Prod.fst) = some (members.map Prod.snd) :=
  fields?_of_members? (members?_record members members distinct (List.Subset.refl _))

end Json

open Exchange

theorem eightWords?_toJson (words : Vector Word 8) :
    eightWords? (toJson words.toList) = some words := by
  obtain ⟨⟨items⟩, size⟩ := words
  rw [eightWords?, ofJson?_toJson]
  exact dif_pos size

instance : Lossless Registers where
  ofJson?_toJson regs := by
    have names : ["r", "pc", "cond"].Nodup := by decide
    have fields : (toJson regs).fields? ["r", "pc", "cond"] =
        some [toJson regs.general.toList, toJson regs.pc, toJson regs.cond] :=
      Json.fields?_record [("r", _), ("pc", _), ("cond", _)] names
    show ((toJson regs).fields? ["r", "pc", "cond"]).bind _ = some regs
    simp only [fields, Option.bind_some, Option.bind_eq_bind, eightWords?_toJson, ofJson?_toJson]
    rfl

end LittleComputer
