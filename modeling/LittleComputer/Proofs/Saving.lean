import LittleComputer.Proofs.ExchangeReading
import LittleComputer.Proofs.JsonReading
import LittleComputer.Proofs.Split

/-!
# Machines saved as text

The compact text of a machine or an instruction is read as that machine or instruction,
whatever its fields hold. So a text stands for one value only, and a machine may be saved and
read again at any point of a run: what goes on from the text is what would have gone on without
it.
-/

namespace LittleComputer

namespace Exchange

instance : Lossless UInt8 where
  ofJson?_toJson b := by
    show (naturalBelow? UInt8.size (.integer b.toNat)).map Nat.toUInt8 = some b
    rw [naturalBelow?_of_lt b.toNat_lt, Option.map_some, Nat.toUInt8, UInt8.ofNat_toNat]

instance : Lossless Int16 where
  ofJson?_toJson v := by
    have low := v.le_toInt
    have high := v.toInt_lt
    have inside : -32768 ≤ v.toInt ∧ v.toInt < 32768 := by omega
    show (if -32768 ≤ v.toInt ∧ v.toInt < 32768 then some (Int16.ofInt v.toInt) else none) = some v
    rw [if_pos inside, Int16.ofInt_toInt]

instance : Lossless RunState where
  ofJson?_toJson state := by cases state <;> rfl

theorem variant?_variant (name : String) (contents : Json) :
    (variant name contents).variant? = some (name, contents) := rfl

/-! Variants are read by their names, and their contents by their types. -/

theorem ofJson?_operand (contents : Json) :
    ofJson? (variant "Register" contents) = (ofJson? contents).map Operand.register ∧
      ofJson? (variant "Immediate" contents) = (ofJson? contents).map Operand.immediate := by
  simp only [ofJson?, variant?_variant, Option.bind_eq_bind, Option.bind_some, Option.pure_def,
    Option.map_eq_bind, Function.comp_def, and_self]

theorem ofJson?_callTarget (contents : Json) :
    ofJson? (variant "Offset" contents) = (ofJson? contents).map CallTarget.offset ∧
      ofJson? (variant "Register" contents) = (ofJson? contents).map CallTarget.register := by
  simp only [ofJson?, variant?_variant, Option.bind_eq_bind, Option.bind_some, Option.pure_def,
    Option.map_eq_bind, Function.comp_def, and_self]

instance : Lossless Operand where
  ofJson?_toJson operand := by
    cases operand with
    | register number =>
      exact (ofJson?_operand _).1.trans (congrArg _ (ofJson?_toJson number))
    | immediate value =>
      exact (ofJson?_operand _).2.trans (congrArg _ (ofJson?_toJson value))

instance : Lossless CallTarget where
  ofJson?_toJson target := by
    cases target with
    | offset value =>
      exact (ofJson?_callTarget _).1.trans (congrArg _ (ofJson?_toJson value))
    | register number =>
      exact (ofJson?_callTarget _).2.trans (congrArg _ (ofJson?_toJson number))

end Exchange

open Exchange

/-! ## Instructions -/

namespace Instruction

theorem nodup_fieldNames (op : Opcode) : (fieldNames op).Nodup := by
  cases op <;> decide

theorem length_fieldValues (i : Instruction) :
    i.fieldValues.length = (fieldNames i.opcode).length := by
  cases i <;> rfl

/-- The fields of an instruction are found by their names. -/
theorem members?_fields (i : Instruction) :
    (Json.record ((fieldNames i.opcode).zip i.fieldValues)).members? (fieldNames i.opcode) =
      some i.fieldValues := by
  have names : ((fieldNames i.opcode).zip i.fieldValues).map Prod.fst = fieldNames i.opcode :=
    List.map_fst_zip (Nat.le_of_eq i.length_fieldValues.symm)
  have values : ((fieldNames i.opcode).zip i.fieldValues).map Prod.snd = i.fieldValues :=
    List.map_snd_zip (Nat.le_of_eq i.length_fieldValues)
  have found := Json.members?_record _ _ (names.symm ▸ nodup_fieldNames i.opcode)
    (List.Subset.refl _)
  rwa [names, values] at found

/-- An instruction is made again from its operation and its fields. -/
theorem ofFields?_fieldValues {i : Instruction} (fields : fieldNames i.opcode ≠ []) :
    ofFields? i.opcode i.fieldValues = some i := by
  cases i with
  | rti => exact absurd rfl fields
  | res => exact absurd rfl fields
  | _ =>
    simp only [ofFields?, opcode, fieldValues, ofJson?_toJson, Option.bind_eq_bind,
      Option.bind_some, Option.pure_def]

theorem ofVariant?_variant (fields? : List String → Json → Option (List Json)) {op : Opcode}
    (fields : fieldNames op ≠ []) (contents : Json) :
    ofVariant? fields? (variant op.name contents) =
      (fields? (fieldNames op) contents).bind (ofFields? op) := by
  have named : named? Opcode.all Opcode.name op.name = some op := by cases op <;> decide
  simp only [ofVariant?, variant?_variant, Option.bind_eq_bind, Option.bind_some, named]
  cases op with
  | rti => exact absurd rfl fields
  | res => exact absurd rfl fields
  | _ => rfl

theorem toJsonForm_of_fields {i : Instruction} (fields : fieldNames i.opcode ≠ []) :
    i.toJsonForm = variant i.opcode.name (.record ((fieldNames i.opcode).zip i.fieldValues)) := by
  cases i with
  | rti => exact absurd rfl fields
  | res => exact absurd rfl fields
  | _ => rfl

/-- Every instruction is read from its form, also by the stricter rule. -/
theorem ofNamedForm?_toJsonForm (i : Instruction) : ofNamedForm? i.toJsonForm = some i := by
  by_cases fields : fieldNames i.opcode = []
  · cases i with
    | rti => rfl
    | res => rfl
    | _ => cases fields
  · rw [ofNamedForm?, toJsonForm_of_fields fields, ofVariant?_variant _ fields, members?_fields,
      Option.bind_some, ofFields?_fieldValues fields]

end Instruction

instance : Lossless Instruction where
  ofJson?_toJson i := Instruction.ofJsonForm?_of_ofNamedForm? i.ofNamedForm?_toJsonForm

/-! ## Machines -/

instance : Lossless Memory where
  ofJson?_toJson mem := by
    have fields : (toJson mem).fields? ["cells"] = some [toJson mem.cells.toList] :=
      Json.fields?_record [("cells", _)] (List.nodup_singleton _)
    show ((toJson mem).fields? ["cells"]).bind _ = some mem
    simp only [fields, Option.bind_some, Option.bind_eq_bind, ofJson?_toJson]
    rfl

instance : Lossless Machine where
  ofJson?_toJson m := by
    have names : ["regs", "mem", "state", "cycles"].Nodup := by decide
    have fields : (toJson m).fields? ["regs", "mem", "state", "cycles"] =
        some [toJson m.regs, toJson m.mem, toJson m.state, toJson m.cycles] :=
      Json.fields?_record [("regs", _), ("mem", _), ("state", _), ("cycles", _)] names
    show ((toJson m).fields? ["regs", "mem", "state", "cycles"]).bind _ = some m
    simp only [fields, Option.bind_some, Option.bind_eq_bind, ofJson?_toJson]
    rfl

/-! ## Texts -/

section
variable {α : Type} [Exchange α] [Lossless α]

theorem ofText?_toText (value : α) : ofText? (toText value) = some value := by
  rw [ofText?, toText, Json.parse?_compact]
  exact ofJson?_toJson value

theorem toText_eq_iff {a b : α} : toText a = toText b ↔ a = b := by
  constructor
  · intro same
    have read := ofText?_toText a
    rw [same, ofText?_toText] at read
    exact (Option.some.inj read).symm
  · rintro rfl
    rfl

end

example : ofText? (α := Instruction) "\x7b\"Jmp\": [7]\x7d" = some (.jmp 7) := by decide

namespace Machine

/-- A bounded run of the machine that a text stands for; without an answer if it stands for none. -/
def resume (n : UInt64) (text : String) :
    Dialogue Channel (Option (Except StepError UInt64 × Machine)) :=
  match (ofText? text : Option Machine) with
  | some m => some <$> m.runLimited n
  | none => return none

theorem resume_toText (n : UInt64) (m : Machine) :
    resume n (toText m) = some <$> m.runLimited n := by
  rw [resume, ofText?_toText]

/-- After a run that was counted, another one adds up to a single run. -/
theorem returnsWithin_saturated {σ : Type} {handler : Handler Channel σ} {p q r : Machine × σ}
    {first second count : UInt64} {later : Except StepError UInt64}
    (before : ReturnsWithin handler p first (.ok count) q)
    (after : ReturnsWithin handler q second later r) :
    ReturnsWithin handler p (saturated (first.toNat + second.toNat)) (later.map (count + ·)) r := by
  rw [ReturnsWithin] at before after
  simp [ReturnsWithin, runLimited_append (toNat_saturated _), before, continued, after]

/-- Machines and instructions survive being saved as text: whatever their fields, they are read from
their texts, so a text stands for one of them only. A run from the text of a machine is a run of the
machine, as a dialogue. So on every console and after any first run, saving the machine between two
runs makes no difference, to the second run or to the one run that they make together. -/
theorem survives_saving :
    (∀ m : Machine, ofText? (toText m) = some m) ∧
    (∀ i : Instruction, ofText? (toText i) = some i) ∧
    (∀ a b : Machine, toText a = toText b ↔ a = b) ∧
    (∀ a b : Instruction, toText a = toText b ↔ a = b) ∧
    (∀ (m : Machine) (n : UInt64), resume n (toText m) = some <$> m.runLimited n) ∧
    ∀ {σ : Type} (console : Console σ) (m : Machine) (state : σ) (first second : UInt64),
      ∃ result q later r,
        ReturnsWithin console.handler (m, state) first result q ∧
        ReturnsWithin console.handler q second later r ∧
        (resume second (toText q.1)).interp console.handler q.2 = (some (later, r.1), r.2) ∧
        ∀ count, result = .ok count →
          ReturnsWithin console.handler (m, state) (saturated (first.toNat + second.toNat))
            (later.map (count + ·)) r := by
  refine ⟨ofText?_toText, ofText?_toText, fun _ _ => toText_eq_iff, fun _ _ => toText_eq_iff,
    fun m n => resume_toText n m, ?_⟩
  intro σ console m state first second
  rcases h : (m.runLimited first).interp console.handler state with ⟨⟨result, m'⟩, state'⟩
  rcases h' : (m'.runLimited second).interp console.handler state' with ⟨⟨later, m''⟩, state''⟩
  refine ⟨result, (m', state'), later, (m'', state''), h, h', ?_, ?_⟩
  · simp [resume_toText, h']
  · rintro count rfl
    exact returnsWithin_saturated (q := (m', state')) h h'

end Machine

end LittleComputer
