import LittleComputer.Proofs.DumpReading

/-!
# Dumps cut short

A sink takes a part of the bytes it is offered, and what is left is offered to it again. One that
has room for a number of bytes and then refuses has taken the start of what was written to it, as
long as its room, and its own fault ends the writing if there was more. It is the same for any
cut of the bytes into texts, so it is so for a dump in either format.
-/

namespace LittleComputer

/-- What bytes are offered to: it takes some of them from the front, or refuses. -/
abbrev Sink (σ : Type) : Type := List Byte → σ → Except IoError Nat × σ

namespace Sink

variable {σ : Type}

/-- The fault of a sink that takes nothing and yet does not refuse. -/
def nothingTaken : IoError := .other "failed to write whole buffer"

/-- Offer some bytes, and again what was left of them, until all are taken. -/
def writeAll (sink : Sink σ) (bytes : List Byte) (state : σ) : Except IoError Unit × σ :=
  match bytes with
  | [] => (.ok (), state)
  | byte :: rest =>
    match sink (byte :: rest) state with
    | (.ok 0, state) => (.error nothingTaken, state)
    | (.ok (more + 1), state) => sink.writeAll (rest.drop more) state
    | (.error fault, state) => (.error fault, state)
termination_by bytes.length

def handler (sink : Sink σ) : Handler Output σ
  | .put text, state => sink.writeAll text.toUTF8.data.toList state
  | .flush, state => (.ok (), state)

/-- A sink takes something whenever it has room, and refuses with a fault of its own when it has
none. A state of it holds the bytes taken so far and has room for a number of bytes more. -/
structure Limited (sink : Sink σ) (fault : IoError) (holds : σ → List Byte → Nat → Prop) :
    Prop where
  serves : ∀ {state taken room bytes}, holds state taken room → 0 < room → bytes ≠ [] →
    ∃ count after, sink bytes state = (.ok count, after) ∧
      0 < count ∧ count ≤ room ∧ count ≤ bytes.length ∧
      holds after (taken ++ bytes.take count) (room - count)
  refuses : ∀ {state taken bytes}, holds state taken 0 → bytes ≠ [] →
    ∃ after, sink bytes state = (.error fault, after) ∧ holds after taken 0

/-- A sink that takes a number of bytes at once, and then refuses for want of space. -/
def trickling (most : Nat) : Sink (List Byte × Nat) := fun bytes (taken, room) =>
  if room = 0 then (.error .noSpace, (taken, 0))
  else
    let count := min (min most room) bytes.length
    (.ok count, (taken ++ bytes.take count, room - count))

theorem limited_trickling {most : Nat} (positive : 0 < most) :
    (trickling most).Limited .noSpace fun state taken room => state = (taken, room) where
  serves := by
    rintro _ taken room bytes rfl space nonempty
    have length := List.length_pos_iff.mpr nonempty
    refine ⟨min (min most room) bytes.length, _, if_neg (Nat.ne_of_gt space), ?_, ?_, ?_, rfl⟩
    all_goals omega
  refuses := by
    rintro _ taken bytes rfl -
    exact ⟨_, rfl, rfl⟩

/-- How writing some bytes ends where there is room for a number of them: well if that is all of
them, and else with a fault; as many are taken as there is room for. -/
structure Cut (fault : IoError) (holds : σ → List Byte → Nat → Prop) (taken : List Byte)
    (room : Nat) (bytes : List Byte) (ended : Except IoError Unit × σ) : Prop where
  answer : ended.1 = if bytes.length ≤ room then .ok () else .error fault
  holds : holds ended.2 (taken ++ bytes.take room) (room - bytes.length)

variable {sink : Sink σ} {fault : IoError} {holds : σ → List Byte → Nat → Prop}
  {state : σ} {taken bytes : List Byte} {room : Nat}

theorem cut_nil (h : holds state taken room) : Cut fault holds taken room [] (.ok (), state) where
  answer := (if_pos (Nat.zero_le room)).symm
  holds := by
    rw [List.take_nil, List.append_nil]
    exact h

/-- What is written after a first part is cut where the room left over ends. -/
theorem Cut.append {first second : List Byte} {ended : Except IoError Unit × σ}
    (enough : first.length ≤ room)
    (h : Cut fault holds (taken ++ first) (room - first.length) second ended) :
    Cut fault holds taken room (first ++ second) ended where
  answer := by
    have left : (first ++ second).length ≤ room ↔ second.length ≤ room - first.length := by
      rw [List.length_append]
      omega
    rw [h.answer, if_congr left rfl rfl]
  holds := by
    have kept := h.holds
    rw [List.append_assoc, Nat.sub_sub] at kept
    rw [List.take_append, List.take_of_length_le enough, List.length_append]
    exact kept

theorem Cut.fits_iff {ended : Except IoError Unit × σ}
    (h : Cut fault holds taken room bytes ended) : bytes.length ≤ room ↔ ended.1 = .ok () := by
  rw [h.answer]
  by_cases fits : bytes.length ≤ room
  · rw [if_pos fits]
    exact iff_of_true fits rfl
  · rw [if_neg fits]
    exact iff_of_false fits nofun

/-- After a refusal nothing more is taken. -/
theorem Cut.refused {first second : List Byte} {refusal : IoError}
    (h : Cut fault holds taken room first (.error refusal, state)) :
    Cut fault holds taken room (first ++ second) (.error refusal, state) := by
  have short : ¬ first.length ≤ room := mt h.fits_iff.mp nofun
  have past : ¬ (first ++ second).length ≤ room := by
    rw [List.length_append]
    omega
  have full : room - first.length = 0 := by omega
  have kept := h.holds
  rw [full] at kept
  constructor
  · rw [h.answer, if_neg short, if_neg past]
  · rw [List.take_append, full, List.take_zero, List.append_nil,
      Nat.sub_eq_zero_of_le (Nat.le_of_not_le past)]
    exact kept

/-- However little is taken at once, all is taken for which there is room. -/
theorem Limited.cut_writeAll (limited : sink.Limited fault holds) (bytes : List Byte)
    (h : holds state taken room) :
    Cut fault holds taken room bytes (sink.writeAll bytes state) := by
  -- What is offered again is shorter, since something was taken of it.
  induction size : bytes.length using Nat.strong_induction_on
    generalizing bytes state taken room with
  | _ size ih =>
    subst size
    cases bytes with
    | nil =>
      rw [writeAll]
      exact cut_nil h
    | cons byte rest =>
      have nonempty : byte :: rest ≠ [] := List.cons_ne_nil byte rest
      rw [writeAll]
      rcases Nat.eq_zero_or_pos room with rfl | space
      · obtain ⟨after, refused, held⟩ := limited.refuses h nonempty
        rw [refused]
        refine ⟨(if_neg (Nat.not_succ_le_zero _)).symm, ?_⟩
        rw [List.take_zero, List.append_nil, Nat.zero_sub]
        exact held
      · obtain ⟨_ | more, after, served, positive, fits, part, held⟩ :=
          limited.serves h space nonempty
        · exact absurd positive (Nat.lt_irrefl 0)
        have shorter : (rest.drop more).length < (byte :: rest).length := by
          rw [List.length_drop, List.length_cons]
          omega
        have length : ((byte :: rest).take (more + 1)).length = more + 1 :=
          List.length_take_of_le part
        have split : (byte :: rest).take (more + 1) ++ rest.drop more = byte :: rest :=
          List.take_append_drop (more + 1) (byte :: rest)
        rw [served, ← split]
        apply Cut.append
        · rw [length]
          exact fits
        · rw [length]
          exact ih _ shorter (rest.drop more) held rfl

end Sink

namespace Output

/-- Work that writes some bytes and nothing else, on every sink that is limited. -/
def Delivers (work : Writing Unit) (bytes : List Byte) : Prop :=
  ∀ ⦃σ : Type⦄ ⦃sink : Sink σ⦄ ⦃fault : IoError⦄ ⦃holds : σ → List Byte → Nat → Prop⦄,
    sink.Limited fault holds → ∀ ⦃state taken room⦄, holds state taken room →
      Sink.Cut fault holds taken room bytes (work.run.interp sink.handler state)

theorem delivers_pure : Delivers (pure ()) [] := fun _ _ _ _ _ _ _ _ h => Sink.cut_nil h

theorem delivers_put (text : String) : Delivers (put text) text.toUTF8.data.toList :=
  fun _ _ _ _ limited _ _ _ h => limited.cut_writeAll _ h

theorem Delivers.andThen {work next : Writing Unit} {first second : List Byte}
    (h : Delivers work first) (rest : Delivers next second) :
    Delivers (work >>= fun _ => next) (first ++ second) := by
  intro σ sink fault holds limited state taken room held
  have begun := h limited held
  rw [Dialogue.interp_bind]
  generalize work.run.interp sink.handler state = ended at begun
  obtain ⟨refusal | done, after⟩ := ended
  · exact begun.refused
  · have enough := begun.fits_iff.mpr rfl
    have kept := begun.holds
    rw [List.take_of_length_le enough] at kept
    exact (rest limited kept).append enough

/-- Texts put one after another are delivered as one. -/
theorem delivers_putAll (texts : List String) :
    Delivers (putAll texts) (String.join texts).toUTF8.data.toList := by
  induction texts with
  | nil => exact delivers_pure
  | cons text rest ih =>
    have joined : (String.join (text :: rest)).toUTF8.data.toList =
        text.toUTF8.data.toList ++ (String.join rest).toUTF8.data.toList := by
      simp only [String.join_cons, String.toUTF8_eq_toByteArray, String.toByteArray_append,
        ByteArray.data_append, Array.toList_append]
    rw [putAll, joined]
    exact Delivers.andThen (delivers_put text) ih

/-! Faults may be wrapped on the way and unwrapped at its end. -/

section
variable {ε : Type} (wrap : IoError → ε) {unwrap : ε → IoError}

/-- Texts put one after another by work with faults of its own. -/
def layAll : List String → ExceptT ε (Dialogue Output) Unit
  | [] => pure ()
  | text :: rest => do
    ExceptT.adapt wrap (put text)
    layAll rest

variable {wrap} (kept : ∀ fault, unwrap (wrap fault) = fault)
include kept

theorem adapt_bind_adapt (work : Writing Unit) (next : Unit → ExceptT ε (Dialogue Output) Unit) :
    ExceptT.adapt unwrap (ExceptT.adapt wrap work >>= next) =
      work >>= fun value => ExceptT.adapt unwrap (next value) := by
  induction (work : Dialogue Output (Except IoError Unit)) with
  | done answer =>
    cases answer with
    | error fault => exact congrArg (fun fault => Dialogue.done (Except.error fault)) (kept fault)
    | ok value => rfl
  | ask r answer ih => exact congrArg (Dialogue.ask r) (funext ih)

theorem adapt_layAll (texts : List String) :
    ExceptT.adapt unwrap (layAll wrap texts) = putAll texts := by
  induction texts with
  | nil => rfl
  | cons text rest ih => rw [layAll, putAll, adapt_bind_adapt kept, ih]

end

theorem putAll_singleton (text : String) : putAll [text] = put text := bind_pure_unit

theorem putAll_append (first second : List String) :
    putAll (first ++ second) = putAll first >>= fun _ => putAll second := by
  induction first with
  | nil => rfl
  | cons text rest ih => simp [putAll, ih]

end Output

namespace Dump

open Output (Writing Delivers)

section
variable {ε : Type} {wrap : IoError → ε} {unwrap : ε → IoError}

variable (wrap unwrap) in
/-- A dump whose JSON is laid out by work with faults of its own, which are unwrapped behind it. -/
def writeWrapped (m : Machine) (stage : Stage) : Format → Writing Unit
  | .json => do
    ExceptT.adapt unwrap (Output.layAll wrap (json m stage).indentedPieces.toList)
    Output.put "\n"
  | format => write m stage format

theorem writeWrapped_eq (kept : ∀ fault, unwrap (wrap fault) = fault) (m : Machine)
    (stage : Stage) (format : Format) :
    writeWrapped wrap unwrap m stage format = write m stage format := by
  cases format with
  | text => rfl
  | json =>
    rw [writeWrapped, Output.adapt_layAll kept, write, pieces, Output.putAll_append,
      Output.putAll_singleton]
  | none => rfl

end

theorem delivers_write (m : Machine) (stage : Stage) (format : Format) :
    Delivers (write m stage format) (bytes m stage format).data.toList := by
  rw [bytes_eq]
  exact Output.delivers_putAll _

/-- A dump on a bounded writer. -/
theorem interp_write_bounded (m : Machine) (stage : Stage) (format : Format) (room : Nat) :
    (write m stage format).run.interp BoundedWriter.handler ⟨.empty, some room⟩ =
      (if (bytes m stage format).size ≤ room then .ok () else .error .writerFull,
        ⟨(bytes m stage format).extract 0 room, some (room - (bytes m stage format).size)⟩) := by
  rw [BoundedWriter.handler_eq, write, BoundedWriter.interp_putAll, BoundedWriter.put_eq, bytes_eq,
    text]
  simp [BoundedWriter.fits, BoundedWriter.filled]

/-- What becomes of a dump on a sink that has room for a number of bytes. If there is room for all
of it, writing ends well, and else with the fault of the sink; what the sink took is the start of
the dump. It is so for any cut of the dump into texts, and if the faults met by JSON are wrapped on
the way. A bounded writer cuts it short in the same way. -/
theorem write_cut_short {σ : Type} {sink : Sink σ} {fault : IoError}
    {holds : σ → List Byte → Nat → Prop} (limited : sink.Limited fault holds) {state : σ}
    {room : Nat} (fresh : holds state [] room) {ε : Type} (wrap : IoError → ε)
    (unwrap : ε → IoError) (kept : ∀ fault, unwrap (wrap fault) = fault)
    (m : Machine) (stage : Stage) (format : Format) :
    let dump := (bytes m stage format).data.toList
    let Ends (work : Writing Unit) : Prop := ∃ after,
      work.run.interp sink.handler state =
        (if dump.length ≤ room then .ok () else .error fault, after) ∧
      holds after (dump.take (min room dump.length)) (room - dump.length)
    Ends (write m stage format) ∧
      (∀ texts, (String.join texts).toUTF8 = bytes m stage format → Ends (Output.putAll texts)) ∧
      Ends (writeWrapped wrap unwrap m stage format) ∧
      (write m stage format).run.interp BoundedWriter.handler ⟨.empty, some room⟩ =
        (if dump.length ≤ room then .ok () else .error .writerFull,
          ⟨(bytes m stage format).extract 0 room, some (room - dump.length)⟩) := by
  intro dump Ends
  have ends (work : Writing Unit) (h : Delivers work dump) : Ends work := by
    have cut := h limited fresh
    refine ⟨_, Prod.ext cut.answer rfl, ?_⟩
    have taken := cut.holds
    rwa [List.nil_append, List.take_eq_take_min] at taken
  refine ⟨ends _ (delivers_write m stage format), ?_, ?_, interp_write_bounded m stage format room⟩
  · intro texts same
    have delivered := Output.delivers_putAll texts
    rw [same] at delivered
    exact ends _ delivered
  · rw [writeWrapped_eq kept]
    exact ends _ (delivers_write m stage format)

/-- A dump in JSON on a sink with room for ten bytes that takes three at a time: it is cut within
its first key. -/
theorem write_cut_short_in_key :
    (writeWrapped Sum.inl (Sum.elim id IoError.other) .initial .afterLoad .json).run.interp
        (Sink.trickling 3).handler ([], 10) =
      (.error .noSpace, ("\x7b\n  \"stage".toUTF8.data.toList, 0)) := by
  have shown : json .initial .afterLoad =
      .record [("stage", .text "after_load"), ("cycles", .integer 0), ("memory", .list [])] :=
    congrArg (fun cells : List (Word × Word) => Json.record [("stage", .text "after_load"),
      ("cycles", .integer 0), ("memory", .list (cells.map cellJson))]) Memory.occupied_initial
  have dump : bytes .initial .afterLoad .json =
      "\x7b\n  \"stage\": \"after_load\",\n  \"cycles\": 0,\n  \"memory\": []\n\x7d\n".toUTF8 := by
    rw [bytes_eq, text, pieces, shown]
    decide +kernel
  have limited := Sink.limited_trickling (Nat.succ_pos 2)
  have fresh : (([], 10) : List Byte × Nat) = ([], 10) := rfl
  obtain ⟨-, -, ⟨after, ended, rfl⟩, -⟩ := write_cut_short limited fresh Sum.inl
    (Sum.elim id IoError.other) (fun _ => rfl) .initial .afterLoad .json
  rw [dump] at ended
  exact ended

end Dump

end LittleComputer
