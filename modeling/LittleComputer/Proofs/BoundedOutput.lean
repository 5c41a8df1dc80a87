import LittleComputer.Output

/-!
# Writing to a bounded writer

A bounded writer keeps no borders between the texts put to it: putting them one by one, and
ending at the first refusal, is putting them all in a row. It takes the bytes it has room for
and refuses exactly if there are more. Whether it flushes them is left to a rule.
-/

namespace LittleComputer

/-- Work that ends at the first fault, on any handler. -/
theorem Dialogue.interp_bind {S : Signature} {ε α β σ : Type} (handler : Handler S σ)
    (work : ExceptT ε (Dialogue S) α) (next : α → ExceptT ε (Dialogue S) β) (state : σ) :
    (work >>= next).run.interp handler state =
      match work.run.interp handler state with
      | (.ok value, state) => (next value).run.interp handler state
      | (.error fault, state) => (.error fault, state) := by
  rw [ExceptT.run_bind, bind_eq_andThen, interp_andThen]
  obtain ⟨answer, after⟩ := work.run.interp handler state
  cases answer <;> rfl

namespace BoundedWriter

/-- A bounded writer that flushes by a rule. -/
def flushingBy (flush : BoundedWriter → Except IoError Unit) : Handler Output BoundedWriter
  | .put text, writer => writer.put text
  | .flush, writer => (flush writer, writer)

theorem handler_eq : handler = flushingBy fun _ => .ok () := by
  funext r writer
  cases r <;> rfl

theorem extract_of_size_le {bytes : ByteArray} {room : Nat} (h : bytes.size ≤ room) :
    bytes.extract 0 room = bytes := by
  have whole : max room bytes.size = room := Nat.max_eq_left h
  rw [← whole, ByteArray.extract_zero_max_size]

/-- Putting two texts in a row is putting the first and then, unless it is refused, the second. -/
theorem put_append (first second : String) (writer : BoundedWriter) :
    writer.put (first ++ second) =
      match writer.put first with
      | (.ok (), writer) => writer.put second
      | (.error fault, writer) => (.error fault, writer) := by
  obtain ⟨taken, _ | room⟩ := writer
  · simp only [put, String.toUTF8_eq_toByteArray, String.toByteArray_append,
      ByteArray.append_assoc]
  · simp only [put, String.toUTF8_eq_toByteArray, String.toByteArray_append,
      ByteArray.size_append, ByteArray.extract_append]
    by_cases fits : first.toByteArray.size ≤ room
    · have start : first.toByteArray.extract 0 room = first.toByteArray :=
        extract_of_size_le fits
      have left : first.toByteArray.size + second.toByteArray.size ≤ room ↔
          second.toByteArray.size ≤ room - first.toByteArray.size := by omega
      simp only [fits, left, if_true, start, ByteArray.append_assoc, Nat.zero_sub, Nat.sub_sub]
    · have past : ¬ first.toByteArray.size + second.toByteArray.size ≤ room := by omega
      have none : room - first.toByteArray.size = 0 := by omega
      simp only [fits, past, if_false, none, Nat.zero_sub, ByteArray.extract_same,
        ByteArray.append_empty]

@[simp] theorem put_empty (writer : BoundedWriter) : writer.put "" = (.ok (), writer) := by
  obtain ⟨taken, _ | room⟩ := writer
  · simp [put]
  · simp [put]

/-- Whether there is room for some bytes. -/
def fits (writer : BoundedWriter) (bytes : ByteArray) : Bool :=
  writer.room.all fun room => bytes.size ≤ room

/-- The writer with some more bytes, as many as there is room for. -/
def filled (writer : BoundedWriter) (bytes : ByteArray) : BoundedWriter :=
  match writer.room with
  | none => ⟨writer.taken ++ bytes, none⟩
  | some room => ⟨writer.taken ++ bytes.extract 0 room, some (room - bytes.size)⟩

theorem put_eq (text : String) (writer : BoundedWriter) :
    writer.put text =
      (if writer.fits text.toUTF8 then .ok () else .error .writerFull,
        writer.filled text.toUTF8) := by
  obtain ⟨taken, _ | room⟩ := writer
  · rfl
  · by_cases fits : text.toUTF8.size ≤ room
    · simp only [put, BoundedWriter.fits, filled, fits, if_true, Option.all_some, decide_true,
        extract_of_size_le fits]
    · have none : room - text.toUTF8.size = 0 := by omega
      simp only [put, BoundedWriter.fits, filled, fits, if_false, Option.all_some, decide_false,
        Bool.false_eq_true, none]

theorem taken_filled {writer : BoundedWriter} {bytes : ByteArray}
    (fits : writer.fits bytes = true) :
    (writer.filled bytes).taken = writer.taken ++ bytes := by
  obtain ⟨taken, _ | room⟩ := writer
  · rfl
  · have enough : bytes.size ≤ room := by simpa [BoundedWriter.fits] using fits
    show taken ++ bytes.extract 0 room = taken ++ bytes
    rw [extract_of_size_le enough]

section
variable (flush : BoundedWriter → Except IoError Unit) (writer : BoundedWriter)

/-- The fault of writing some bytes and flushing the writer, if there is one. -/
def fault? (bytes : ByteArray) : Option IoError :=
  if writer.fits bytes then
    match flush (writer.filled bytes) with
    | .ok () => none
    | .error fault => some fault
  else some .writerFull

variable {flush writer} in
theorem fits_of_fault? {bytes : ByteArray} (h : writer.fault? flush bytes = none) :
    writer.fits bytes = true := by
  cases past : writer.fits bytes with
  | true => rfl
  | false =>
    rw [fault?, if_neg (by simp [past])] at h
    cases h

/-- Writing texts one by one is writing them in a row. -/
theorem interp_putAll (texts : List String) :
    (Output.putAll texts).run.interp (flushingBy flush) writer =
      writer.put (String.join texts) := by
  induction texts generalizing writer with
  | nil => exact (put_empty writer).symm
  | cons text rest ih =>
    have first : (Output.put text).run.interp (flushingBy flush) writer = writer.put text := rfl
    rw [Output.putAll, Dialogue.interp_bind, String.join_cons, put_append, first]
    obtain ⟨refused | done, after⟩ := writer.put text
    · rfl
    · exact ih after

/-- What becomes of texts that are written and then flushed. -/
theorem interp_putAll_flush (texts : List String) :
    (Output.putAll texts >>= fun _ => Output.flush).run.interp (flushingBy flush) writer =
      ((writer.fault? flush (String.join texts).toUTF8).elim (.ok ()) .error,
        writer.filled (String.join texts).toUTF8) := by
  rw [Dialogue.interp_bind, interp_putAll, put_eq, fault?]
  by_cases fits : writer.fits (String.join texts).toUTF8 = true
  · rw [if_pos fits, if_pos fits]
    show (flush _, _) = _
    cases flush (writer.filled (String.join texts).toUTF8) <;> rfl
  · rw [if_neg fits, if_neg fits]
    rfl

end

end BoundedWriter

end LittleComputer
