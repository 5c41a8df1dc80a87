/-!
# Lines of a text

A line ends at a line feed, which is not part of it, and neither is a carriage return right
before it. What follows the last line feed is a line of its own unless it is empty. No other
character ends a line.
-/

namespace LittleComputer.Text

/-- A line that has ended, from its characters in reverse. -/
def endedLine : List Char → String
  | '\r' :: line => String.ofList line.reverse
  | line => String.ofList line.reverse

/-- The lines of a text, after the beginning of its first line in reverse. -/
def linesAfter (line : List Char) : List Char → List String
  | [] => if line.isEmpty then [] else [String.ofList line.reverse]
  | '\n' :: rest => endedLine line :: linesAfter [] rest
  | c :: rest => linesAfter (c :: line) rest

def lines (text : String) : List String := linesAfter [] text.toList

theorem linesAfter_append {part : List Char} (h : '\n' ∉ part) (line rest : List Char) :
    linesAfter line (part ++ rest) = linesAfter (part.reverse ++ line) rest := by
  induction part generalizing line with
  | nil => rfl
  | cons c part ih =>
    have hc : c ≠ '\n' := fun e => h (e ▸ List.mem_cons_self)
    have hp : '\n' ∉ part := fun m => h (List.mem_cons_of_mem _ m)
    rw [List.cons_append, linesAfter, ih hp]
    · simp
    · exact hc

theorem endedLine_of_head? {line : List Char} (h : line.head? ≠ some '\r') :
    endedLine line = String.ofList line.reverse := by
  unfold endedLine
  split
  · simp at h
  · rfl

/-- Writing lines and reading them again gives the same lines, if none has the end of a line in
it or a carriage return at its end. -/
theorem linesAfter_flatMap {shown : List (List Char)}
    (h : ∀ line ∈ shown, '\n' ∉ line ∧ line.getLast? ≠ some '\r') :
    linesAfter [] (shown.flatMap (· ++ ['\n'])) = shown.map String.ofList := by
  induction shown with
  | nil => rfl
  | cons line shown ih =>
    obtain ⟨hn, hr⟩ := h line List.mem_cons_self
    have hs := ih fun other m => h other (List.mem_cons_of_mem _ m)
    rw [List.flatMap_cons, List.append_assoc, linesAfter_append hn, List.append_nil,
      List.singleton_append, linesAfter, endedLine_of_head? (by simpa using hr),
      List.reverse_reverse, hs, List.map_cons]

/-- A text without the end of a line. -/
def Unbroken (text : String) : Prop := ∀ c ∈ text.toList, c ≠ '\n' ∧ c ≠ '\r'

instance (text : String) : Decidable (Unbroken text) :=
  List.decidableBAll (fun c => c ≠ '\n' ∧ c ≠ '\r') text.toList

@[simp] theorem unbroken_append_iff {a b : String} :
    Unbroken (a ++ b) ↔ Unbroken a ∧ Unbroken b := by
  simp only [Unbroken, String.toList_append, List.forall_mem_append]

theorem unbroken_replicate {c : Char} (h : c ≠ '\n' ∧ c ≠ '\r') (count : Nat) :
    Unbroken (String.ofList (List.replicate count c)) := by
  intro found mem
  rw [String.toList_ofList] at mem
  rwa [(List.mem_replicate.mp mem).2]

/-- Rows that are written one to a line are read as the lines. -/
theorem lines_join {rows : List String} (h : ∀ row ∈ rows, Unbroken row) :
    lines (String.join (rows.map (· ++ "\n"))) = rows := by
  have written : (String.join (rows.map (· ++ "\n"))).toList =
      (rows.map String.toList).flatMap (· ++ ['\n']) := by
    rw [String.toList_join, List.flatMap_map, List.flatMap_map]
    simp
  have unbroken : ∀ line ∈ rows.map String.toList, '\n' ∉ line ∧ line.getLast? ≠ some '\r' := by
    intro line mem
    obtain ⟨row, isRow, rfl⟩ := List.mem_map.mp mem
    refine ⟨fun feed => (h row isRow _ feed).1 rfl, fun last => ?_⟩
    exact (h row isRow _ (List.mem_of_getLast? last)).2 rfl
  rw [lines, written, linesAfter_flatMap unbroken, List.map_map]
  simp

end LittleComputer.Text
