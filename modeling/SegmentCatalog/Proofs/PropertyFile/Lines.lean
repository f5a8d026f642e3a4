import SegmentCatalog.Config.PropertyFile
import SegmentCatalog.Proofs.Text.ReadBack

/-! # Lines that stand for themselves

A line that starts with neither white space nor the sign of a comment, and does not end in a
backslash, is a logical line as it stands (`PropertyFile.Plain`).  A text of such lines has them
for its logical lines, whether or not the last one is ended by a line feed:
`logicalLines_ended` and `logicalLines_dropLast`.
-/

namespace SegmentCatalog.PropertyFile

structure Plain (line : List Char) : Prop where
  starts : ∃ c rest, line = c :: rest ∧ Text.isBlank c = false ∧ c ≠ '#' ∧ c ≠ '!'
  whole : ∀ c ∈ line, c ≠ '\n' ∧ c ≠ '\r'
  ends : line.getLast? ≠ some '\\'

/-- Lines, each ended by a line feed. -/
def ended (lines : List (List Char)) : List Char := lines.flatMap (· ++ ['\n'])

variable {line : List Char} {lines : List (List Char)}

/-! ## Physical lines -/

theorem cutAt_ended_append (solid : ∀ line ∈ lines, ∀ c ∈ line, c ≠ '\n') {last : List Char}
    (solidLast : ∀ c ∈ last, c ≠ '\n') :
    Text.cutAt (· == '\n') (ended lines ++ last) = lines ++ [last] := by
  induction lines with
  | nil => exact Text.cutAt_of_solid fun c member => beq_false_of_ne (solidLast c member)
  | cons line lines ih =>
    obtain ⟨here, later⟩ := List.forall_mem_cons.1 solid
    have shape : ended (line :: lines) ++ last = line ++ '\n' :: (ended lines ++ last) := by
      simp [ended]
    have solidLine : ∀ c ∈ line, (c == '\n') = false := fun c member =>
      beq_false_of_ne (here c member)
    rw [shape, Text.cutAt_append solidLine (beq_self_eq_true _), ih later, List.cons_append]

theorem dropReturn_of_whole (whole : ∀ c ∈ line, c ≠ '\n' ∧ c ≠ '\r') :
    dropReturn line = line := by
  rw [dropReturn, if_neg]
  intro last
  exact (whole '\r' (List.mem_of_getLast? last)).2 rfl

theorem map_dropReturn (whole : ∀ line ∈ lines, ∀ c ∈ line, c ≠ '\n' ∧ c ≠ '\r') :
    lines.map dropReturn = lines :=
  (List.map_congr_left fun line member => dropReturn_of_whole (whole line member)).trans
    (List.map_id lines)

theorem physicalLines_ended (whole : ∀ line ∈ lines, ∀ c ∈ line, c ≠ '\n' ∧ c ≠ '\r') :
    physicalLines (ended lines) = lines := by
  have nothing : ∀ c ∈ ([] : List Char), c ≠ '\n' := by simp
  have cut := cutAt_ended_append (fun line member c inside => (whole line member c inside).1)
    nothing
  rw [List.append_nil] at cut
  simp only [physicalLines, cut, List.getLast?_concat, List.dropLast_concat,
    map_dropReturn whole, List.append_nil]

theorem physicalLines_ended_append (whole : ∀ line ∈ lines, ∀ c ∈ line, c ≠ '\n' ∧ c ≠ '\r')
    {last : List Char} (wholeLast : ∀ c ∈ last, c ≠ '\n' ∧ c ≠ '\r') (filled : last ≠ []) :
    physicalLines (ended lines ++ last) = lines ++ [last] := by
  have cut := cutAt_ended_append (fun line member c inside => (whole line member c inside).1)
    (fun c inside => (wholeLast c inside).1)
  obtain ⟨c, rest, rfl⟩ := List.exists_cons_of_ne_nil filled
  simp only [physicalLines, cut, List.getLast?_concat, List.dropLast_concat, map_dropReturn whole]

/-! ## Logical lines -/

theorem continues_of_getLast? (ends : line.getLast? ≠ some '\\') : continues line = false := by
  rw [← List.head?_reverse] at ends
  rw [continues]
  cases shape : line.reverse with
  | nil => rfl
  | cons c front =>
    have other : c ≠ '\\' := by
      rintro rfl
      exact ends (by rw [shape, List.head?_cons])
    simp [other]

theorem Plain.trimStart (plain : Plain line) : Text.trimStart line = line := by
  obtain ⟨c, rest, rfl, solid, _⟩ := plain.starts
  exact Text.trimStart_of_not_blank rest solid

theorem Plain.not_remark (plain : Plain line) : isRemark line = false := by
  obtain ⟨c, rest, rfl, _, noHash, noMark⟩ := plain.starts
  simp [isRemark, noHash, noMark]

/-- Where no line continues another, joining only leaves out the remarks. -/
theorem join_of_finished (finished : ∀ line ∈ lines, continues line = false) :
    join none lines = lines.filter fun line => !isRemark line := by
  induction lines with
  | nil => rfl
  | cons line lines ih =>
    obtain ⟨here, later⟩ := List.forall_mem_cons.1 finished
    rw [join, ih later, if_neg (by simp [here] : ¬ continues line = true)]
    cases remark : isRemark line <;> simp [remark]

theorem join_of_plain (plain : ∀ line ∈ lines, Plain line) : join none lines = lines := by
  rw [join_of_finished fun line member => continues_of_getLast? (plain line member).ends,
    List.filter_eq_self]
  intro line member
  simp [(plain line member).not_remark]

theorem join_trimStart_of_plain (plain : ∀ line ∈ lines, Plain line) :
    join none (lines.map Text.trimStart) = lines := by
  have same : lines.map Text.trimStart = lines :=
    (List.map_congr_left fun line member => (plain line member).trimStart).trans
      (List.map_id lines)
  rw [same, join_of_plain plain]

theorem logicalLines_ended (plain : ∀ line ∈ lines, Plain line) :
    logicalLines (ended lines) = lines := by
  rw [logicalLines, physicalLines_ended fun line member => (plain line member).whole,
    join_trimStart_of_plain plain]

/-- The line feed behind the last line may be missing. -/
theorem logicalLines_dropLast (plain : ∀ line ∈ lines, Plain line) :
    logicalLines (ended lines).dropLast = lines := by
  rcases List.eq_nil_or_concat lines with rfl | ⟨front, last, rfl⟩
  · rfl
  rw [List.concat_eq_append] at plain ⊢
  obtain ⟨before, here⟩ := List.forall_mem_append.1 plain
  have plainLast := here last (List.mem_singleton_self _)
  have filled : last ≠ [] := by
    obtain ⟨c, rest, rfl, _⟩ := plainLast.starts
    exact List.cons_ne_nil c rest
  have shape : (ended (front ++ [last])).dropLast = ended front ++ last := by
    have whole : ended (front ++ [last]) = (ended front ++ last) ++ ['\n'] := by simp [ended]
    rw [whole, List.dropLast_concat]
  have physical := physicalLines_ended_append (fun line member => (before line member).whole)
    plainLast.whole filled
  rw [shape, logicalLines, physical, join_trimStart_of_plain plain]

end SegmentCatalog.PropertyFile
