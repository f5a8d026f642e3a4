import Mathlib.Data.List.TakeWhile
import SegmentCatalog.Proofs.PropertyFile.Lines
import SegmentCatalog.Proofs.Traversal

/-! # Files put one behind the other

When one text is put behind another, its lines come behind the lines of the other, provided that
the first text ends with a line feed, and that its last line is not continued.

The line that is being continued never ends in a backslash that would continue it, since that one
has been taken off (`continues_dropLast`).  So whether joined lines go on is decided by the last of
them alone (`continues_append`), and what has been read of the first text leaves nothing pending
(`join_append`).  `logicalLines_append` and `definitions_append` are the results.
-/

namespace SegmentCatalog.PropertyFile

variable {line front : List Char} {a b : List Char}

/-! ## Physical lines -/

theorem physicalLines_append (ended : a = [] ∨ a.getLast? = some '\n') :
    physicalLines (a ++ b) = physicalLines a ++ physicalLines b := by
  rcases ended with rfl | feed
  · rfl
  · obtain ⟨front, rfl⟩ := List.getLast?_eq_some_iff.1 feed
    have cut : ∀ rest, Text.cutAt (· == '\n') (front ++ '\n' :: rest) =
        Text.cutAt (· == '\n') front ++ Text.cutAt (· == '\n') rest := by
      intro rest
      rw [Text.cutAt_append_cons rfl]
    have whole : front ++ ['\n'] ++ b = front ++ '\n' :: b := by simp
    have filled := Text.cutAt_ne_nil (· == '\n') b
    have nothing : Text.cutAt (· == '\n') [] = [[]] := rfl
    simp only [physicalLines, whole, cut, nothing, List.dropLast_append_of_ne_nil filled,
      List.getLast?_append_of_ne_nil _ filled, List.dropLast_concat, List.getLast?_concat,
      List.map_append, List.append_nil, List.append_assoc]

/-! ## Lines that go on -/

theorem continues_append (finished : continues front = false) (line : List Char) :
    continues (front ++ line) = continues line := by
  simp only [continues, List.reverse_append, List.takeWhile_append] at finished ⊢
  split
  · rename_i whole
    simp only [beq_eq_false_iff_ne, List.length_append, whole] at finished ⊢
    congr 1
    omega
  · rfl

theorem continues_cons_of_ne {c : Char} (other : c ≠ '\\') (line : List Char) :
    continues (c :: line) = continues line := by
  have alone : continues [c] = false := continues_of_getLast? (by simpa using other)
  rw [← List.singleton_append, continues_append alone]

theorem continues_escaped (c : Char) (line : List Char) :
    continues ('\\' :: c :: line) = continues line := by
  have pair : continues ['\\', c] = false := by
    by_cases same : c = '\\'
    · rw [same]
      rfl
    · exact continues_of_getLast? (by simpa using same)
  show continues (['\\', c] ++ line) = continues line
  rw [continues_append pair]

theorem continues_trimStart (line : List Char) :
    continues (Text.trimStart line) = continues line := by
  have blanks : continues (line.takeWhile Text.isBlank) = false := by
    apply continues_of_getLast?
    intro last
    have blank := List.mem_takeWhile_imp (List.mem_of_getLast? last)
    cases blank
  rw [Text.trimStart, ← continues_append blanks, List.takeWhile_append_dropWhile]

/-- Without the backslash that continues it, a line is not continued. -/
theorem continues_dropLast (goesOn : continues line = true) : continues line.dropLast = false := by
  rcases List.eq_nil_or_concat line with rfl | ⟨front, c, rfl⟩
  · cases goesOn
  · rw [List.concat_eq_append] at goesOn ⊢
    rw [List.dropLast_concat]
    simp only [continues, List.reverse_append, List.reverse_singleton,
      List.singleton_append] at goesOn ⊢
    by_cases backslash : c = '\\'
    · simp [backslash] at goesOn ⊢
      omega
    · simp [backslash] at goesOn

/-- Lines of which the last is not continued leave nothing to be continued. -/
theorem join_append {pending : Option (List Char)} {first : List (List Char)}
    (stripped : ∀ front ∈ pending, continues front = false)
    (finished : ∀ line ∈ first.getLast?, continues line = false)
    (settled : first = [] → pending = none) (second : List (List Char)) :
    join pending (first ++ second) = join pending first ++ join none second := by
  induction first generalizing pending with
  | nil =>
    rw [settled rfl]
    rfl
  | cons line first ih =>
    have later : ∀ line ∈ first.getLast?, continues line = false := by
      intro last member
      refine finished last ?_
      rw [List.getLast?_cons, Option.mem_def.1 member]
      rfl
    -- whatever is in front of the line, the line decides whether it goes on
    have step : ∀ whole, continues whole = continues line →
        (if continues whole then join (some whole.dropLast) (first ++ second)
          else whole :: join none (first ++ second)) =
        (if continues whole then join (some whole.dropLast) first
          else whole :: join none first) ++ join none second := by
      intro whole same
      by_cases goesOn : continues whole = true
      · have behind : first ≠ [] := by
          rintro rfl
          have stops := finished line rfl
          rw [← same, goesOn] at stops
          cases stops
        rw [if_pos goesOn, if_pos goesOn]
        refine ih ?_ later fun none => absurd none behind
        intro front inside
        cases inside
        exact continues_dropLast goesOn
      · rw [if_neg goesOn, if_neg goesOn, ih (by simp) later fun _ => rfl]
        rfl
    cases pending with
    | none =>
      rw [List.cons_append, join, join]
      by_cases remark : isRemark line = true
      · rw [if_pos remark, if_pos remark, ih (by simp) later fun _ => rfl]
      · rw [if_neg remark, if_neg remark, step line rfl]
    | some front =>
      rw [List.cons_append, join, join]
      exact step _ (continues_append (stripped front rfl) line)

theorem logicalLines_append (ended : a = [] ∨ a.getLast? = some '\n')
    (finished : ∀ line ∈ (physicalLines a).getLast?, continues line = false) :
    logicalLines (a ++ b) = logicalLines a ++ logicalLines b := by
  rw [logicalLines, physicalLines_append ended, List.map_append]
  apply join_append
  · simp
  · intro line member
    rw [List.getLast?_map, Option.mem_def, Option.map_eq_some_iff] at member
    obtain ⟨physical, last, rfl⟩ := member
    rw [continues_trimStart, finished physical last]
  · exact fun _ => rfl

/-! ## Definitions -/

theorem definitions_append {a b : String} (ended : a = "" ∨ a.toList.getLast? = some '\n')
    (finished : ∀ line ∈ (physicalLines a.toList).getLast?, continues line = false) :
    definitions (a ++ b) = do
      let first ← definitions a
      let second ← definitions b
      return first ++ second := by
  have chars : a.toList = [] ∨ a.toList.getLast? = some '\n' := by simpa using ended
  rw [definitions, String.toList_append, logicalLines_append chars finished, List.mapM_append,
    definitions, definitions]
  simp [List.filterMap_append]

end SegmentCatalog.PropertyFile
