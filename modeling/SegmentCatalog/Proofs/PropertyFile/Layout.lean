import SegmentCatalog.Proofs.PropertyFile.Concatenation

/-! # Layouts of a file

A line may be ended by a line feed, with a carriage return in front of it or not, and the end of the
last line may be missing: `LaidOut lines text` says that the text consists of the lines in one of
these ways.

Lines that are read by themselves (`Separate`) are read in the same way in every layout
(`logicalLines_of_laidOut`).  What they define is therefore what each of them defines, one after the
other, and all that reading needs is that each of them can be read: `definitions_eq_ok_iff`.
-/

namespace SegmentCatalog.PropertyFile

inductive LaidOut : List (List Char) → List Char → Prop
  | nil : LaidOut [] []
  | unended (line : List Char) : LaidOut [line] line
  | feed {lines : List (List Char)} {text : List Char} (line : List Char) :
      LaidOut lines text → LaidOut (line :: lines) (line ++ '\n' :: text)
  | returnFeed {lines : List (List Char)} {text : List Char} (line : List Char) :
      LaidOut lines text → LaidOut (line :: lines) (line ++ '\r' :: '\n' :: text)

/-- A line that has no line end inside, and does not go on with the next one. -/
structure Separate (line : List Char) : Prop where
  solid : '\n' ∉ line
  bare : line.getLast? ≠ some '\r'
  /-- A remark does not go on, not even with a backslash at its end. -/
  ends : isRemark (Text.trimStart line) = false → line.getLast? ≠ some '\\'

instance : DecidablePred Separate := fun line =>
  decidable_of_iff ('\n' ∉ line ∧ line.getLast? ≠ some '\r' ∧
      (isRemark (Text.trimStart line) = false → line.getLast? ≠ some '\\'))
    ⟨fun ⟨solid, bare, ends⟩ => ⟨solid, bare, ends⟩,
      fun ⟨solid, bare, ends⟩ => ⟨solid, bare, ends⟩⟩

/-- What a line defines, if it defines something. -/
def defined? (line : List Char) : Option Definition :=
  if isRemark (Text.trimStart line) then none
  else (readLine (Text.trimStart line)).toOption.join

/-- A line that is not refused. -/
def Readable (line : List Char) : Prop :=
  isRemark (Text.trimStart line) = false →
    ∃ outcome, readLine (Text.trimStart line) = .ok outcome

variable {line text : List Char} {lines : List (List Char)}

theorem LaidOut.feeds (lines : List (List Char)) : LaidOut lines (ended lines) := by
  induction lines with
  | nil => exact .nil
  | cons line lines ih => simpa [ended] using ih.feed line

theorem LaidOut.returnFeeds (lines : List (List Char)) :
    LaidOut lines (lines.flatMap (· ++ ['\r', '\n'])) := by
  induction lines with
  | nil => exact .nil
  | cons line lines ih => simpa using ih.returnFeed line

/-! ## Lines -/

theorem physicalLines_feed (solid : '\n' ∉ line) (text : List Char) :
    physicalLines (line ++ '\n' :: text) = dropReturn line :: physicalLines text := by
  have alone : ∀ front ∈ [line], ∀ c ∈ front, c ≠ '\n' := by
    intro front member c inside same
    rw [List.mem_singleton] at member
    exact solid (member ▸ same ▸ inside)
  have nothing : ∀ c ∈ ([] : List Char), c ≠ '\n' := by simp
  have cut : Text.cutAt (· == '\n') (line ++ ['\n']) = [line, []] := by
    simpa [ended] using cutAt_ended_append alone nothing
  have first : physicalLines (line ++ ['\n']) = [dropReturn line] := by
    simp [physicalLines, cut]
  have shape : line ++ '\n' :: text = line ++ ['\n'] ++ text := by simp
  rw [shape, physicalLines_append (.inr List.getLast?_concat), first, List.singleton_append]

theorem dropReturn_of_bare (bare : line.getLast? ≠ some '\r') : dropReturn line = line := by
  rw [dropReturn, if_neg bare]

theorem dropReturn_concat (line : List Char) : dropReturn (line ++ ['\r']) = line := by
  simp [dropReturn]

theorem physicalLines_unended (solid : '\n' ∉ line) (filled : line ≠ []) :
    physicalLines line = [line] := by
  obtain ⟨c, rest, rfl⟩ := List.exists_cons_of_ne_nil filled
  have cut : Text.cutAt (· == '\n') (c :: rest) = [c :: rest] :=
    Text.cutAt_of_solid fun d member => beq_false_of_ne fun same => solid (same ▸ member)
  simp [physicalLines, cut]

/-- A separate line is dropped or kept, whatever comes behind it. -/
theorem join_cons_of_separate (separate : Separate line) (rest : List (List Char)) :
    join none (Text.trimStart line :: rest) =
      [Text.trimStart line].filter (fun line => !isRemark line) ++ join none rest := by
  rw [join]
  cases remark : isRemark (Text.trimStart line) with
  | true => simp [remark]
  | false =>
    have stops : continues (Text.trimStart line) = false := by
      rw [continues_trimStart]
      exact continues_of_getLast? (separate.ends remark)
    simp [remark, stops]

theorem logicalLines_feed {physical : List Char} (solid : '\n' ∉ physical)
    (stripped : dropReturn physical = line) (separate : Separate line) (text : List Char) :
    logicalLines (physical ++ '\n' :: text) =
      [Text.trimStart line].filter (fun line => !isRemark line) ++ logicalLines text := by
  rw [logicalLines, physicalLines_feed solid, stripped, List.map_cons,
    join_cons_of_separate separate, ← logicalLines]

theorem logicalLines_returnFeed (separate : Separate line) (text : List Char) :
    logicalLines (line ++ '\r' :: '\n' :: text) =
      [Text.trimStart line].filter (fun line => !isRemark line) ++ logicalLines text := by
  have solid : '\n' ∉ line ++ ['\r'] := by simp [separate.solid]
  have shape : line ++ '\r' :: '\n' :: text = line ++ ['\r'] ++ '\n' :: text := by simp
  rw [shape, logicalLines_feed solid (dropReturn_concat line) separate]

theorem logicalLines_of_laidOut (laid : LaidOut lines text)
    (separate : ∀ line ∈ lines, Separate line) :
    logicalLines text = (lines.map Text.trimStart).filter fun line => !isRemark line := by
  induction laid with
  | nil => rfl
  | unended line =>
    have here := separate line (List.mem_singleton_self line)
    by_cases empty : line = []
    · subst empty
      rfl
    · rw [logicalLines, physicalLines_unended here.solid empty, List.map_singleton,
        join_cons_of_separate here, join, List.append_nil]
  | feed line _ ih =>
    obtain ⟨here, later⟩ := List.forall_mem_cons.1 separate
    rw [logicalLines_feed here.solid (dropReturn_of_bare here.bare) here, ih later, List.map_cons,
      ← List.filter_append, List.singleton_append]
  | returnFeed line _ ih =>
    obtain ⟨here, later⟩ := List.forall_mem_cons.1 separate
    rw [logicalLines_returnFeed here, ih later, List.map_cons, ← List.filter_append,
      List.singleton_append]

/-! ## Definitions -/

theorem filterMap_of_mapM {outcomes : List (Option Definition)}
    (all : lines.mapM readLine = .ok outcomes) :
    outcomes.filterMap id = lines.filterMap fun line => (readLine line).toOption.join := by
  rw [mapM_eq_ok_iff] at all
  induction all with
  | nil => rfl
  | @cons line outcome lines outcomes here _ ih =>
    have found : (readLine line).toOption.join = outcome := by
      rw [here]
      rfl
    rw [List.filterMap_cons, List.filterMap_cons, ih, found]
    rfl

theorem definitions_eq_ok_iff {text : String} (laid : LaidOut lines text.toList)
    (separate : ∀ line ∈ lines, Separate line) {found : List Definition} :
    definitions text = .ok found ↔
      (∀ line ∈ lines, Readable line) ∧ found = lines.filterMap defined? := by
  have logical := logicalLines_of_laidOut laid separate
  have readable : (∃ outcomes, (logicalLines text.toList).mapM readLine = .ok outcomes) ↔
      ∀ line ∈ lines, Readable line := by
    rw [exists_mapM_eq_ok_iff, logical]
    simp [Readable]
  have same : ∀ outcomes, (logicalLines text.toList).mapM readLine = .ok outcomes →
      outcomes.filterMap id = lines.filterMap defined? := by
    intro outcomes all
    rw [filterMap_of_mapM all, logical, List.filterMap_filter, List.filterMap_map]
    apply List.filterMap_congr
    intro line _
    simp only [Function.comp_apply, defined?]
    cases isRemark (Text.trimStart line) <;> rfl
  rw [definitions, bind_eq_ok, ← readable]
  constructor
  · rintro ⟨outcomes, all, built⟩
    cases built
    exact ⟨⟨outcomes, all⟩, same outcomes all⟩
  · rintro ⟨⟨outcomes, all⟩, rfl⟩
    refine ⟨outcomes, all, ?_⟩
    rw [← same outcomes all]
    rfl

end SegmentCatalog.PropertyFile
