import Mathlib.Algebra.Ring.Parity
import SegmentCatalog.Proofs.PropertyFile.Layout

/-! # How lines are grouped

A line goes on with the next one if it ends in an odd number of backslashes.  `Grouped` says which
lines are put together and what becomes of the others, and looks at the backslashes of each line by
itself.

Joining looks at the backslashes of all that has been put together so far, which may come from
several lines.  This makes no difference: the backslash that continues a line is taken off, and an
even number of others does not change whether the number is odd (`continues_append`).
`logicalLines_grouped` says so, and that no logical line is left with an odd number of them.
-/

namespace SegmentCatalog.PropertyFile

variable {line front last text : List Char} {lines run logical : List (List Char)} {n : Nat}

/-- The lines of a text between its line feeds, without the carriage returns that belong to these.
    There may be a last line without an end. -/
inductive Physical : List Char → List (List Char) → Prop
  | nil : Physical [] []
  | unended {line : List Char} (solid : '\n' ∉ line) (filled : line ≠ []) : Physical line [line]
  | feed {line text : List Char} {lines : List (List Char)} (solid : '\n' ∉ line)
      (bare : line.getLast? ≠ some '\r') (later : Physical text lines) :
      Physical (line ++ '\n' :: text) (line :: lines)
  | returnFeed {line text : List Char} {lines : List (List Char)} (solid : '\n' ∉ line)
      (later : Physical text lines) : Physical (line ++ '\r' :: '\n' :: text) (line :: lines)

/-- The line ends in exactly `n` backslashes. -/
def Trailing (line : List Char) (n : Nat) : Prop :=
  ∃ front, line = front ++ List.replicate n '\\' ∧ front.getLast? ≠ some '\\'

def OddEnd (line : List Char) : Prop := ∃ n, Odd n ∧ Trailing line n

def EvenEnd (line : List Char) : Prop := ∃ n, Even n ∧ Trailing line n

/-- Lines in one piece, each without the backslash at its end. -/
def spliced (run : List (List Char)) : List Char := (run.map List.dropLast).flatten

/-- The logical lines of lines that are stripped at the left.  Blank lines and comments are left
    out, unless they stand behind a line that goes on; a run of lines that go on is put together with
    the line that ends it, or by itself if the text ends first. -/
inductive Grouped : List (List Char) → List (List Char) → Prop
  | nil : Grouped [] []
  | remark {line : List Char} {lines logical : List (List Char)} (remark : isRemark line = true)
      (later : Grouped lines logical) : Grouped (line :: lines) logical
  | run {run lines logical : List (List Char)} {last : List Char}
      (starts : ∀ line ∈ (run ++ [last]).head?, isRemark line = false)
      (goOn : ∀ line ∈ run, OddEnd line) (ends : EvenEnd last) (later : Grouped lines logical) :
      Grouped (run ++ last :: lines) ((spliced run ++ last) :: logical)
  | cutOff {run : List (List Char)} (filled : run ≠ [])
      (starts : ∀ line ∈ run.head?, isRemark line = false) (goOn : ∀ line ∈ run, OddEnd line) :
      Grouped run [spliced run]

/-! ## Physical lines -/

theorem Physical.eq (physical : Physical text lines) : physicalLines text = lines := by
  induction physical with
  | nil => rfl
  | unended solid filled => exact physicalLines_unended solid filled
  | feed solid bare _ ih => rw [physicalLines_feed solid, dropReturn_of_bare bare, ih]
  | @returnFeed line text lines solid _ ih =>
    have solid' : '\n' ∉ line ++ ['\r'] := by simp [solid]
    have shape : line ++ '\r' :: '\n' :: text = line ++ ['\r'] ++ '\n' :: text := by simp
    rw [shape, physicalLines_feed solid', dropReturn_concat, ih]

theorem physical_physicalLines (text : List Char) : Physical text (physicalLines text) := by
  by_cases broken : '\n' ∈ text
  · obtain ⟨line, rest, shape, solid⟩ := List.eq_append_cons_of_mem broken
    have fewer : rest.length < text.length := by
      rw [shape, List.length_append, List.length_cons]
      omega
    have later : Physical rest (physicalLines rest) := physical_physicalLines rest
    rw [shape, physicalLines_feed solid]
    by_cases returned : line.getLast? = some '\r'
    · obtain ⟨front, rfl⟩ := List.getLast?_eq_some_iff.1 returned
      rw [dropReturn_concat, List.append_assoc]
      exact .returnFeed (fun member => solid (List.mem_append_left _ member)) later
    · rw [dropReturn_of_bare returned]
      exact .feed solid returned later
  · by_cases empty : text = []
    · rw [empty]
      exact .nil
    · rw [physicalLines_unended broken empty]
      exact .unended broken empty
termination_by text.length

/-! ## Backslashes at the end of a line -/

theorem trailing_iff : Trailing line n ↔ (line.reverse.takeWhile (· == '\\')).length = n := by
  constructor
  · intro ⟨front, split, stops⟩
    have nothing : front.reverse.takeWhile (· == '\\') = [] := by
      rw [← List.head?_reverse] at stops
      cases shape : front.reverse with
      | nil => rfl
      | cons c rest =>
        rw [shape, List.head?_cons] at stops
        simpa using stops
    rw [split, List.reverse_append, List.reverse_replicate,
      List.takeWhile_append_of_pos (by simp), nothing]
    simp
  · intro count
    have backslashes : line.reverse.takeWhile (· == '\\') = List.replicate n '\\' := by
      rw [List.eq_replicate_iff]
      exact ⟨count, fun c member => by simpa using List.mem_takeWhile_imp member⟩
    have split : line.reverse = List.replicate n '\\' ++ line.reverse.dropWhile (· == '\\') := by
      rw [← backslashes, List.takeWhile_append_dropWhile]
    refine ⟨(line.reverse.dropWhile (· == '\\')).reverse, ?_, ?_⟩
    · rw [← List.reverse_replicate, ← List.reverse_append, ← split, List.reverse_reverse]
    · rw [List.getLast?_reverse]
      intro first
      have other := List.head?_dropWhile_not (· == '\\') line.reverse
      simp [first] at other

theorem continues_iff : continues line = true ↔ OddEnd line := by
  simp [continues, OddEnd, trailing_iff, Nat.odd_iff]

theorem continues_eq_false_iff : continues line = false ↔ EvenEnd line := by
  simp [continues, EvenEnd, trailing_iff, Nat.even_iff]

/-! ## Runs of lines -/

theorem continues_spliced (goOn : ∀ line ∈ run, continues line = true) :
    continues (spliced run) = false := by
  induction run with
  | nil => rfl
  | cons line run ih =>
    obtain ⟨here, later⟩ := List.forall_mem_cons.1 goOn
    show continues (line.dropLast ++ spliced run) = false
    rw [continues_append (continues_dropLast here), ih later]

/-- Lines that go on are put behind what is pending, and their backslashes taken off. -/
theorem join_pending (stripped : continues front = false)
    (goOn : ∀ line ∈ run, continues line = true) (lines : List (List Char)) :
    join (some front) (run ++ lines) = join (some (front ++ spliced run)) lines := by
  induction run generalizing front with
  | nil => simp [spliced]
  | cons line run ih =>
    obtain ⟨here, later⟩ := List.forall_mem_cons.1 goOn
    have filled : line ≠ [] := by
      rintro rfl
      cases here
    have stripped' : continues (front ++ line.dropLast) = false := by
      rw [continues_append stripped, continues_dropLast here]
    have whole : front ++ spliced (line :: run) = front ++ line.dropLast ++ spliced run := by
      simp [spliced]
    -- the line goes on whatever stands in front of it
    rw [List.cons_append, join, continues_append stripped, if_pos here,
      List.dropLast_append_of_ne_nil filled, ih stripped' later, whole]

theorem join_run (filled : run ≠ []) (starts : ∀ line ∈ run.head?, isRemark line = false)
    (goOn : ∀ line ∈ run, continues line = true) (lines : List (List Char)) :
    join none (run ++ lines) = join (some (spliced run)) lines := by
  cases run with
  | nil => contradiction
  | cons line run =>
    obtain ⟨here, later⟩ := List.forall_mem_cons.1 goOn
    have kept : isRemark line = false := starts line rfl
    rw [List.cons_append, join, kept, if_neg Bool.false_ne_true, if_pos here,
      join_pending (continues_dropLast here) later]
    rfl

/-- A run of lines and the line that ends it are one logical line. -/
theorem join_ended (starts : ∀ line ∈ (run ++ [last]).head?, isRemark line = false)
    (goOn : ∀ line ∈ run, continues line = true) (ends : continues last = false)
    (lines : List (List Char)) :
    join none (run ++ last :: lines) = (spliced run ++ last) :: join none lines := by
  cases run with
  | nil =>
    have kept : isRemark last = false := starts last rfl
    simp [join, kept, ends, spliced]
  | cons line run =>
    have stops : continues (spliced (line :: run) ++ last) = false := by
      rw [continues_append (continues_spliced goOn), ends]
    rw [join_run (List.cons_ne_nil line run) starts goOn, join, stops, if_neg Bool.false_ne_true]

/-- Lines go on to the end, or up to the first one that does not. -/
theorem goOn_or_ends (lines : List (List Char)) :
    (∀ line ∈ lines, continues line = true) ∨
      ∃ run last rest, lines = run ++ last :: rest ∧ (∀ line ∈ run, continues line = true) ∧
        continues last = false := by
  induction lines with
  | nil => exact .inl fun _ member => absurd member List.not_mem_nil
  | cons line lines ih =>
    cases here : continues line with
    | false =>
      have nothing : ∀ line ∈ ([] : List (List Char)), continues line = true := by simp
      exact .inr ⟨[], line, lines, rfl, nothing, here⟩
    | true =>
      cases ih with
      | inl all => exact .inl (List.forall_mem_cons.2 ⟨here, all⟩)
      | inr split =>
        obtain ⟨run, last, rest, rfl, goOn, ends⟩ := split
        exact .inr ⟨line :: run, last, rest, rfl, List.forall_mem_cons.2 ⟨here, goOn⟩, ends⟩

/-! ## Logical lines -/

theorem Grouped.eq (grouped : Grouped lines logical) : join none lines = logical := by
  induction grouped with
  | nil => rfl
  | remark remark _ ih => rw [join, if_pos remark, ih]
  | run starts goOn ends _ ih =>
    have goOn' := fun line member => continues_iff.2 (goOn line member)
    rw [join_ended starts goOn' (continues_eq_false_iff.2 ends), ih]
  | @cutOff run filled starts goOn =>
    have goOn' := fun line member => continues_iff.2 (goOn line member)
    have whole := join_run filled starts goOn' []
    rwa [List.append_nil] at whole

theorem grouped_join (lines : List (List Char)) : Grouped lines (join none lines) := by
  cases lines with
  | nil => exact .nil
  | cons line rest =>
    cases remark : isRemark line with
    | true =>
      rw [join, if_pos remark]
      exact .remark remark (grouped_join rest)
    | false =>
      cases goOn_or_ends (line :: rest) with
      | inl goOn =>
        have filled : line :: rest ≠ [] := List.cons_ne_nil line rest
        have starts : ∀ first ∈ (line :: rest).head?, isRemark first = false := by simp [remark]
        have whole := join_run filled starts goOn []
        rw [List.append_nil] at whole
        rw [whole]
        exact .cutOff filled starts fun line member => continues_iff.1 (goOn line member)
      | inr split =>
        obtain ⟨run, last, later, shape, goOn, ends⟩ := split
        have starts : ∀ first ∈ (run ++ [last]).head?, isRemark first = false := by
          have same : (run ++ [last]).head? = (line :: rest).head? := by
            rw [shape]
            cases run <;> rfl
          simp [same, remark]
        have fewer : later.length ≤ rest.length := by
          have counts := congrArg List.length shape
          rw [List.length_append, List.length_cons, List.length_cons] at counts
          omega
        rw [shape, join_ended starts goOn ends]
        exact .run starts (fun line member => continues_iff.1 (goOn line member))
          (continues_eq_false_iff.1 ends) (grouped_join later)
termination_by lines.length

theorem Grouped.evenEnd (grouped : Grouped lines logical) : ∀ line ∈ logical, EvenEnd line := by
  induction grouped with
  | nil => exact fun _ member => absurd member List.not_mem_nil
  | remark _ _ ih => exact ih
  | run _ goOn ends _ ih =>
    have goOn' := fun line member => continues_iff.2 (goOn line member)
    apply List.forall_mem_cons.2 ⟨_, ih⟩
    rw [← continues_eq_false_iff, continues_append (continues_spliced goOn'),
      continues_eq_false_iff.2 ends]
  | cutOff _ _ goOn =>
    have goOn' := fun line member => continues_iff.2 (goOn line member)
    rw [List.forall_mem_singleton]
    exact continues_eq_false_iff.1 (continues_spliced goOn')

/-- The logical lines are what the physical lines, stripped at the left, come to if each is taken for
    what stands at its own end; and no logical line has a backslash left over at its end. -/
theorem logicalLines_grouped (text : List Char) (logical : List (List Char)) :
    (logicalLines text = logical ↔
      ∃ lines, Physical text lines ∧ Grouped (lines.map Text.trimStart) logical) ∧
    ∀ line ∈ logicalLines text, EvenEnd line := by
  constructor
  · constructor
    · intro same
      exact ⟨physicalLines text, physical_physicalLines text, same ▸ grouped_join _⟩
    · intro ⟨lines, physical, grouped⟩
      rw [logicalLines, physical.eq, grouped.eq]
  · exact (grouped_join ((physicalLines text).map Text.trimStart)).evenEnd

/-- A remark does not go on, but it is kept where another line goes on with it.  Three of the
    backslashes stand on a line of their own. -/
def tangled : List Char := "# a\\\r\n k=b\\\n# c\\\n \\\\\\\n\n\n! d\ne\\".toList

theorem logicalLines_grouped_tangled :
    (∃ lines, Physical tangled lines ∧
      Grouped (lines.map Text.trimStart) ["k=b# c\\\\".toList, "e".toList]) ∧
    EvenEnd "k=b# c\\\\".toList :=
  have read : logicalLines tangled = ["k=b# c\\\\".toList, "e".toList] := by decide
  ⟨(logicalLines_grouped tangled _).1.1 read,
    (logicalLines_grouped tangled []).2 _ (read ▸ List.mem_cons_self)⟩

end SegmentCatalog.PropertyFile
