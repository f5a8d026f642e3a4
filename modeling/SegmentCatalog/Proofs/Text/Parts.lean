import Mathlib.Data.List.DropRight
import SegmentCatalog.Text.Blank

/-! # Parts of a text

What is left of a text when white space is dropped at its ends is a part of it, and so is every
piece that it is cut into.  A property of texts that passes to their parts, such as to be free of
some sign or word, therefore passes to whatever they are trimmed and cut to.

* `trim_part` and its like are about trimming;
* `infix_of_mem_cutAt` about cutting;
* `infix_of_infix_append_cons` says that a word without the separator of two texts lies in one of
  them if it lies in the whole.
-/

namespace SegmentCatalog.Text

theorem trimStart_part (cs : List Char) : trimStart cs <:+: cs :=
  List.IsSuffix.isInfix <| List.dropWhile_suffix _

theorem trimEnd_part (cs : List Char) : trimEnd cs <:+: cs := by
  rw [← List.reverse_infix, trimEnd, List.reverse_reverse]
  exact List.IsSuffix.isInfix <| List.dropWhile_suffix _

theorem trim_part (cs : List Char) : trim cs <:+: cs :=
  (trimEnd_part _).trans (trimStart_part cs)

/-- What is dropped at the end is white space. -/
theorem exists_trimEnd_append (cs : List Char) :
    ∃ trail, trimEnd cs ++ trail = cs ∧ ∀ c ∈ trail, isBlank c = true :=
  ⟨cs.rtakeWhile isBlank, List.rdropWhile_append_rtakeWhile, fun _ => List.mem_rtakeWhile_imp⟩

theorem not_blank_of_getLast?_trimEnd (cs : List Char) :
    ∀ c ∈ (trimEnd cs).getLast?, isBlank c = false := by
  intro c last
  obtain ⟨filled, rfl⟩ := List.mem_getLast?_eq_getLast last
  exact Bool.eq_false_iff.2 (List.rdropWhile_last_not isBlank cs filled)

/-- The first piece is what the text starts with, the others are parts of it. -/
theorem cutAt_shape (cut : Char → Bool) (cs : List Char) :
    ∃ first others, cutAt cut cs = first :: others ∧ first <+: cs ∧
      ∀ piece ∈ others, piece <:+: cs := by
  induction cs with
  | nil => exact ⟨[], [], rfl, List.prefix_rfl, by simp⟩
  | cons c cs ih =>
    obtain ⟨first, others, shape, starts, parts⟩ := ih
    have behind : ∀ piece ∈ others, piece <:+: c :: cs := fun piece member =>
      List.infix_cons (parts piece member)
    rw [cutAt, shape]
    cases cut c with
    | true =>
      refine ⟨[], first :: others, rfl, List.nil_prefix, ?_⟩
      exact List.forall_mem_cons.2 ⟨List.infix_cons starts.isInfix, behind⟩
    | false => exact ⟨c :: first, others, rfl, List.cons_prefix_cons.2 ⟨rfl, starts⟩, behind⟩

theorem infix_of_mem_cutAt {cut : Char → Bool} {cs piece : List Char}
    (member : piece ∈ cutAt cut cs) : piece <:+: cs := by
  obtain ⟨first, others, shape, starts, parts⟩ := cutAt_shape cut cs
  rw [shape] at member
  cases member with
  | head => exact starts.isInfix
  | tail _ later => exact parts piece later

theorem infix_of_infix_append_cons {word front rest : List Char} {sep : Char} (absent : sep ∉ word)
    (inside : word <:+: front ++ sep :: rest) : word <:+: front ∨ word <:+: rest := by
  -- of what the word shares with the rest, the separator is the first character
  have apart : ∀ {start : List Char}, start <+: sep :: rest → (∀ c ∈ start, c ∈ word) →
      start = [] := by
    intro start isPrefix part
    cases start with
    | nil => rfl
    | cons c start =>
      obtain ⟨rfl, _⟩ := List.cons_prefix_cons.1 isPrefix
      exact absurd (part c (List.mem_cons_self ..)) absent
  rcases List.infix_append_iff.1 inside with inFront | behind | ⟨start, tail, rfl, ends, starts⟩
  · exact .inl inFront
  · cases List.infix_cons_iff.1 behind with
    | inl starts =>
      rw [apart starts fun _ member => member]
      exact .inl List.nil_infix
    | inr inRest => exact .inr inRest
  · have none : tail = [] := apart starts fun _ member => List.mem_append_right _ member
    rw [none, List.append_nil]
    exact .inl ends.isInfix

end SegmentCatalog.Text
