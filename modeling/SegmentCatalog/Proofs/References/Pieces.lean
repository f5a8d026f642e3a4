import Mathlib.Data.List.TakeWhile
import SegmentCatalog.Config.Reference

/-! # Which references a text has

A reference is a dollar sign and a name in braces, the name being one or more characters other
than the closing brace; with a second dollar sign in front it is an escaped one.

* `Piece.reference?_eq_some_iff` says so of the reader, which looks at the front of a text;
* `Piece.ofText_append_comma` that two texts joined by a comma are split apart from each other,
  provided that every brace that a dollar sign opens in the first one is closed there;
* `Lookup.interpolate_of_no_opening` that a text in which no dollar sign opens a brace stands for
  itself.
-/

namespace SegmentCatalog.Piece

/-! ## References at the front -/

theorem name?_eq_some_iff {cs name rest : List Char} :
    name? cs = some (name, rest) ↔ name ≠ [] ∧ '}' ∉ name ∧ cs = name ++ '}' :: rest := by
  constructor
  · intro found
    have whole := append_of_name? found
    have taken : cs.takeWhile (· != '}') = name := by
      simp only [name?] at found
      split at found
      · cases found
      · cases found
      · cases found
        rfl
    refine ⟨?_, ?_, whole⟩
    · rintro rfl
      rw [name?, taken] at found
      cases found
    · intro member
      rw [← taken] at member
      exact absurd (List.mem_takeWhile_imp member) (by decide)
  · rintro ⟨filled, solid, rfl⟩
    -- the name is taken up to the first brace, which is the one behind it
    have inside : ∀ c ∈ name, (c != '}') = true := by
      intro c member
      rw [bne_iff_ne]
      rintro rfl
      exact solid member
    have front : (name ++ '}' :: rest).takeWhile (· != '}') = name := by
      rw [List.takeWhile_append_of_pos inside]
      simp
    have back : (name ++ '}' :: rest).dropWhile (· != '}') = '}' :: rest := by
      rw [List.dropWhile_append_of_pos inside]
      simp
    obtain ⟨c, cs, rfl⟩ := List.exists_cons_of_ne_nil filled
    simp only [name?, front, back]

/-- A text starts with a reference or an escaped one exactly if that is what is read off it. -/
theorem reference?_eq_some_iff {cs rest : List Char} {piece : Piece} :
    reference? cs = some (piece, rest) ↔ ∃ name, name ≠ [] ∧ '}' ∉ name ∧
      (piece = reference name ∨ piece = escaped name) ∧ cs = piece.written ++ rest := by
  constructor
  · intro found
    have whole := written_append_of_reference? found
    unfold reference? at found
    split at found
    · obtain ⟨⟨name, left⟩, named, same⟩ := Option.map_eq_some_iff.1 found
      cases same
      obtain ⟨filled, solid, _⟩ := name?_eq_some_iff.1 named
      exact ⟨name, filled, solid, .inr rfl, whole⟩
    · obtain ⟨⟨name, left⟩, named, same⟩ := Option.map_eq_some_iff.1 found
      cases same
      obtain ⟨filled, solid, _⟩ := name?_eq_some_iff.1 named
      exact ⟨name, filled, solid, .inl rfl, whole⟩
    · cases found
  · rintro ⟨name, filled, solid, rfl | rfl, rfl⟩
    · have named : name? (name ++ '}' :: rest) = some (name, rest) :=
        name?_eq_some_iff.2 ⟨filled, solid, rfl⟩
      simp [written, reference?, named]
    · have named : name? (name ++ '}' :: rest) = some (name, rest) :=
        name?_eq_some_iff.2 ⟨filled, solid, rfl⟩
      simp [written, reference?, named]

theorem reference?_of_ne {c : Char} (cs : List Char) (other : c ≠ '$') :
    reference? (c :: cs) = none := by
  unfold reference?
  split
  · exact absurd (List.cons.inj ‹_›).1 other
  · exact absurd (List.cons.inj ‹_›).1 other
  · rfl

theorem reference?_dollar_of_ne {d : Char} (cs : List Char) (plain : d ≠ '$') (other : d ≠ '{') :
    reference? ('$' :: d :: cs) = none := by
  unfold reference?
  split
  · exact absurd (List.cons.inj (List.cons.inj ‹_›).2).1 plain
  · exact absurd (List.cons.inj (List.cons.inj ‹_›).2).1 other
  · rfl

theorem reference?_dollars_of_ne {e : Char} (cs : List Char) (other : e ≠ '{') :
    reference? ('$' :: '$' :: e :: cs) = none := by
  unfold reference?
  split
  · exact absurd (List.cons.inj (List.cons.inj (List.cons.inj ‹_›).2).2).1 other
  · exact absurd (List.cons.inj (List.cons.inj ‹_›).2).1 (by decide)
  · rfl

theorem ofText_of_reference? {c : Char} {cs rest : List Char} {piece : Piece}
    (found : reference? (c :: cs) = some (piece, rest)) :
    ofText (c :: cs) = piece :: ofText rest := by
  rw [ofText]
  split
  · rename_i again
    rw [found] at again
    cases again
    rfl
  · rename_i missed
    rw [found] at missed
    cases missed

theorem ofText_of_not_reference {c : Char} {cs : List Char} (missed : reference? (c :: cs) = none) :
    ofText (c :: cs) = char c :: ofText cs := by
  rw [ofText]
  split
  · rename_i found
    rw [missed] at found
    cases found
  · rfl

/-- A reference, or an escaped one, is read off the front of whatever it stands in front of. -/
theorem ofText_written_append {piece : Piece} {name : List Char} (filled : name ≠ [])
    (solid : '}' ∉ name) (shape : piece = reference name ∨ piece = escaped name)
    (rest : List Char) : ofText (piece.written ++ rest) = piece :: ofText rest := by
  have found : reference? (piece.written ++ rest) = some (piece, rest) :=
    reference?_eq_some_iff.2 ⟨name, filled, solid, shape, rfl⟩
  cases text : piece.written ++ rest with
  | nil =>
    rw [text] at found
    cases found
  | cons c cs =>
    rw [text] at found
    exact ofText_of_reference? found

/-! ## Joined texts -/

/-- Every brace that a dollar sign opens is closed. -/
def Closed (cs : List Char) : Prop :=
  ∀ front rest, cs = front ++ '$' :: '{' :: rest → '}' ∈ rest

theorem Closed.of_append {front cs : List Char} (closed : Closed (front ++ cs)) : Closed cs := by
  intro more rest same
  exact closed (front ++ more) rest (by rw [same, List.append_assoc])

theorem Closed.of_getLast? {cs : List Char} (last : cs.getLast? = some '}') : Closed cs := by
  rintro front rest rfl
  rw [List.getLast?_append, List.getLast?_cons_cons] at last
  cases rest with
  | nil => cases last
  | cons c rest =>
    rw [List.getLast?_cons_cons] at last
    refine List.mem_of_getLast? (last ▸ ?_)
    rw [List.getLast?_cons, Option.some_or]

theorem name?_append {cs : List Char} (closed : '}' ∈ cs) (tail : List Char) :
    name? (cs ++ tail) = (name? cs).map fun (name, rest) => (name, rest ++ tail) := by
  obtain ⟨name, rest, rfl, solid⟩ := List.eq_append_cons_of_mem closed
  by_cases filled : name = []
  · subst filled
    simp [name?]
  · have here : name? (name ++ '}' :: rest) = some (name, rest) :=
      name?_eq_some_iff.2 ⟨filled, solid, rfl⟩
    rw [List.append_assoc, List.cons_append, here, Option.map_some]
    exact name?_eq_some_iff.2 ⟨filled, solid, rfl⟩

/-- A comma behind a text without an open brace does not change what the text starts with. -/
theorem reference?_append_comma {c : Char} {cs : List Char} (closed : Closed (c :: cs))
    (more : List Char) : reference? (c :: cs ++ ',' :: more) =
      (reference? (c :: cs)).map fun (piece, rest) => (piece, rest ++ ',' :: more) := by
  -- follow the patterns of the reader; the comma shows only where they stop for want of text
  by_cases dollar : c = '$'
  · subst dollar
    cases cs with
    | nil => exact reference?_dollar_of_ne more (by decide) (by decide)
    | cons d cs =>
      by_cases brace : d = '{'
      · subst brace
        have named := name?_append (closed [] cs rfl) (',' :: more)
        simp [reference?, named, Function.comp_def]
      · by_cases again : d = '$'
        · subst again
          cases cs with
          | nil => exact reference?_dollars_of_ne more (by decide)
          | cons e cs =>
            by_cases brace : e = '{'
            · subst brace
              have named := name?_append (closed ['$'] cs rfl) (',' :: more)
              simp [reference?, named, Function.comp_def]
            · rw [reference?_dollars_of_ne cs brace]
              exact reference?_dollars_of_ne _ brace
        · rw [reference?_dollar_of_ne cs again brace]
          exact reference?_dollar_of_ne _ again brace
  · rw [reference?_of_ne cs dollar]
    exact reference?_of_ne _ dollar

theorem ofText_append_comma {cs : List Char} (closed : Closed cs) (more : List Char) :
    ofText (cs ++ ',' :: more) = ofText cs ++ char ',' :: ofText more := by
  fun_induction ofText cs with
  | case1 => exact ofText_of_not_reference (reference?_of_ne more (by decide))
  | case2 c cs piece rest found ih =>
    have joined := reference?_append_comma closed more
    rw [found, Option.map_some] at joined
    -- what is behind a reference is a suffix of the text, so its braces are closed as well
    have suffix : Closed rest := by
      rw [written_append_of_reference? found] at closed
      exact closed.of_append
    rw [List.cons_append] at joined ⊢
    rw [ofText_of_reference? joined, ih suffix, List.cons_append]
  | case3 c cs missed ih =>
    have joined := reference?_append_comma closed more
    rw [missed, Option.map_none] at joined
    have suffix : Closed cs := (List.singleton_append ▸ closed : Closed ([c] ++ cs)).of_append
    rw [List.cons_append] at joined ⊢
    rw [ofText_of_not_reference joined, ih suffix, List.cons_append]

/-! ## Texts without references -/

/-- A reference opens with a dollar sign and a brace. -/
theorem reference?_of_no_opening {cs : List Char} (free : ¬ ['$', '{'] <:+: cs) :
    reference? cs = none := by
  cases found : reference? cs with
  | none => rfl
  | some outcome =>
    obtain ⟨name, _, _, shape, rfl⟩ := reference?_eq_some_iff.1 found
    apply absurd _ free
    cases shape with
    | inl isReference => exact ⟨[], name ++ '}' :: outcome.2, by simp [isReference, written]⟩
    | inr isEscaped => exact ⟨['$'], name ++ '}' :: outcome.2, by simp [isEscaped, written]⟩

theorem ofText_of_no_opening {cs : List Char} (free : ¬ ['$', '{'] <:+: cs) :
    ofText cs = cs.map char := by
  induction cs with
  | nil => simp
  | cons c cs ih =>
    rw [ofText_of_not_reference (reference?_of_no_opening free), List.map_cons,
      ih fun inside => free (List.infix_cons inside)]

end SegmentCatalog.Piece

namespace SegmentCatalog.Lookup

theorem writeOut_map_char (resolve : String → Memo → List Char × Memo) (cs : List Char)
    (memo : Memo) : writeOut resolve (cs.map .char) memo = (cs, memo) := by
  induction cs with
  | nil => rfl
  | cons c cs ih => rw [List.map_cons, writeOut, ih]

/-- A text without references stands for itself. -/
theorem interpolate_of_no_opening (lookup : Lookup) (key : String) {text : String}
    (free : ¬ ['$', '{'] <:+: text.toList) : lookup.interpolate key text = text := by
  rw [interpolate, Piece.ofText_of_no_opening free, writeOut_map_char]
  exact String.ofList_toList

end SegmentCatalog.Lookup
