import SegmentCatalog.Proofs.Text.ReadBack

/-! # The words of a text

`Text.words` cuts a text at white space and leaves the empty pieces out.  `Worded` says what comes
out of it without cutting: the text is a row of words, with white space between any two of them
and maybe in front and behind.  A text has exactly one such row (`worded_iff`).
-/

namespace SegmentCatalog.Text

def Blanks (cs : List Char) : Prop := ∀ c ∈ cs, isBlank c = true

/-- One or more characters, and no white space among them. -/
structure Word (cs : List Char) : Prop where
  filled : cs ≠ []
  solid : ∀ c ∈ cs, isBlank c = false

/-- A word ends at the end of the text or in front of white space. -/
inductive Worded : List Char → List (List Char) → Prop
  | nil {cs : List Char} : Blanks cs → Worded cs []
  | last {before word : List Char} : Blanks before → Word word → Worded (before ++ word) [word]
  | cons {before word rest : List Char} {c : Char} {others : List (List Char)} : Blanks before →
      Word word → isBlank c = true → Worded rest others →
      Worded (before ++ word ++ c :: rest) (word :: others)

variable {cs before word rest : List Char} {c : Char} {others : List (List Char)}

theorem Blanks.cons (blank : isBlank c = true) (blanks : Blanks cs) : Blanks (c :: cs) :=
  List.forall_mem_cons.2 ⟨blank, blanks⟩

theorem Word.cons (solid : isBlank c = false) (rest : ∀ d ∈ cs, isBlank d = false) :
    Word (c :: cs) :=
  ⟨List.cons_ne_nil c cs, List.forall_mem_cons.2 ⟨solid, rest⟩⟩

/-! ## Cutting -/

/-- White space cuts a text in two, and its words with it. -/
theorem words_append_blank (front : List Char) (blank : isBlank c = true) (rest : List Char) :
    words (front ++ c :: rest) = words front ++ words rest := by
  rw [words, cutAt_append_cons blank, List.filter_append]
  rfl

theorem words_blanks_append (blanks : Blanks before) (rest : List Char) :
    words (before ++ rest) = words rest := by
  induction before with
  | nil => rfl
  | cons c before ih =>
    obtain ⟨here, later⟩ := List.forall_mem_cons.1 blanks
    rw [← ih later]
    exact words_append_blank [] here (before ++ rest)

theorem words_blanks (blanks : Blanks cs) : words cs = [] := by
  have whole := words_blanks_append blanks []
  rwa [List.append_nil] at whole

theorem words_word (isWord : Word word) : words word = [word] := by
  simp [words, cutAt_of_solid isWord.solid, isWord.filled]

/-! ## Rows of words -/

theorem Worded.eq_words (worded : Worded cs others) : words cs = others := by
  induction worded with
  | nil blanks => exact words_blanks blanks
  | last blanks isWord => rw [words_blanks_append blanks, words_word isWord]
  | cons blanks isWord blank _ ih =>
    rw [words_append_blank _ blank, words_blanks_append blanks, words_word isWord, ih]
    rfl

theorem Worded.of_blank (blank : isBlank c = true) (worded : Worded cs others) :
    Worded (c :: cs) others := by
  cases worded with
  | nil blanks => exact .nil (blanks.cons blank)
  | last blanks isWord => exact .last (blanks.cons blank) isWord
  | cons blanks isWord gap later => exact .cons (blanks.cons blank) isWord gap later

/-- A character in front of a text lengthens the first word, or is a word of its own if the text
    starts with white space. -/
theorem exists_worded_cons (solid : isBlank c = false) (worded : Worded cs others) :
    ∃ others, Worded (c :: cs) others := by
  have alone : Word [c] := .cons solid nofun
  have none : Blanks [] := nofun
  have behindBlank : ∀ {d rest others}, isBlank d = true → Worded rest others →
      ∃ others, Worded (c :: d :: rest) others := fun gap later =>
    ⟨_, .cons none alone gap later⟩
  cases worded with
  | nil blanks =>
    cases cs with
    | nil => exact ⟨_, .last none alone⟩
    | cons d cs =>
      obtain ⟨here, later⟩ := List.forall_mem_cons.1 blanks
      exact behindBlank here (.nil later)
  | @last before word blanks isWord =>
    cases before with
    | nil => exact ⟨_, .last none (.cons solid isWord.solid)⟩
    | cons d before =>
      obtain ⟨here, later⟩ := List.forall_mem_cons.1 blanks
      exact behindBlank here (.last later isWord)
  | @cons before word rest e others blanks isWord gap later =>
    cases before with
    | nil => exact ⟨_, .cons none (.cons solid isWord.solid) gap later⟩
    | cons d before =>
      obtain ⟨here, between⟩ := List.forall_mem_cons.1 blanks
      exact behindBlank here (.cons between isWord gap later)

theorem exists_worded (cs : List Char) : ∃ others, Worded cs others := by
  induction cs with
  | nil => exact ⟨[], .nil nofun⟩
  | cons c cs ih =>
    obtain ⟨others, worded⟩ := ih
    cases blank : isBlank c with
    | true => exact ⟨others, worded.of_blank blank⟩
    | false => exact exists_worded_cons blank worded

theorem worded_iff : Worded cs others ↔ words cs = others := by
  refine ⟨Worded.eq_words, fun same => ?_⟩
  obtain ⟨row, worded⟩ := exists_worded cs
  rwa [← same, worded.eq_words]

/-! ## Two words -/

theorem worded_single (blanks : Blanks before) (isWord : Word word) {after : List Char}
    (behind : Blanks after) : Worded (before ++ word ++ after) [word] := by
  cases after with
  | nil =>
    rw [List.append_nil]
    exact .last blanks isWord
  | cons c after =>
    obtain ⟨here, later⟩ := List.forall_mem_cons.1 behind
    exact .cons blanks isWord here (.nil later)

theorem words_eq_pair_iff {a b : List Char} :
    words cs = [a, b] ↔ ∃ before between after, cs = before ++ a ++ between ++ b ++ after ∧
      Blanks before ∧ Word a ∧ Blanks between ∧ between ≠ [] ∧ Word b ∧ Blanks after := by
  rw [← worded_iff]
  constructor
  · intro worded
    cases worded with
    | @cons before _ _ c _ blanks first gap later =>
      cases later with
      | @last between _ blanks' second =>
        refine ⟨before, c :: between, [], by simp, blanks, first, blanks'.cons gap,
          List.cons_ne_nil _ _, second, nofun⟩
      | @cons between _ after d _ blanks' second gap' later' =>
        cases later' with
        | nil blanks'' =>
          refine ⟨before, c :: between, d :: after, by simp, blanks, first, blanks'.cons gap,
            List.cons_ne_nil _ _, second, blanks''.cons gap'⟩
  · rintro ⟨before, between, after, rfl, blanks, first, gap, filled, second, behind⟩
    obtain ⟨c, between, rfl⟩ := List.exists_cons_of_ne_nil filled
    obtain ⟨here, later⟩ := List.forall_mem_cons.1 gap
    have row := Worded.cons blanks first here (worded_single later second behind)
    simpa using row

end SegmentCatalog.Text
