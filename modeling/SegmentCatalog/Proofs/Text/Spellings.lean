import SegmentCatalog.Proofs.Text.Grammar

/-! # Spellings of a character

Most characters can be written in more than one way: as they are, behind a backslash, by a name, by
a hexadecimal code with any number of u's, or by an octal code of three digits.  `Spelling` lists
these ways.

What makes them safe to use is that none of them depends on what comes next: a spelling is a token
in front of every text (`Spelling.token`).  This is why octal codes are written with all of their
digits.  Spellings can therefore be put in a row in any choice, and the row is read as the
characters that were spelt (`Literal.unescaped_spellings`).
-/

namespace SegmentCatalog

namespace Text

/-- The ways to write a character that do not depend on what comes next. -/
inductive Spelling : List Char → Char → Prop
  | plain {c : Char} (other : c ≠ '\\') : Spelling [c] c
  | escaped {c : Char} (free : c ∉ ['t', 'n', 'r', 'b', 'f', 'u']) (noOctal : ¬ OctalDigit c) :
      Spelling ['\\', c] c
  | named {sign c : Char} (listed : (sign, c) ∈ namedEscapes) : Spelling ['\\', sign] c
  | code {more : Nat} {digits : List Char} {c : Char} (denotes : FourDigits digits c.toNat) :
      Spelling ('\\' :: 'u' :: (List.replicate more 'u' ++ digits)) c
  | octal {digits : List Char} {c : Char} (three : digits.length = 3)
      (octal : ∀ d ∈ digits, OctalDigit d) (value : Nat.ofDigitChars 8 digits 0 = c.toNat)
      (small : c.toNat ≤ 0xff) : Spelling ('\\' :: digits) c

variable {c d : Char} {spelt : List Char}

/-- A sign that names itself, or none of those that name something. -/
theorem named_self (free : c ∉ ['t', 'n', 'r', 'b', 'f', 'u']) :
    (c, c) ∈ namedEscapes ∨ c ∉ namedEscapes.map Prod.fst := by
  by_cases listed : c ∈ namedEscapes.map Prod.fst
  · have others : ∀ sign ∈ namedEscapes.map Prod.fst, sign ∉ ['t', 'n', 'r', 'b', 'f', 'u'] →
        (sign, sign) ∈ namedEscapes := by
      simp [namedEscapes]
    exact .inl (others c listed free)
  · exact .inr listed

/-- Three octal digits that come to no more than 255 start with one of the first four. -/
theorem octalLimit_of_small {more : List Char} (octal : OctalDigit d) (two : more.length = 2)
    (small : Nat.ofDigitChars 8 (d :: more) 0 ≤ 0xff) : octalLimit d = 3 := by
  obtain ⟨k, digit⟩ := octalDigit_iff.1 octal
  obtain ⟨a, b, rfl⟩ := List.length_eq_two.1 two
  have low : k ≤ 3 := by
    simp only [Nat.ofDigitChars_cons, Nat.ofDigitChars_nil, value_of_octalDigit? digit] at small
    omega
  rw [octalLimit_eq digit, if_pos low]

/-- A spelling is a token in front of every text. -/
theorem Spelling.token (spelling : Spelling spelt c) (rest : List Char) :
    Token FourCharacters spelt rest c := by
  cases spelling with
  | plain other => exact .plain other
  | escaped free noOctal =>
    have noCode : c ≠ 'u' := by
      intro same
      simp [same] at free
    cases named_self free with
    | inl listed => exact .named listed
    | inr unnamed => exact .other noCode noOctal unnamed
  | named listed => exact .named listed
  | code denotes => exact .code (.inl denotes)
  | octal three octal value small =>
    obtain ⟨d, more, rfl⟩ := List.exists_cons_of_length_eq_add_one three
    have two : more.length = 2 := by simpa using three
    rw [← value] at small
    have limit := octalLimit_of_small (octal d (List.mem_cons_self ..)) two small
    have character : c = .ofNat (Nat.ofDigitChars 8 (d :: more) 0) := by
      rw [value, Char.ofNat_toNat]
    rw [character]
    exact .octal octal (by omega) (.inl (by omega))

theorem spelt_of_spellings {spellings : List (List Char)} {cs : List Char}
    (each : List.Forall₂ Spelling spellings cs) : Spelt FourCharacters spellings.flatten cs := by
  induction each with
  | nil => exact .nil
  | cons here _ ih => exact .cons (here.token _) ih

end Text

namespace Literal

/-- However each character of a text is spelt, the spellings in a row are read as the text. -/
theorem unescaped_spellings {spellings : List (List Char)} {text : String}
    (each : List.Forall₂ Text.Spelling spellings text.toList) :
    unescaped (.ofList spellings.flatten) = .ok text := by
  rw [unescaped_eq_ok_iff, String.toList_ofList]
  exact Text.spelt_of_spellings each

/-- Digits, a letter u and a backslash stand behind escapes that could have gone on with them. -/
def mixedSpellings : List (List Char) :=
  [['\\', '1', '0', '1'], ['7'], ['\\', '\\'], ['u'], ['\\', 'u', 'u', '0', '0', 'e', '9'], ['0'],
    ['\\', '8'], ['\\', 't']]

theorem unescaped_spellings_mixed :
    List.Forall₂ Text.Spelling mixedSpellings "A7\\ué08\t".toList ∧
    unescaped "\\1017\\\\u\\uu00e90\\8\\t" = .ok "A7\\ué08\t" := by
  have octal : Text.Spelling ['\\', '1', '0', '1'] 'A' := by
    apply Text.Spelling.octal
    · rfl
    · have one : Text.OctalDigit '1' := ⟨1, by decide, rfl⟩
      have zero : Text.OctalDigit '0' := ⟨0, by decide, rfl⟩
      simp [one, zero]
    · decide
    · decide
  have code : Text.Spelling ['\\', 'u', 'u', '0', '0', 'e', '9'] 'é' := by
    have digits : Text.hexNumber? ['0', '0', 'e', '9'] = some 'é'.toNat := by decide
    exact @Text.Spelling.code 1 _ _ ⟨rfl, Text.hexNumber?_eq_some_iff.1 digits⟩
  have eight : ¬ Text.OctalDigit '8' := by
    unfold Text.OctalDigit
    decide
  have each : List.Forall₂ Text.Spelling mixedSpellings "A7\\ué08\t".toList :=
    .cons octal <| .cons (.plain (by decide)) <| .cons (.named (by decide)) <|
      .cons (.plain (by decide)) <| .cons code <| .cons (.plain (by decide)) <|
      .cons (.escaped (by decide) eight) <| .cons (.named (by decide)) .nil
  have row : String.ofList mixedSpellings.flatten = "\\1017\\\\u\\uu00e90\\8\\t" := by decide
  rw [← row]
  exact ⟨each, unescaped_spellings each⟩

end Literal

end SegmentCatalog
