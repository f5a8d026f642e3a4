import SegmentCatalog.Proofs.Text.Protection

/-! # Reading a text in two parts

Reading the escapes of one text behind another gives what the two are read as by themselves, unless
the last token of the first one takes in something of the second.  Only two kinds of tokens can: the
backslash that is left over at the end, and an octal escape with room for another digit.

A text is `Finished` if its last token is neither.  `finished_iff` says that these are exactly the
texts that are read the same way whatever stands behind them.  A text whose last token is neither a
backslash that is left over nor an octal escape is one of them (`Literal.unescaped_append`).
-/

namespace SegmentCatalog

namespace Text

/-- The last token of a text that is a row of tokens. -/
inductive LastToken : List Char → List Char → Prop
  | here {token : List Char} {c : Char} (alone : Token FourCharacters token [] c) :
      LastToken token token
  | behind {token rest last : List Char} {c : Char} (first : Token FourCharacters token rest c)
      (later : LastToken rest last) : LastToken (token ++ rest) last

def OctalEscape (token : List Char) : Prop :=
  ∃ first more, token = '\\' :: first :: more ∧ OctalDigit first

/-- Nothing that stands behind the text can become a part of its last token. -/
def Finished (cs : List Char) : Prop :=
  ∀ last, LastToken cs last → last ≠ ['\\'] ∧ ¬ OpenOctal last

variable {c d : Char} {token token' rest rest' front last last' cs more : List Char}

/-! ## The last token -/

theorem Token.ne_nil (first : Token FourCharacters token rest c) : token ≠ [] := by
  rcases first.shape with ⟨rfl, _⟩ | ⟨_, rfl, _⟩ | ⟨_, _, rfl, _⟩
  all_goals simp

theorem LastToken.ne_nil (ends : LastToken cs last) : cs ≠ [] := by
  cases ends with
  | here alone => exact alone.ne_nil
  | behind first _ => simp [first.ne_nil]

/-- There is one way to take a token off a text. -/
theorem Token.unique (first : Token FourCharacters token rest c)
    (first' : Token FourCharacters token' rest' d) (same : token ++ rest = token' ++ rest') :
    token = token' ∧ rest = rest' := by
  obtain ⟨e, tail, whole, read⟩ := readChar_of_token first
  obtain ⟨e', tail', whole', read'⟩ := readChar_of_token first'
  rw [whole, whole'] at same
  cases same
  rw [read] at read'
  cases read'
  exact ⟨List.append_cancel_right (whole.trans whole'.symm), rfl⟩

theorem LastToken.unique (ends : LastToken cs last) (ends' : LastToken cs last') :
    last = last' := by
  -- the two go through the text in step, one token after the other
  induction ends with
  | @here token c alone =>
    generalize whole : token = text at ends'
    cases ends' with
    | here _ => rfl
    | behind first' later' =>
      obtain ⟨_, none⟩ := alone.unique first' (by rw [List.append_nil, whole])
      exact absurd none.symm later'.ne_nil
  | @behind token rest last c first later ih =>
    generalize whole : token ++ rest = text at ends'
    cases ends' with
    | here alone' =>
      obtain ⟨_, none⟩ := first.unique alone' (by rw [List.append_nil, whole])
      exact absurd none later.ne_nil
    | behind first' later' =>
      obtain ⟨_, same⟩ := first.unique first' whole
      exact ih (same ▸ later')

/-- In front of a text that is not empty, a token is one whatever comes behind that text. -/
theorem Token.append_of_ne_nil (first : Token FourCharacters token rest c) (filled : rest ≠ [])
    (tail : List Char) : Token FourCharacters token (rest ++ tail) c := by
  apply first.in_front_of
  · rintro rfl
    exact absurd first.rest_of_backslash filled
  · intro _ stops
    rwa [List.head?_append_of_ne_nil _ filled]

/-! ## Texts that are finished -/

theorem Token.append_of_finished (first : Token FourCharacters token rest c)
    (finished : Finished (token ++ rest)) (tail : List Char) :
    Token FourCharacters token (rest ++ tail) c := by
  by_cases empty : rest = []
  · subst empty
    rw [List.append_nil] at finished
    obtain ⟨whole, closed⟩ := finished token (.here first)
    apply first.in_front_of
    · exact fun same => absurd same whole
    · exact fun opened => absurd opened closed
  · exact first.append_of_ne_nil empty tail

theorem unescape?_append_of_finished (spelt : Spelt FourCharacters front cs)
    (finished : Finished front) (tail : List Char) :
    unescape? (front ++ tail) = (unescape? tail).map (cs ++ ·) := by
  induction spelt with
  | nil => simp
  | @cons token rest cs c first later ih =>
    have behind : Finished rest := fun last ends => finished last (.behind first ends)
    obtain ⟨d, left, whole, read⟩ := readChar_of_token (first.append_of_finished finished tail)
    rw [List.append_assoc, whole, unescape?_cons, read]
    simp only [Option.bind_some, ih behind, Option.map_map, Function.comp_def, List.cons_append]

/-! ## Texts that are not finished -/

/-- What the last token takes in adds no character. -/
theorem LastToken.absorbs (ends : LastToken cs last)
    (taken : Token FourCharacters (last ++ more) [] d) :
    ∃ out out', Spelt FourCharacters cs out ∧ Spelt FourCharacters (cs ++ more) out' ∧
      out.length = out'.length := by
  induction ends with
  | here alone =>
    have without := Spelt.cons alone .nil
    have within := Spelt.cons taken .nil
    rw [List.append_nil] at without within
    exact ⟨_, _, without, within, rfl⟩
  | @behind token rest last c first later ih =>
    obtain ⟨out, out', without, within, same⟩ := ih taken
    have here := first.append_of_ne_nil later.ne_nil more
    refine ⟨c :: out, c :: out', .cons first without, ?_, by simp [same]⟩
    rw [List.append_assoc]
    exact .cons here within

/-- An octal escape with room for another digit takes in a zero. -/
theorem OpenOctal.takes_zero (opened : OpenOctal token) :
    ∃ d, Token FourCharacters (token ++ ['0']) [] d := by
  obtain ⟨first, more, rfl, octal, fewer⟩ := opened
  have zero : OctalDigit '0' := ⟨0, by decide, rfl⟩
  have digits : ∀ d ∈ first :: (more ++ ['0']), OctalDigit d := by
    rw [← List.cons_append]
    exact List.forall_mem_append.2 ⟨octal, List.forall_mem_singleton.2 zero⟩
  have bounded : (more ++ ['0']).length < octalLimit first := by simpa using fewer
  exact ⟨_, .octal digits bounded (.inr (by simp))⟩

/-- The finished texts are those that are read the same way whatever stands behind them. -/
theorem finished_iff (spelt : Spelt FourCharacters front cs) :
    Finished front ↔ ∀ tail, unescape? (front ++ tail) = (unescape? tail).map (cs ++ ·) := by
  refine ⟨unescape?_append_of_finished spelt, fun composes last ends => ?_⟩
  -- a character that the last token takes in would have to be read as one more
  have takesNothing : ∀ e, (∃ d, Token FourCharacters (last ++ [e]) [] d) →
      unescape? [e] ≠ some [e] := by
    intro e ⟨d, taken⟩ read
    obtain ⟨out, out', without, within, same⟩ := ends.absorbs taken
    have whole := composes [e]
    rw [← unescape?_eq_some_iff] at spelt without within
    rw [within, read] at whole
    rw [spelt] at without
    cases without
    cases whole
    simp at same
  constructor
  · rintro rfl
    have backslash : ('\\', '\\') ∈ namedEscapes := by decide
    exact takesNothing '\\' ⟨_, .named backslash⟩ unescape?_backslash
  · intro opened
    have zero : unescape? ['0'] = some ['0'] := by simp [unescape?_cons, readChar]
    exact takesNothing '0' opened.takes_zero zero

end Text

namespace Literal

open Text (LastToken OctalEscape FourCharacters)

theorem unescaped_eq_error_iff {raw : String} {e : DecodeError} :
    unescaped raw = .error e ↔ Text.unescape? raw.toList = none ∧ e = .invalidEscape raw := by
  rw [unescaped]
  cases Text.unescape? raw.toList <;> simp [eq_comm]

/-- If the last token of a text is neither a backslash that is left over nor an octal escape, then
    reading another text behind it gives what the two are read as by themselves, or fails if the
    other text cannot be read. -/
theorem unescaped_append {a b x : String} (read : unescaped a = .ok x)
    (noBackslash : ¬ LastToken a.toList ['\\'])
    (noOctal : ∀ last, LastToken a.toList last → ¬ OctalEscape last) :
    (∀ y, unescaped b = .ok y → unescaped (a ++ b) = .ok (x ++ y)) ∧
    ∀ e, unescaped b = .error e → unescaped (a ++ b) = .error (.invalidEscape (a ++ b)) := by
  have finished : Text.Finished a.toList := by
    intro last ends
    constructor
    · rintro rfl
      exact noBackslash ends
    · intro ⟨first, more, shape, octal, _⟩
      exact noOctal last ends ⟨first, more, shape, octal first (List.mem_cons_self ..)⟩
  have composes := (Text.finished_iff (unescaped_eq_ok_iff.1 read)).1 finished b.toList
  rw [← String.toList_append] at composes
  constructor
  · intro y behind
    rw [unescaped_eq_ok_iff, ← Text.unescape?_eq_some_iff] at behind ⊢
    rw [composes, behind, Option.map_some, String.toList_append]
  · intro e refused
    obtain ⟨none, _⟩ := unescaped_eq_error_iff.1 refused
    rw [unescaped_eq_error_iff, composes, none]
    exact ⟨rfl, rfl⟩

/-- An octal escape that ends early, an escaped backslash and a code. -/
def closedByCode : String := "\\1018\\\\\\uu0041"

theorem lastToken_closedByCode : LastToken closedByCode.toList "\\uu0041".toList := by
  have one : Text.OctalDigit '1' := ⟨1, by decide, rfl⟩
  have zero : Text.OctalDigit '0' := ⟨0, by decide, rfl⟩
  have octal : ∀ d ∈ ['1', '0', '1'], Text.OctalDigit d := by simp [one, zero]
  have digits : Text.hexNumber? ['0', '0', '4', '1'] = some 'A'.toNat := by decide
  have code : Text.Token FourCharacters "\\uu0041".toList [] 'A' :=
    @Text.Token.code _ 1 _ _ _ (.inl ⟨rfl, Text.hexNumber?_eq_some_iff.1 digits⟩)
  have backslash : ('\\', '\\') ∈ Text.namedEscapes := by decide
  exact .behind (.octal octal (by decide) (.inl (by decide))) <|
    .behind (.plain (by decide)) <| .behind (.named backslash) <| .here code

/-- Digits behind the code, and a code that is cut off. -/
theorem unescaped_append_digits :
    unescaped closedByCode = .ok "A8\\A" ∧
    ¬ LastToken closedByCode.toList ['\\'] ∧
    (∀ last, LastToken closedByCode.toList last → ¬ OctalEscape last) ∧
    unescaped (closedByCode ++ "0\\60") = .ok ("A8\\A" ++ "00") ∧
    unescaped (closedByCode ++ "\\u004") = .error (.invalidEscape (closedByCode ++ "\\u004")) := by
  have read : unescaped closedByCode = .ok "A8\\A" := by decide +kernel
  have noBackslash : ¬ LastToken closedByCode.toList ['\\'] := fun other =>
    absurd (lastToken_closedByCode.unique other) (by decide)
  have noOctal : ∀ last, LastToken closedByCode.toList last → ¬ OctalEscape last := by
    intro last other ⟨first, more, shape, octal⟩
    rw [← lastToken_closedByCode.unique other] at shape
    obtain ⟨rfl, _⟩ := List.cons.inj (List.cons.inj shape).2
    obtain ⟨k, digit⟩ := Text.octalDigit_iff.1 octal
    cases digit
  have digits : unescaped "0\\60" = .ok "00" := by decide +kernel
  have cutOff : unescaped "\\u004" = .error (.invalidEscape "\\u004") := by decide +kernel
  exact ⟨read, noBackslash, noOctal, (unescaped_append read noBackslash noOctal).1 _ digits,
    (unescaped_append read noBackslash noOctal).2 _ cutOff⟩

end Literal

end SegmentCatalog
