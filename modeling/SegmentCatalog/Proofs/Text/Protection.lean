import SegmentCatalog.Proofs.Text.Grammar

/-! # Backslashes that protect a character

Whoever looks for the separators of a text need not know the escapes: it is enough to skip the
character behind each backslash.  A text is settled if no backslash is left over when this is done,
so that a separator behind the text is not protected (`Settled`).

Escapes are longer than two characters, but what they have behind the second one is neither a
backslash nor a comma (`Token.shape`).  So no escape goes across a comma that is not protected, and
the texts on its two sides are read apart from each other (`spelt_append_comma_iff`).
-/

namespace SegmentCatalog.Text

/-- Every backslash has a character behind it to protect. -/
inductive Settled : List Char → Prop
  | nil : Settled []
  | plain {c : Char} {cs : List Char} (other : c ≠ '\\') (later : Settled cs) : Settled (c :: cs)
  | escaped {c : Char} {cs : List Char} (later : Settled cs) : Settled ('\\' :: c :: cs)

variable {group : List Char → Nat → Prop} {c d : Char} {n : Nat}
  {cs ds token front rest tail out : List Char}

/-! ## Settled texts -/

theorem settled_of_no_backslash (free : '\\' ∉ cs) : Settled cs := by
  induction cs with
  | nil => exact .nil
  | cons c cs ih =>
    rw [List.mem_cons, not_or] at free
    exact .plain (Ne.symm free.1) (ih free.2)

/-- Behind a backslash there is a character, whatever it is. -/
theorem Settled.of_backslash (settled : Settled ('\\' :: cs)) :
    ∃ c ds, cs = c :: ds ∧ Settled ds := by
  cases settled with
  | plain other _ => exact absurd rfl other
  | escaped later => exact ⟨_, _, rfl, later⟩

theorem Settled.of_cons (settled : Settled (c :: cs)) (other : c ≠ '\\') : Settled cs := by
  cases settled with
  | plain _ later => exact later
  | escaped _ => exact absurd rfl other

theorem Settled.append (first : Settled cs) (second : Settled ds) : Settled (cs ++ ds) := by
  induction first with
  | nil => exact second
  | plain other _ ih => exact .plain other ih
  | escaped _ ih => exact .escaped ih

theorem Settled.of_append (first : Settled cs) (whole : Settled (cs ++ ds)) : Settled ds := by
  induction first with
  | nil => exact whole
  | plain other _ ih => exact ih (whole.of_cons other)
  | escaped _ ih =>
    obtain ⟨_, _, same, later⟩ := Settled.of_backslash whole
    cases same
    exact ih later

/-! ## Protected characters -/

/-- Every special character of the text is protected. -/
def Shielded (special : Char → Prop) (cs : List Char) : Prop :=
  ∀ front c rest, cs = front ++ c :: rest → special c → ¬ Settled front

section Shielded

variable {special : Char → Prop}

theorem shielded_nil : Shielded special [] := by
  intro front c rest same
  simp at same

theorem Shielded.plain (shielded : Shielded special cs) (other : c ≠ '\\') (inside : ¬ special c) :
    Shielded special (c :: cs) := by
  intro front d behind same isSpecial settled
  cases front with
  | nil =>
    cases same
    exact inside isSpecial
  | cons e front =>
    obtain ⟨rfl, later⟩ := List.cons.inj same
    exact shielded front d behind later isSpecial (settled.of_cons other)

theorem Shielded.escaped (shielded : Shielded special cs) (plain : ¬ special '\\') :
    Shielded special ('\\' :: c :: cs) := by
  intro front d behind same isSpecial settled
  cases front with
  | nil =>
    cases same
    exact plain isSpecial
  | cons e front =>
    obtain ⟨rfl, later⟩ := List.cons.inj same
    obtain ⟨_, left, rfl, inside⟩ := settled.of_backslash
    exact shielded left d behind (List.cons.inj later).2 isSpecial inside

theorem Shielded.behind (settled : Settled cs) (shielded : Shielded special (cs ++ ds)) :
    Shielded special ds := by
  intro front c rest same isSpecial inside
  apply shielded (cs ++ front) c rest _ isSpecial (settled.append inside)
  rw [same, List.append_assoc]

end Shielded

/-! ## Tokens -/

theorem Hexadecimal.not_mem (spelt : Hexadecimal cs n) (noDigit : hexDigit? c = none) :
    c ∉ cs := by
  obtain ⟨_, each, -⟩ := spelt
  induction each with
  | nil => simp
  | cons here _ ih =>
    have other := ne_of_hexDigit? (hexDigit?_eq_some_iff.2 here) noDigit
    simp [other.symm, ih]

theorem FourCharacters.not_mem (spelt : FourCharacters cs n) (noDigit : hexDigit? c = none)
    (noSign : c ≠ '+') : c ∉ cs := by
  cases spelt with
  | inl four => exact four.2.not_mem noDigit
  | inr signed =>
    obtain ⟨digits, rfl, _, spelt⟩ := signed
    simp [noSign, spelt.not_mem noDigit]

theorem not_mem_of_octal (octal : ∀ d ∈ cs, OctalDigit d) (noDigit : octalDigit? c = none) :
    c ∉ cs := by
  intro member
  obtain ⟨k, digit⟩ := octalDigit_iff.1 (octal c member)
  rw [noDigit] at digit
  cases digit

/-- Behind its second character a token has neither a backslash nor a comma. -/
theorem Token.shape (first : Token FourCharacters token rest c) :
    (token = ['\\'] ∧ rest = []) ∨ (∃ d, token = [d] ∧ d ≠ '\\') ∨
      ∃ e more, token = '\\' :: e :: more ∧ '\\' ∉ more ∧ ',' ∉ more := by
  cases first with
  | plain other => exact .inr (.inl ⟨_, rfl, other⟩)
  | dangling => exact .inl ⟨rfl, rfl⟩
  | named _ => exact .inr (.inr ⟨_, [], rfl, by simp, by simp⟩)
  | @code more digits _ _ denotes =>
    have noBackslash : '\\' ∉ digits := denotes.not_mem (by decide) (by decide)
    have noComma : ',' ∉ digits := denotes.not_mem (by decide) (by decide)
    exact .inr (.inr ⟨_, _, rfl, by simp [noBackslash], by simp [noComma]⟩)
  | octal octal _ _ =>
    obtain ⟨_, later⟩ := List.forall_mem_cons.1 octal
    have noBackslash := not_mem_of_octal (c := '\\') later (by decide)
    have noComma := not_mem_of_octal (c := ',') later (by decide)
    exact .inr (.inr ⟨_, _, rfl, noBackslash, noComma⟩)
  | other _ _ _ => exact .inr (.inr ⟨_, [], rfl, by simp, by simp⟩)

theorem Token.settled (first : Token FourCharacters token rest c) (behind : rest ≠ []) :
    Settled token := by
  rcases first.shape with ⟨_, none⟩ | ⟨d, rfl, other⟩ | ⟨e, more, rfl, free, _⟩
  · exact absurd none behind
  · exact .plain other .nil
  · exact .escaped (settled_of_no_backslash free)

/-- An octal escape that has fewer digits than it may have. -/
def OpenOctal (token : List Char) : Prop :=
  ∃ first more, token = '\\' :: first :: more ∧ (∀ d ∈ first :: more, OctalDigit d) ∧
    more.length + 1 < octalLimit first

/-- What comes behind does not matter to a token, unless it goes on with an octal escape or gives a
    backslash something to escape. -/
theorem Token.in_front_of (first : Token group token rest c) (ends : token = ['\\'] → tail = [])
    (stops : OpenOctal token → (∀ d ∈ rest.head?, ¬ OctalDigit d) →
      ∀ d ∈ tail.head?, ¬ OctalDigit d) : Token group token tail c := by
  cases first with
  | plain other => exact .plain other
  | dangling =>
    rw [ends rfl]
    exact .dangling
  | named listed => exact .named listed
  | code denotes => exact .code denotes
  | @octal digit more _ octal bounded greedy =>
    apply Token.octal octal bounded
    cases greedy with
    | inl full => exact .inl full
    | inr noDigit =>
      cases Nat.lt_or_eq_of_le bounded with
      | inl fewer => exact .inr (stops ⟨digit, more, rfl, octal, fewer⟩ noDigit)
      | inr full => exact .inl full
  | other noCode noOctal unnamed => exact .other noCode noOctal unnamed

theorem Token.rest_of_backslash (first : Token group ['\\'] rest c) : rest = [] := by
  cases first with
  | plain other => exact absurd rfl other
  | dangling => rfl

theorem Token.append (first : Token FourCharacters token rest c) (settled : Settled token)
    (stops : ∀ d ∈ tail.head?, ¬ OctalDigit d) : Token FourCharacters token (rest ++ tail) c := by
  apply first.in_front_of
  · rintro rfl
    obtain ⟨_, _, same, _⟩ := settled.of_backslash
    cases same
  · intro _ ends
    cases rest with
    | nil => exact stops
    | cons d rest => exact ends

theorem Token.of_append (first : Token FourCharacters token (rest ++ tail) c) (filled : tail ≠ []) :
    Token FourCharacters token rest c := by
  apply first.in_front_of
  · rintro rfl
    exact absurd (List.append_eq_nil_iff.1 first.rest_of_backslash).2 filled
  · intro _ ends
    cases rest with
    | nil => simp
    | cons d rest => exact ends

/-- The token in front of a comma that is not protected ends there at the latest. -/
theorem Token.ends_at_comma (first : Token FourCharacters token tail c) (settled : Settled front)
    (filled : front ≠ []) (whole : token ++ tail = front ++ ',' :: rest) :
    ∃ left, front = token ++ left := by
  obtain ⟨d, front, rfl⟩ := List.exists_cons_of_ne_nil filled
  rcases first.shape with ⟨rfl, rfl⟩ | ⟨_, rfl, _⟩ | ⟨e, more, rfl, _, noComma⟩
  · simp at whole
  · cases whole
    exact ⟨front, rfl⟩
  · cases (List.cons.inj whole).1
    obtain ⟨_, left, rfl, _⟩ := settled.of_backslash
    simp only [List.cons_append, List.cons.injEq, true_and] at whole
    obtain ⟨rfl, behind⟩ := whole
    cases List.append_eq_append_iff.1 behind with
    | inl inside =>
      obtain ⟨more', rfl, _⟩ := inside
      exact ⟨more', rfl⟩
    | inr across =>
      obtain ⟨more', rfl, start⟩ := across
      cases more' with
      | nil => exact ⟨[], by simp⟩
      | cons _ _ =>
        cases start
        simp at noComma

/-! ## Rows of tokens -/

theorem Spelt.append (first : Spelt FourCharacters front cs) (settled : Settled front)
    (stops : ∀ d ∈ tail.head?, ¬ OctalDigit d) (second : Spelt FourCharacters tail ds) :
    Spelt FourCharacters (front ++ tail) (cs ++ ds) := by
  induction first with
  | nil => exact second
  | @cons token rest cs c first _ ih =>
    have here : Settled token := by
      cases rest with
      | nil => simpa using settled
      | cons d rest => exact first.settled (by simp)
    rw [List.append_assoc]
    exact .cons (first.append here stops) (ih (here.of_append settled))

theorem not_octal_head (noDigit : octalDigit? c = none) :
    ∀ d ∈ (c :: rest).head?, ¬ OctalDigit d := by
  intro d same octal
  cases same
  obtain ⟨k, digit⟩ := octalDigit_iff.1 octal
  rw [noDigit] at digit
  cases digit

theorem Spelt.of_append_comma (settled : Settled front)
    (spelt : Spelt FourCharacters (front ++ ',' :: rest) out) :
    ∃ cs ds, out = cs ++ ',' :: ds ∧ Spelt FourCharacters front cs ∧
      Spelt FourCharacters rest ds := by
  generalize whole : front ++ ',' :: rest = text at spelt
  induction spelt generalizing front with
  | nil => simp at whole
  | @cons token tail cs c first later ih =>
    cases front with
    | nil =>
      -- the comma is a token of its own
      rcases first.shape with ⟨rfl, _⟩ | ⟨_, rfl, _⟩ | ⟨_, _, rfl, _⟩
      · cases whole
      · cases whole
        cases first with
        | plain _ => exact ⟨[], cs, rfl, .nil, later⟩
      · cases whole
    | cons d front =>
      obtain ⟨left, shape⟩ := first.ends_at_comma settled (by simp) whole.symm
      rw [shape, List.append_assoc, List.append_cancel_left_eq] at whole
      subst whole
      have here : Settled token := first.settled (by simp)
      rw [shape] at settled ⊢
      obtain ⟨cs, ds, rfl, before, behind⟩ := ih (here.of_append settled) rfl
      exact ⟨c :: cs, ds, rfl, .cons (first.of_append (by simp)) before, behind⟩

/-- The texts on the two sides of a comma that is not protected are read apart from each other. -/
theorem spelt_append_comma_iff (settled : Settled front) :
    Spelt FourCharacters (front ++ ',' :: rest) out ↔
      ∃ cs ds, out = cs ++ ',' :: ds ∧ Spelt FourCharacters front cs ∧
        Spelt FourCharacters rest ds := by
  constructor
  · exact Spelt.of_append_comma settled
  · intro ⟨cs, ds, same, before, behind⟩
    rw [same]
    exact before.append settled (not_octal_head (by decide)) (.cons (.plain (by decide)) behind)

end SegmentCatalog.Text
