import Mathlib.Data.List.Induction
import SegmentCatalog.Proofs.Text.Protection

/-! # Trimming in front of reading

White space is dropped from a text before its escapes are read, and this is done without a look at
the escapes.  In front nothing can go wrong, for no escape starts with white space.  Behind, the
last character of an escape may be dropped, but only that of an escape of two characters; its
backslash is left over and stands for itself (`Spelt.of_concat_blank`).

So a trimmed text is read as a part of what the whole text is read as, but for one backslash that
may have come at its end (`Spelt.trim_part`).
-/

namespace SegmentCatalog.Text

variable {c d : Char} {front cs token rest out item : List Char}

/-! ## White space in a token -/

theorem hexDigit?_of_blank (blank : isBlank c = true) : hexDigit? c = none := by
  cases digit : hexDigit? c with
  | none => rfl
  | some n =>
    have inert : Inert c := .inr (.inl (by rw [digit]; rfl))
    rw [inert.not_blank] at blank
    cases blank

theorem not_octal_of_blank (blank : isBlank c = true) : ¬ OctalDigit c := by
  have digits : ∀ n < 8, isBlank (Nat.digitChar n) = false := by decide
  rintro ⟨n, small, rfl⟩
  rw [digits n small] at blank
  cases blank

/-- A token that ends in white space is this character alone, or behind a backslash. -/
theorem Token.of_blank (first : Token FourCharacters (front ++ [c]) rest d)
    (blank : isBlank c = true) : d = c ∧ (front = [] ∨ front = ['\\']) := by
  have other : ∀ sign, isBlank sign = false → c ≠ sign := by
    rintro sign solid rfl
    rw [solid] at blank
    cases blank
  generalize whole : front ++ [c] = token at first
  have inside : c ∈ token := by simp [← whole]
  cases first with
  | plain _ =>
    have split : front ++ [c] = [] ++ [d] := whole
    obtain ⟨rfl, same⟩ := List.append_inj' split rfl
    exact ⟨(List.cons.inj same).1.symm, .inl rfl⟩
  | other _ _ _ =>
    have split : front ++ [c] = ['\\'] ++ [d] := whole
    obtain ⟨rfl, same⟩ := List.append_inj' split rfl
    exact ⟨(List.cons.inj same).1.symm, .inr rfl⟩
  | dangling => exact absurd (List.mem_singleton.1 inside) (other _ (by decide))
  | named listed =>
    have signs : ∀ pair ∈ namedEscapes, isBlank pair.1 = false := by decide
    have backslash := other '\\' (by decide)
    have sign := other _ (signs _ listed)
    simp [backslash, sign] at inside
  | code denotes =>
    have backslash := other '\\' (by decide)
    have letter := other 'u' (by decide)
    have digits := denotes.not_mem (hexDigit?_of_blank blank) (other '+' (by decide))
    simp [backslash, letter, digits] at inside
  | octal octal _ _ =>
    have backslash := other '\\' (by decide)
    have digits := mt (octal c) (not_octal_of_blank blank)
    exact absurd (List.mem_of_ne_of_mem backslash inside) digits

/-! ## White space at the end of a row of tokens -/

/-- White space at the end is a token of its own, or behind a backslash that stands for itself if
    nothing is behind it. -/
theorem Spelt.of_concat_blank (spelt : Spelt FourCharacters (front ++ [c]) out)
    (blank : isBlank c = true) :
    (∃ cs, Spelt FourCharacters front cs ∧ out = cs ++ [c]) ∨
      ∃ before cs, front = before ++ ['\\'] ∧ Spelt FourCharacters front (cs ++ ['\\']) ∧
        out = cs ++ [c] := by
  generalize whole : front ++ [c] = text at spelt
  induction spelt generalizing front with
  | nil => simp at whole
  | @cons token rest cs d first later ih =>
    cases List.eq_nil_or_concat rest with
    | inl empty =>
      subst empty
      rw [List.append_nil] at whole
      rw [← unescape?_eq_some_iff, unescape?_nil] at later
      cases later
      subst whole
      obtain ⟨rfl, rfl | rfl⟩ := first.of_blank blank
      · exact .inl ⟨[], .nil, rfl⟩
      · exact .inr ⟨[], [], rfl, .cons .dangling .nil, rfl⟩
    | inr filled =>
      obtain ⟨left, e, rfl⟩ := filled
      rw [List.concat_eq_append] at whole first ih
      rw [← List.append_assoc] at whole
      obtain ⟨rfl, same⟩ := List.append_inj' whole rfl
      cases same
      have here := first.of_append (List.cons_ne_nil _ _)
      rcases ih rfl with ⟨cs, before, rfl⟩ | ⟨before, cs, rfl, spelt, rfl⟩
      · exact .inl ⟨d :: cs, .cons here before, rfl⟩
      · refine .inr ⟨token ++ before, d :: cs, ?_, .cons here spelt, rfl⟩
        rw [List.append_assoc]

/-! ## Trimming -/

theorem spelt_unique {out' : List Char} (spelt : Spelt FourCharacters cs out)
    (spelt' : Spelt FourCharacters cs out') : out = out' := by
  rw [← unescape?_eq_some_iff] at spelt spelt'
  rw [spelt, Option.some.injEq] at spelt'
  exact spelt'

theorem Spelt.trimStart (spelt : Spelt FourCharacters cs out) :
    ∃ out', Spelt FourCharacters (trimStart cs) out' ∧ out' <:+ out := by
  induction cs generalizing out with
  | nil => exact ⟨out, spelt, List.suffix_rfl⟩
  | cons c cs ih =>
    by_cases blank : isBlank c = true
    · have plain : c ≠ '\\' := by
        rintro rfl
        cases blank
      rw [← unescape?_eq_some_iff, unescape?_cons_of_ne cs plain] at spelt
      obtain ⟨later, read, rfl⟩ := Option.map_eq_some_iff.1 spelt
      obtain ⟨out', spelt', ends⟩ := ih (unescape?_eq_some_iff.1 read)
      have dropped : Text.trimStart (c :: cs) = Text.trimStart cs := by
        simp [Text.trimStart, blank]
      rw [dropped]
      exact ⟨out', spelt', ends.trans (List.suffix_cons c later)⟩
    · rw [trimStart_of_not_blank cs (by simpa using blank)]
      exact ⟨out, spelt, List.suffix_rfl⟩

theorem Spelt.trimEnd (spelt : Spelt FourCharacters cs out) :
    ∃ out', Spelt FourCharacters (trimEnd cs) out' ∧
      (out' <+: out ∨ ∃ front, out' = front ++ ['\\'] ∧ front <+: out) := by
  induction cs using List.reverseRecOn generalizing out with
  | nil => exact ⟨out, spelt, .inl List.prefix_rfl⟩
  | append_singleton front c ih =>
    by_cases blank : isBlank c = true
    · have dropped : Text.trimEnd (front ++ [c]) = Text.trimEnd front := by
        simp [Text.trimEnd, blank]
      rw [dropped]
      rcases spelt.of_concat_blank blank with ⟨cs, spelt', rfl⟩ | ⟨before, cs, rfl, spelt', rfl⟩
      · obtain ⟨out', spelt', shorter⟩ := ih spelt'
        refine ⟨out', spelt', ?_⟩
        rcases shorter with starts | ⟨front, rfl, starts⟩
        · exact .inl (starts.trans (List.prefix_append cs [c]))
        · exact .inr ⟨front, rfl, starts.trans (List.prefix_append cs [c])⟩
      · -- the backslash that is left over is not white space
        rw [trimEnd_of_not_blank before (by decide)]
        exact ⟨_, spelt', .inr ⟨cs, rfl, List.prefix_append cs [c]⟩⟩
    · rw [trimEnd_of_not_blank front (by simpa using blank)]
      exact ⟨out, spelt, .inl List.prefix_rfl⟩

/-- What a trimmed text is read as, beside what the whole text is read as. -/
theorem Spelt.trim_part (spelt : Spelt FourCharacters cs out)
    (trimmed : Spelt FourCharacters (trim cs) item) :
    item <:+: out ∨ ∃ front, item = front ++ ['\\'] ∧ front <:+: out := by
  obtain ⟨out', spelt', ends⟩ := spelt.trimStart
  obtain ⟨out'', spelt'', shorter⟩ := spelt'.trimEnd
  cases spelt_unique trimmed spelt''
  rcases shorter with starts | ⟨front, same, starts⟩
  · exact .inl (starts.isInfix.trans ends.isInfix)
  · exact .inr ⟨front, same, starts.isInfix.trans ends.isInfix⟩

end SegmentCatalog.Text
