import SegmentCatalog.Proofs.PropertyFile.Assignments

/-! # Spellings of a padding character

A padding character is read twice: the escapes of the file are resolved when the file is read, and
those of the value that this gives when the column is decoded.  Its code may be escaped once or
twice for that.  Escaped once, it is stored as the character, and the second reading leaves the
character alone, even a backslash, for nothing is behind it; escaped twice, it is stored as its
escape.

`PaddingSpelling.stored` says so.  As the file is read, there is nothing in a spelling to cut, trim
or go on with (`PaddingSpelling.distinct`, `PaddingSpelling.unpadded`, `PaddingSpelling.whole`).
-/

namespace SegmentCatalog.PropertyFile

open Text (FourDigits FourCharacters Inert Spelt)

/-- The spellings of a padding character as a value: its code behind a backslash, the same with the
    backslash doubled, or the character itself if it is above U+FFFF. -/
inductive PaddingSpelling : List Char → Char → Prop
  | once {digits : List Char} {c : Char} (denotes : FourDigits digits c.toNat) :
      PaddingSpelling ('\\' :: 'u' :: digits) c
  | twice {digits : List Char} {c : Char} (denotes : FourDigits digits c.toNat) :
      PaddingSpelling ('\\' :: '\\' :: 'u' :: digits) c
  | plain {c : Char} (high : 0x10000 ≤ c.toNat) : PaddingSpelling [c] c

variable {c : Char} {cs digits value : List Char} {n : Nat}

/-! ## Inert characters -/

theorem inert_of_fourDigits (denotes : FourDigits digits n) : ∀ d ∈ digits, Inert d := by
  obtain ⟨-, _, each, -⟩ := denotes
  induction each with
  | nil => simp
  | cons here _ ih =>
    have first := Text.hexDigit?_eq_some_iff.2 here
    exact List.forall_mem_cons.2 ⟨.inr (.inl (by rw [first]; rfl)), ih⟩

theorem inert_of_code (denotes : FourDigits digits n) : ∀ d ∈ 'u' :: digits, Inert d :=
  List.forall_mem_cons.2 ⟨.inl rfl, inert_of_fourDigits denotes⟩

theorem no_backslash_of_inert (inert : ∀ d ∈ cs, Inert d) : '\\' ∉ cs := fun member =>
  (inert _ member).ne (by decide) rfl

theorem whole_of_inert (inert : ∀ d ∈ cs, Inert d) : Whole cs := by
  induction cs with
  | nil => exact whole_nil
  | cons d cs ih =>
    obtain ⟨here, later⟩ := List.forall_mem_cons.1 inert
    exact (ih later).plain (here.ne (by decide)) (here.ne (by decide))

theorem unescape?_singleton (c : Char) : Text.unescape? [c] = some [c] := by
  by_cases backslash : c = '\\'
  · rw [backslash, Text.unescape?_backslash]
  · rw [Text.unescape?_cons_of_ne [] backslash, Text.unescape?_nil, Option.map_some]

namespace PaddingSpelling

/-! ## Reading the line -/

/-- A spelling ends in inert characters, and there are only backslashes in front of them. -/
theorem shape (spelling : PaddingSpelling value c) :
    ∃ front tail, value = front ++ tail ∧ (∀ d ∈ front, d = '\\') ∧ tail ≠ [] ∧
      ∀ d ∈ tail, Inert d := by
  cases spelling with
  | once denotes => exact ⟨['\\'], _, rfl, by simp, by simp, inert_of_code denotes⟩
  | twice denotes => exact ⟨['\\', '\\'], _, rfl, by simp, by simp, inert_of_code denotes⟩
  | plain high => exact ⟨[], [c], rfl, by simp, by simp, by simp [Inert, high]⟩

theorem mem (spelling : PaddingSpelling value c) {d : Char} (member : d ∈ value) :
    d = '\\' ∨ Inert d := by
  obtain ⟨front, tail, rfl, backslashes, _, inert⟩ := spelling.shape
  rcases List.mem_append.1 member with before | behind
  · exact .inl (backslashes d before)
  · exact .inr (inert d behind)

theorem inert_of_last (spelling : PaddingSpelling value c) : ∀ d ∈ value.getLast?, Inert d := by
  obtain ⟨front, tail, rfl, _, filled, inert⟩ := spelling.shape
  intro d last
  rw [List.getLast?_append_of_ne_nil _ filled] at last
  exact inert d (List.mem_of_mem_getLast? last)

theorem distinct (spelling : PaddingSpelling value c) : Distinct value where
  filled := by cases spelling <;> simp
  solid := by
    intro member
    rcases spelling.mem member with same | inert
    · cases same
    · exact inert.ne (by decide) rfl
  noSign := by
    intro d first
    rcases spelling.mem (List.mem_of_mem_head? first) with rfl | inert
    · exact ⟨by decide, by decide⟩
    · exact ⟨inert.ne (by decide), inert.ne (by decide)⟩
  noBackslash := fun d last => (spelling.inert_of_last d last).ne (by decide)

theorem unpadded (spelling : PaddingSpelling value c) : Unpadded value where
  first := by
    intro d first
    rcases spelling.mem (List.mem_of_mem_head? first) with rfl | inert
    · rfl
    · exact inert.not_blank
  last := fun d last => (spelling.inert_of_last d last).not_blank

theorem whole (spelling : PaddingSpelling value c) : Whole value := by
  cases spelling with
  | once denotes => exact (whole_of_inert (inert_of_fourDigits denotes)).escaped
  | twice denotes => exact (whole_of_inert (inert_of_code denotes)).escaped
  | plain high => exact whole_of_inert (by simp [Inert, high])

/-! ## Reading the value -/

/-- What is stored for a spelling is no reference, and is read as the character. -/
structure Stored (value : List Char) (c : Char) (out : List Char) : Prop where
  carries : Carries value out
  noReference : ¬ ['$', '{'] <:+: out
  read : Text.unescape? out = some [c]

theorem spelt_code (denotes : FourDigits digits c.toNat) :
    Spelt FourCharacters ('\\' :: 'u' :: digits) [c] := by
  have code := @Text.Spelling.code 0 _ _ denotes
  simpa using Spelt.cons (code.token []) .nil

theorem not_opening_singleton (c : Char) : ¬ ['$', '{'] <:+: [c] := by
  intro inside
  have shorter := inside.length_le
  simp at shorter

theorem stored (spelling : PaddingSpelling value c) : ∃ out, Stored value c out := by
  have unpadded := spelling.unpadded
  have whole := spelling.whole
  cases spelling with
  | once denotes =>
    exact ⟨[c], ⟨unpadded, whole, spelt_code denotes⟩, not_opening_singleton c,
      unescape?_singleton c⟩
  | @twice digits _ denotes =>
    have inert := inert_of_code denotes
    have tail := Text.unescape?_of_no_backslash (no_backslash_of_inert inert)
    refine ⟨'\\' :: 'u' :: digits, ⟨unpadded, whole, ?_⟩, ?_, ?_⟩
    · have backslashes : ('\\', '\\') ∈ Text.namedEscapes := by decide
      exact .cons (.named backslashes) (Text.unescape?_eq_some_iff.1 tail)
    · intro inside
      have brace : '{' ∈ '\\' :: 'u' :: digits := inside.mem (by simp)
      rcases List.mem_cons.1 brace with same | member
      · cases same
      · exact (inert _ member).ne (by decide) rfl
    · exact Text.unescape?_eq_some_iff.2 (spelt_code denotes)
  | plain high =>
    have read := Text.unescape?_eq_some_iff.1 (unescape?_singleton c)
    exact ⟨[c], ⟨unpadded, whole, read⟩, not_opening_singleton c, unescape?_singleton c⟩

end PaddingSpelling

end SegmentCatalog.PropertyFile
