import SegmentCatalog.Proofs.Text.Grammar

/-! # Reading escapes and the length of a text

A token that is an escape has at least two characters, and every other token is the character that
it stands for (`Token.alone_or_escape`).  So reading a text never gives more characters than it
has, gives none only if it has none, and gives the text itself only if it has no escape
(`Measured`): if the only backslash, if any, is the last character.
-/

namespace SegmentCatalog.Text

variable {group : List Char → Nat → Prop} {c : Char} {token rest cs out : List Char}

/-- A token is its character or an escape, and a backslash alone is only found at the end. -/
theorem Token.alone_or_escape (first : Token group token rest c) :
    (token = [c] ∧ (c = '\\' → rest = [])) ∨ ∃ e more, token = '\\' :: e :: more := by
  cases first with
  | plain other => exact .inl ⟨rfl, fun same => absurd same other⟩
  | dangling => exact .inl ⟨rfl, fun _ => rfl⟩
  | named _ => exact .inr ⟨_, [], rfl⟩
  | code _ => exact .inr ⟨'u', _, rfl⟩
  | octal _ _ _ => exact .inr ⟨_, _, rfl⟩
  | other _ _ _ => exact .inr ⟨_, [], rfl⟩

/-- How what a text is read as compares with the text. -/
structure Measured (cs out : List Char) : Prop where
  length_le : out.length ≤ cs.length
  nil_iff : out = [] ↔ cs = []
  same_iff : out = cs ↔ '\\' ∉ cs.dropLast

namespace Measured

theorem alone (later : Measured cs out) (ends : c = '\\' → cs = []) :
    Measured (c :: cs) (c :: out) where
  length_le := Nat.succ_le_succ later.length_le
  nil_iff := by simp
  same_iff := by
    rw [List.cons.injEq, later.same_iff]
    cases cs with
    | nil => simp
    | cons d cs =>
      have other : '\\' ≠ c := by
        rintro rfl
        cases ends rfl
      simp [other]

theorem escape {e : Char} {more : List Char} (later : Measured cs out) :
    Measured ('\\' :: e :: more ++ cs) (c :: out) where
  length_le := by
    have := later.length_le
    simp only [List.cons_append, List.length_cons, List.length_append]
    omega
  nil_iff := by simp
  same_iff := by
    have shorter : (c :: out).length < ('\\' :: e :: more ++ cs).length := by
      have := later.length_le
      simp only [List.cons_append, List.length_cons, List.length_append]
      omega
    have backslash : '\\' ∈ ('\\' :: e :: more ++ cs).dropLast := by simp
    constructor
    · intro same
      rw [same] at shorter
      exact absurd shorter (Nat.lt_irrefl _)
    · intro free
      exact absurd backslash free

end Measured

theorem Spelt.measured (spelt : Spelt group cs out) : Measured cs out := by
  induction spelt with
  | nil => exact ⟨Nat.le_refl 0, Iff.rfl, by simp⟩
  | cons first _ ih =>
    rcases first.alone_or_escape with ⟨rfl, ends⟩ | ⟨e, more, rfl⟩
    · exact ih.alone ends
    · exact ih.escape

end SegmentCatalog.Text
