import SegmentCatalog.Proofs.Text.Grammar
import SegmentCatalog.Proofs.Text.CodeUnits

/-! # Texts written unit by unit

A text can be written in ASCII alone, each of its UTF-16 units as a backslash, a letter u and four
hexadecimal digits (`unitEscapes`).  A character up to U+FFFF is one unit and is read back from its
escape.  A character above is a pair of surrogates, and each escape is read on its own: a surrogate
is no character, so the whole text is refused (`Literal.unescaped_unitEscapes`).
-/

namespace SegmentCatalog

namespace Text

/-- Groups of digits, each behind a backslash and a letter u. -/
def unitEscapes (groups : List (List Char)) : List Char :=
  groups.flatMap fun digits => '\\' :: 'u' :: digits

theorem unitEscapes_cons (digits : List Char) (others : List (List Char)) :
    unitEscapes (digits :: others) = '\\' :: 'u' :: (digits ++ unitEscapes others) := rfl

/-- The groups of four digits are those of the UTF-16 units of a text. -/
def UnitsOf (groups : List (List Char)) (cs : List Char) : Prop :=
  List.Forall₂ (fun digits unit => FourDigits digits unit.toNat) groups (utf16 cs)

variable {c : Char} {cs digits : List Char} {groups : List (List Char)} {n : Nat}

theorem readCode_fourDigits (denotes : FourDigits digits n) (rest : List Char) :
    readCode (digits ++ rest) = (charOfCode? n).map (·, rest) := by
  have spelt : FourCharacters digits n := .inl denotes
  obtain ⟨a, b, e, f, rfl, apart⟩ := spelt.shape
  have code := (hexCode?_eq_some_iff rfl).2 spelt
  have behind : ([a, b, e, f] ++ rest).dropWhile (· == 'u') = a :: b :: e :: f :: rest := by
    simp [apart]
  rw [readCode, behind]
  simp only [code, Option.bind_eq_bind, Option.bind_some]
  cases charOfCode? n <;> rfl

/-- An escape is read as the character that its code denotes, whatever stands behind it. -/
theorem unescape?_fourDigits (denotes : FourDigits digits n) (rest : List Char) :
    unescape? ('\\' :: 'u' :: (digits ++ rest)) =
      (charOfCode? n).bind fun c => (unescape? rest).map (c :: ·) := by
  rw [unescape?_cons, readChar, readEscape, if_pos rfl, readCode_fourDigits denotes]
  cases charOfCode? n <;> rfl

/-- The first unit of a pair is a surrogate. -/
theorem charOfCode?_high (high : 0x10000 ≤ c.toNat) :
    charOfCode? (UInt16.ofNat (0xd800 + (c.toNat - 0x10000) / 0x400)).toNat = none := by
  have bound := toNat_lt c
  have unit : 0xd800 + (c.toNat - 0x10000) / 0x400 < 0xdc00 := by omega
  have surrogate : ¬ (0xd800 + (c.toNat - 0x10000) / 0x400).isValidChar := by
    unfold Nat.isValidChar
    omega
  rw [UInt16.toNat_ofNat_of_lt' (Nat.lt_trans unit (by decide)), charOfCode?, dif_neg surrogate]

/-- The escapes of units are read as the text if it has no character above U+FFFF, and not read at
    all if it has one. -/
theorem unescape?_unitEscapes (units : UnitsOf groups cs) :
    unescape? (unitEscapes groups) =
      if cs.all (·.toNat < 0x10000) then some cs else none := by
  induction cs generalizing groups with
  | nil =>
    cases units
    simp [unitEscapes]
  | cons c cs ih =>
    rw [UnitsOf, utf16_cons] at units
    by_cases small : c.toNat < 0x10000
    · rw [utf16Char, if_pos small, List.singleton_append] at units
      obtain ⟨digits, others, denotes, later, rfl⟩ := List.forall₂_cons_right_iff.1 units
      rw [UInt16.toNat_ofNat_of_lt' small] at denotes
      have read := unescape?_fourDigits denotes (unitEscapes others)
      rw [charOfCode?_toNat, Option.bind_some, ih later] at read
      rw [unitEscapes_cons, read, List.all_cons, decide_eq_true small, Bool.true_and]
      split <;> rfl
    · have high : 0x10000 ≤ c.toNat := Nat.le_of_not_lt small
      rw [utf16Char, if_neg small, List.cons_append] at units
      obtain ⟨digits, others, denotes, _, rfl⟩ := List.forall₂_cons_right_iff.1 units
      have read := unescape?_fourDigits denotes (unitEscapes others)
      rw [charOfCode?_high high, Option.bind_none] at read
      rw [unitEscapes_cons, read, List.all_cons, decide_eq_false small, Bool.false_and]
      rfl

end Text

namespace Literal

open Text (unitEscapes UnitsOf)

/-- A text written unit by unit is read back if it has no character above U+FFFF.  If it has one,
    it is refused, and the error shows what was written. -/
theorem unescaped_unitEscapes {groups : List (List Char)} {text : String}
    (units : UnitsOf groups text.toList) :
    ((∀ c ∈ text.toList, c.toNat < 0x10000) →
      unescaped (.ofList (unitEscapes groups)) = .ok text) ∧
    ((∃ c ∈ text.toList, 0x10000 ≤ c.toNat) →
      unescaped (.ofList (unitEscapes groups)) =
        .error (.invalidEscape (.ofList (unitEscapes groups)))) := by
  rw [unescaped, String.toList_ofList, Text.unescape?_unitEscapes units]
  constructor
  · intro low
    rw [if_pos (by simpa using low)]
    exact congrArg Except.ok String.ofList_toList
  · intro high
    rw [if_neg (by simpa using high)]

/-- Small digits and capitals. -/
def basicGroups : List (List Char) :=
  [['0', '0', '6', 'e'], ['0', '0', 'E', '9'], ['2', '0', 'a', 'C']]

def pairGroups : List (List Char) := [['d', '8', '3', 'd'], ['d', 'e', '0', '0']]

theorem unescaped_unitEscapes_basic :
    UnitsOf basicGroups "né€".toList ∧ unescaped "\\u006e\\u00E9\\u20aC" = .ok "né€" ∧
    UnitsOf pairGroups "😀".toList ∧
    unescaped "\\ud83d\\ude00" = .error (.invalidEscape "\\ud83d\\ude00") := by
  have basic : UnitsOf basicGroups "né€".toList :=
    .cons (.of_read rfl (by decide)) <| .cons (.of_read rfl (by decide)) <|
      .cons (.of_read rfl (by decide)) .nil
  have pair : UnitsOf pairGroups "😀".toList :=
    .cons (.of_read rfl (by decide)) <| .cons (.of_read rfl (by decide)) .nil
  have low : ∀ c ∈ "né€".toList, c.toNat < 0x10000 := by simp
  have high : ∃ c ∈ "😀".toList, 0x10000 ≤ c.toNat := ⟨'😀', by simp, by decide⟩
  have read := (unescaped_unitEscapes basic).1 low
  have refused := (unescaped_unitEscapes pair).2 high
  exact ⟨basic, read, pair, refused⟩

/-- The halves of a pair are not put together. -/
theorem not_unescaped_unitEscapes :
    UnitsOf pairGroups "😀".toList ∧
    unescaped "\\ud83d\\ude00" = .error (.invalidEscape "\\ud83d\\ude00") ∧
    ¬ ∀ (groups : List (List Char)) (text : String), UnitsOf groups text.toList →
      unescaped (.ofList (unitEscapes groups)) = .ok text := by
  have units : UnitsOf pairGroups "😀".toList :=
    .cons (.of_read rfl (by decide)) <| .cons (.of_read rfl (by decide)) .nil
  have refused : unescaped "\\ud83d\\ude00" = .error (.invalidEscape "\\ud83d\\ude00") := by
    decide +kernel
  refine ⟨units, refused, fun all => ?_⟩
  have row : String.ofList (unitEscapes pairGroups) = "\\ud83d\\ude00" := by decide
  have read := all pairGroups "😀" units
  rw [row, refused] at read
  cases read

end Literal

end SegmentCatalog
