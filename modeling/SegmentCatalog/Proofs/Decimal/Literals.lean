import SegmentCatalog.Decimal.Integer

/-! # Whole numbers as they are spelt

`Decimal.Spells` says which texts spell a number: one or more ASCII digits, with a sign in front
or without.  A text is read as a number exactly when it spells that number (`int?_eq_some_iff`),
and as a word of 32 or 64 bits exactly when it spells the number of that word
(`int32?_eq_some_iff`, `int64?_eq_some_iff`).
-/

namespace SegmentCatalog.Decimal

/-- One or more of the digits 0 to 9. -/
def Digits (cs : List Char) : Prop := cs ≠ [] ∧ ∀ c ∈ cs, c.isDigit = true

/-- The number that digits denote, the most significant first. -/
def value (digits : List Char) : Nat := Nat.ofDigitChars 10 digits 0

inductive Spells : List Char → Int → Prop
  | plain {digits : List Char} : Digits digits → Spells digits (value digits)
  | plus {digits : List Char} : Digits digits → Spells ('+' :: digits) (value digits)
  | minus {digits : List Char} : Digits digits → Spells ('-' :: digits) (-(value digits : Int))

theorem nat?_eq_some_iff {cs : List Char} {n : Nat} :
    nat? cs = some n ↔ Digits cs ∧ value cs = n := by
  simp [nat?, Digits, value]

theorem Digits.head {c : Char} {rest : List Char} (digits : Digits (c :: rest)) :
    c.isDigit = true :=
  digits.2 c (List.mem_cons_self ..)

/-- Behind a minus sign, digits are read as the negative of their number. -/
theorem int?_minus (digits : List Char) :
    int? ('-' :: digits) = (nat? digits).map fun (n : Nat) => -(n : Int) := by
  rw [int?]
  cases nat? digits <;> rfl

theorem int?_eq_some_iff {cs : List Char} {n : Int} : int? cs = some n ↔ Spells cs n := by
  constructor
  · intro read
    unfold int? at read
    split at read
    · rename_i digits
      have read : int? ('-' :: digits) = some n := read
      rw [int?_minus, Option.map_eq_some_iff] at read
      obtain ⟨m, found, rfl⟩ := read
      obtain ⟨digits, rfl⟩ := nat?_eq_some_iff.1 found
      exact .minus digits
    · obtain ⟨m, found, rfl⟩ := Option.map_eq_some_iff.1 read
      obtain ⟨digits, rfl⟩ := nat?_eq_some_iff.1 found
      exact .plus digits
    · obtain ⟨m, found, rfl⟩ := Option.map_eq_some_iff.1 read
      obtain ⟨digits, rfl⟩ := nat?_eq_some_iff.1 found
      exact .plain digits
  · intro spelt
    cases spelt with
    | plain digits =>
      -- digits do not start with a sign
      obtain ⟨c, rest, rfl⟩ := List.exists_cons_of_ne_nil digits.1
      rw [int?_of_isDigit rest digits.head, nat?_eq_some_iff.2 ⟨digits, rfl⟩]
      rfl
    | plus digits =>
      rw [int?, nat?_eq_some_iff.2 ⟨digits, rfl⟩]
      rfl
    | minus digits =>
      rw [int?_minus, nat?_eq_some_iff.2 ⟨digits, rfl⟩]
      rfl

theorem int32?_eq_some_iff {cs : List Char} {n : Int32} :
    int32? cs = some n ↔ Spells cs n.toInt := by
  simp only [int32?, Option.bind_eq_some_iff, int?_eq_some_iff]
  constructor
  · intro ⟨m, spelt, fits⟩
    split at fits
    · rename_i bounds
      cases fits
      rw [Int32.toInt_minValue, Int32.toInt_maxValue] at bounds
      rwa [Int32.toInt_ofInt_of_le bounds.1 (by omega)]
    · cases fits
  · intro spelt
    refine ⟨n.toInt, spelt, ?_⟩
    rw [if_pos ⟨n.minValue_le_toInt, n.toInt_le⟩, Int32.ofInt_toInt]

theorem int64?_eq_some_iff {cs : List Char} {n : Int64} :
    int64? cs = some n ↔ Spells cs n.toInt := by
  simp only [int64?, Option.bind_eq_some_iff, int?_eq_some_iff]
  constructor
  · rintro ⟨m, spelt, fits⟩
    split at fits
    · rename_i bounds
      cases fits
      rw [Int64.toInt_minValue, Int64.toInt_maxValue] at bounds
      rwa [Int64.toInt_ofInt_of_le bounds.1 (by omega)]
    · cases fits
  · intro spelt
    refine ⟨n.toInt, spelt, ?_⟩
    rw [if_pos ⟨n.minValue_le_toInt, n.toInt_le⟩, Int64.ofInt_toInt]

end SegmentCatalog.Decimal
