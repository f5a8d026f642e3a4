import SegmentCatalog.Binary.Json
import SegmentCatalog.Proofs.Binary.RoundTrip
import SegmentCatalog.Proofs.JsonTexts

/-! # Numbers told by their JSON texts

A finite number is written in scientific notation or in full, and an exponent tells which.  From
scientific notation the digits and their power of ten can be told (`Decimal.scientific_inj`).  In
full the same number may be written from several digits and powers, but what is written alike is
read alike (`Format.nearest_positional_fraction`).

The decimal that is written for a number is read as its pattern (`json_of_isFinite`); so a finite
number is told from its JSON value: `json_injective_of_isFinite`.
-/

namespace SegmentCatalog

/-! ## Signs -/

namespace Json

/-- The text of a number without sign. -/
structure Unsigned (text : List Char) : Prop where
  starts : ∃ c rest, text = c :: rest ∧ c.isDigit = true
  numeric : ∀ c ∈ text, isNumeric c = true

variable {text text' : List Char}

theorem isNumeric_of_isDigit {c : Char} (digit : c.isDigit = true) : isNumeric c = true := by
  simp [isNumeric, digit]

theorem Unsigned.signed (unsigned : Unsigned text) (negative : Bool) :
    Numeric ((if negative then ['-'] else []) ++ text) := by
  obtain ⟨⟨c, rest, rfl, digit⟩, numeric⟩ := unsigned
  cases negative with
  | false => exact ⟨⟨c, rest, rfl, .inl digit⟩, numeric⟩
  | true => exact ⟨⟨'-', c :: rest, rfl, .inr rfl⟩, List.forall_mem_cons.2 ⟨rfl, numeric⟩⟩

theorem Unsigned.signed_inj {negative negative' : Bool} (unsigned : Unsigned text)
    (unsigned' : Unsigned text')
    (same : (if negative then ['-'] else []) ++ text =
      (if negative' then ['-'] else []) ++ text') : negative = negative' ∧ text = text' := by
  obtain ⟨⟨c, rest, rfl, digit⟩, _⟩ := unsigned
  obtain ⟨⟨c', rest', rfl, digit'⟩, _⟩ := unsigned'
  cases negative <;> cases negative'
  · exact ⟨rfl, same⟩
  · obtain ⟨rfl, _⟩ := List.cons.inj same
    cases digit
  · obtain ⟨rfl, _⟩ := List.cons.inj same
    cases digit'
  · exact ⟨rfl, (List.cons.inj same).2⟩

theorem unsigned_ofNat (n : Nat) : Unsigned (Decimal.ofNat n) where
  starts := by
    obtain ⟨c, rest, shape⟩ := List.exists_cons_of_ne_nil (Decimal.ofNat_ne_nil n)
    exact ⟨c, rest, shape, Decimal.isDigit_of_mem_ofNat (n := n) (by simp [shape])⟩
  numeric _ member := isNumeric_of_isDigit (Decimal.isDigit_of_mem_ofNat member)

theorem numeric_ofInt (n : Int) : Numeric (Decimal.ofInt n) := by
  cases n with
  | ofNat n => exact (unsigned_ofNat n).signed false
  | negSucc n => exact (unsigned_ofNat (n + 1)).signed true

end Json

/-! ## Notations -/

namespace Decimal

open Json (Unsigned isNumeric)

theorem positional_append (digits : List Char) (power : Int) (tail : List Char) :
    positional digits power tail =
      positional digits power [] ++ if 0 ≤ power then tail else [] := by
  unfold positional
  split
  · simp
  · simp

/-- The digits of the scientific notation, with the point behind the first one. -/
def mantissa : List Char → List Char
  | first :: second :: rest => first :: '.' :: second :: rest
  | digits => digits

theorem scientific_eq (digits : List Char) (power : Int) :
    scientific digits power = mantissa digits ++ 'e' ::
      (if leading digits power < 0 then '-' else '+') :: ofNat (leading digits power).natAbs := by
  rfl

theorem mem_mantissa {n : Nat} {c : Char} (member : c ∈ mantissa (ofNat n)) :
    c = '.' ∨ c.isDigit = true := by
  have digit : ∀ {c}, c ∈ ofNat n → c.isDigit = true := isDigit_of_mem_ofNat
  unfold mantissa at member
  split at member
  · rename_i first second rest shape
    rw [shape] at digit
    rcases List.mem_cons.1 member with rfl | behind
    · exact .inr (digit (List.mem_cons_self ..))
    · rcases List.mem_cons.1 behind with point | more
      · exact .inl point
      · exact .inr (digit (List.mem_cons_of_mem _ more))
  · exact .inr (digit member)

theorem filter_mantissa {digits : List Char} (all : ∀ c ∈ digits, c.isDigit = true) :
    (mantissa digits).filter Char.isDigit = digits := by
  have point : '.'.isDigit = false := by decide
  have whole := List.filter_eq_self.2 all
  unfold mantissa
  split
  · simpa [List.filter_cons, point] using whole
  · exact whole

section Unsigned

variable {n n' : Nat} {power power' : Int}

theorem mem_positional_fraction {c : Char}
    (member : c ∈ positional (ofNat n) power ['.', '0']) : c = '.' ∨ c.isDigit = true := by
  rw [positional_append, List.mem_append] at member
  rcases member with front | tail
  · exact mem_positional front
  · split at tail
    · rcases List.mem_cons.1 tail with point | zero
      · exact .inl point
      · rw [List.mem_singleton.1 zero]
        exact .inr (by decide)
    · cases tail

/-- Neither digits nor the point are taken for the sign of an exponent. -/
theorem isNumeric_of_digit {c : Char} (inside : c = '.' ∨ c.isDigit = true) :
    isNumeric c = true ∧ (c != 'e') = true := by
  rcases inside with rfl | digit
  · decide
  · refine ⟨Json.isNumeric_of_isDigit digit, ?_⟩
    rw [bne_iff_ne]
    rintro rfl
    cases digit

theorem unsigned_positional (n : Nat) (power : Int) :
    Unsigned (positional (ofNat n) power ['.', '0']) where
  starts := by
    obtain ⟨c, rest, shape, digit⟩ := Numeral.head_positional n power
    exact ⟨c, _, by rw [positional_append, shape]; rfl, digit⟩
  numeric _ member := (isNumeric_of_digit (mem_positional_fraction member)).1

theorem unsigned_scientific (n : Nat) (power : Int) : Unsigned (scientific (ofNat n) power) where
  starts := by
    obtain ⟨c, rest, shape, digit⟩ := (Json.unsigned_ofNat n).starts
    rw [scientific_eq, shape]
    cases rest with
    | nil => exact ⟨c, _, rfl, digit⟩
    | cons d rest => exact ⟨c, _, rfl, digit⟩
  numeric := by
    intro c member
    rw [scientific_eq, List.mem_append, List.mem_cons, List.mem_cons] at member
    rcases member with front | rfl | sign | exponent
    · exact (isNumeric_of_digit (mem_mantissa front)).1
    · decide
    · split at sign <;> subst sign <;> decide
    · exact Json.isNumeric_of_isDigit (isDigit_of_mem_ofNat exponent)

theorem scientific_ne_positional :
    scientific (ofNat n) power ≠ positional (ofNat n') power' ['.', '0'] := by
  intro same
  have member : 'e' ∈ scientific (ofNat n) power := by simp [scientific_eq]
  exact absurd (isNumeric_of_digit (mem_positional_fraction (same ▸ member))).2 (by decide)

theorem ofNat_injective (same : ofNat n = ofNat n') : n = n' := by
  rw [← ofDigitChars_ofNat n, same, ofDigitChars_ofNat]

/-- A number in scientific notation is told digit by digit. -/
theorem scientific_inj (same : scientific (ofNat n) power = scientific (ofNat n') power') :
    n = n' ∧ power = power' := by
  rw [scientific_eq, scientific_eq] at same
  have before : ∀ n, ∀ c ∈ mantissa (ofNat n), (c != 'e') = true := fun n c member =>
    (isNumeric_of_digit (mem_mantissa member)).2
  obtain ⟨mantissas, behind⟩ :=
    Json.append_inj_of_class (before n) (before n') (by simp) (by simp) same
  have all : ∀ n, ∀ c ∈ ofNat n, c.isDigit = true := fun _ _ => isDigit_of_mem_ofNat
  have digits : ofNat n = ofNat n' := by
    rw [← filter_mantissa (all n), mantissas, filter_mantissa (all n')]
  refine ⟨ofNat_injective digits, ?_⟩
  obtain ⟨signs, sizes⟩ := List.cons.inj (List.cons.inj behind).2
  have sizes := ofNat_injective sizes
  rw [digits] at signs sizes
  unfold leading at signs sizes
  split at signs <;> split at signs
  · omega
  · cases signs
  · cases signs
  · omega

end Unsigned

namespace Numeral

/-- A whole number in full is read with the zero behind its point. -/
theorem ofDigits?_positional_fraction (n : Nat) (power : Int) :
    ofDigits? (positional (ofNat n) power ['.', '0']) =
      some (if 0 ≤ power then finite (n * 10 ^ power.toNat * 10) (-1) else finite n power) := by
  split
  · rename_i whole
    have digits : ∀ c ∈ ofNat n ++ zeros power.toNat, c.isDigit = true := by
      intro c member
      rcases List.mem_append.1 member with front | back
      · exact isDigit_of_mem_ofNat front
      · exact isDigit_of_mem_zeros back
    have zero : ∀ c ∈ ['0'], c.isDigit = true := List.forall_mem_singleton.2 rfl
    have value : Nat.ofDigitChars 10 (ofNat n ++ zeros power.toNat ++ zeros 1) 0 =
        n * 10 ^ power.toNat * 10 := by
      rw [Nat.ofDigitChars_append, Nat.ofDigitChars_append, ofDigitChars_ofNat, zeros, zeros,
        Nat.ofDigitChars_replicate_zero, Nat.ofDigitChars_replicate_zero]
      ring
    have read := ofDigits?_of_point digits zero (by simp [ofNat_ne_nil])
    rw [positional, if_pos whole]
    exact read.trans (by rw [← value]; rfl)
  · rename_i below
    have exponent : min power 0 = power := Int.min_eq_left (by omega)
    have none : power.toNat = 0 := by omega
    rw [positional_append, if_neg below, List.append_nil, ofDigits?_positional, exponent, none,
      Nat.pow_zero, Nat.mul_one]

end Numeral

end Decimal

/-! ## Numbers -/

namespace Binary

open Decimal (Numeral)

namespace Format

variable (F : Format)

theorem reaches_tenth (digits p : Nat) :
    F.reaches (digits * 10) (-1) p = F.reaches digits 0 p := by
  have value : (digits * 10 * Nat.pow 10 (-1 : Int).toNat) <<< (F.scale + 1) =
      (digits * Nat.pow 10 (0 : Int).toNat) <<< (F.scale + 1) * 10 := by
    simp [Nat.shiftLeft_eq, Nat.mul_right_comm]
  have border : F.halfway (p - 1) * Nat.pow 10 (-(-1 : Int)).toNat =
      F.halfway (p - 1) * Nat.pow 10 (-(0 : Int)).toNat * 10 := by
    simp
  simp only [reaches, value, border]
  split
  · rw [decide_eq_decide, Nat.mul_le_mul_right_iff (by decide)]
  · rw [decide_eq_decide, Nat.mul_lt_mul_right (by decide)]

theorem nearest_tenth (digits : Nat) : F.nearest (digits * 10) (-1) = F.nearest digits 0 := by
  simp only [nearest, reaches_tenth]

/-- The zero behind the point of a whole number does not change what it is read as. -/
theorem nearest_positional_fraction (n : Nat) (power : Int) : ∃ digits exponent,
    Numeral.ofDigits? (Decimal.positional (Decimal.ofNat n) power ['.', '0']) =
      some (.finite digits exponent) ∧
    F.nearest digits exponent = F.nearest (n * 10 ^ power.toNat) (min power 0) := by
  by_cases whole : 0 ≤ power
  · refine ⟨n * 10 ^ power.toNat * 10, -1, ?_, ?_⟩
    · rw [Numeral.ofDigits?_positional_fraction, if_pos whole]
    · rw [F.nearest_tenth, Int.min_eq_right whole]
  · have none : power.toNat = 0 := by omega
    refine ⟨n, power, ?_, ?_⟩
    · rw [Numeral.ofDigits?_positional_fraction, if_neg whole]
    · rw [none, Nat.pow_zero, Nat.mul_one, Int.min_eq_left (by omega)]

end Format

/-! ## Layouts -/

namespace NumberLayout

variable {layout : NumberLayout} {n n' : Nat} {power power' : Int}

theorem unsigned_layOut (layout : NumberLayout) (n : Nat) (power : Int) :
    Json.Unsigned (layout.layOut (Decimal.ofNat n) power) := by
  rw [layOut]
  split
  · exact Decimal.unsigned_positional n power
  · exact Decimal.unsigned_scientific n power

/-- Numbers that are laid out alike are read alike. -/
theorem nearest_eq_of_layOut (F : Format)
    (same : layout.layOut (Decimal.ofNat n) power = layout.layOut (Decimal.ofNat n') power') :
    F.nearest (n * 10 ^ power.toNat) (min power 0) =
      F.nearest (n' * 10 ^ power'.toNat) (min power' 0) := by
  rw [layOut, layOut] at same
  split at same <;> split at same
  · obtain ⟨digits, exponent, read, nearest⟩ := F.nearest_positional_fraction n power
    obtain ⟨digits', exponent', read', nearest'⟩ := F.nearest_positional_fraction n' power'
    rw [same, read'] at read
    cases read
    rw [← nearest, nearest']
  · exact absurd same.symm Decimal.scientific_ne_positional
  · exact absurd same Decimal.scientific_ne_positional
  · obtain ⟨rfl, rfl⟩ := Decimal.scientific_inj same
    rfl

/-- The layout writes numbers of one digit in full, as it always does with zero. -/
structure CoversOne (layout : NumberLayout) : Prop where
  least : layout.least ≤ 0
  limit : 0 < layout.limit

theorem CoversOne.single : CoversOne .single := ⟨by decide, by decide⟩

theorem CoversOne.double : CoversOne .double := ⟨by decide, by decide⟩

end NumberLayout

variable {F : Format} {layout : NumberLayout} {x y : Binary F}

def IsFinite (x : Binary F) : Prop := x.magnitude.toNat < F.infinity

instance (x : Binary F) : Decidable x.IsFinite := inferInstanceAs (Decidable (_ < _))

theorem plain_json (layout : NumberLayout) (x : Binary F) : Json.Plain (x.json layout) := by
  rw [json]
  split
  · exact .null
  · dsimp only
    split
    · exact .number ((Decimal.unsigned_positional 0 0).signed x.negative)
    · exact .number ((layout.unsigned_layOut _ _).signed x.negative)

/-- A finite number is written as its sign and a decimal that is read as its pattern. -/
theorem json_of_isFinite (covers : layout.CoversOne) (finite : x.IsFinite) : ∃ n power,
    x.json layout = .number ((if x.negative then ['-'] else []) ++
      layout.layOut (Decimal.ofNat n) power) ∧
    F.nearest (n * 10 ^ power.toNat) (min power 0) = x.magnitude.toNat := by
  have defined : (x.isNaN || x.isInfinite) = false := by
    simp only [IsFinite] at finite
    simp only [isNaN, isInfinite, Bool.or_eq_false_iff, decide_eq_false_iff_not,
      beq_eq_false_iff_ne]
    omega
  rw [json, if_neg (by simp [defined])]
  dsimp only
  by_cases zero : x.magnitude.toNat = 0
  · have full : layout.layOut (Decimal.ofNat 0) 0 = ['0', '.', '0'] := by
      have leading : Decimal.leading (Decimal.ofNat 0) 0 = 0 := rfl
      rw [NumberLayout.layOut, leading, if_pos ⟨covers.least, covers.limit⟩]
      rfl
    refine ⟨0, 0, ?_, ?_⟩
    · rw [if_pos zero, full]
    · rw [zero]
      exact F.nearest_zero
  · obtain ⟨n, power, shape, nearest⟩ := F.nearest_shortest .even (Nat.pos_of_ne_zero zero) finite
    refine ⟨n, power, ?_, nearest⟩
    rw [if_neg zero, shape]

theorem json_ne_null_of_isFinite (covers : layout.CoversOne) (finite : x.IsFinite) :
    x.json layout ≠ .null := by
  obtain ⟨n, power, written, _⟩ := json_of_isFinite covers finite
  rw [written]
  exact nofun

/-- A finite number is told from its JSON value. -/
theorem json_injective_of_isFinite (covers : layout.CoversOne) (finite : x.IsFinite)
    (finite' : y.IsFinite) (same : x.json layout = y.json layout) : x = y := by
  obtain ⟨n, power, written, nearest⟩ := json_of_isFinite covers finite
  obtain ⟨n', power', written', nearest'⟩ := json_of_isFinite covers finite'
  rw [written, written', Json.number.injEq] at same
  obtain ⟨signs, layouts⟩ :=
    (layout.unsigned_layOut n power).signed_inj (layout.unsigned_layOut n' power') same
  have patterns : x.magnitude.toNat = y.magnitude.toNat := by
    rw [← nearest, NumberLayout.nearest_eq_of_layOut F layouts, nearest']
  rw [← ofMagnitude_magnitude x, signs, patterns, ofMagnitude_magnitude]

end Binary

end SegmentCatalog
