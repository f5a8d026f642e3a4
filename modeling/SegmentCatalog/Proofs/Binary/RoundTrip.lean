import SegmentCatalog.Proofs.Binary.Rounding
import SegmentCatalog.Proofs.Decimal.ReadBack

/-! # Floating point numbers that are read back

The shortest decimal of a finite number is looked for among those in the range of its pattern,
and whatever lies there is read as the pattern.  So the text of a number is read as an equal
number (`Binary.ofText?_displayChars`), and it has no white space in it.
-/

namespace SegmentCatalog

/-! ## The roundest number -/

namespace Decimal.Interval

variable {range : Interval} {tie : Tie} {x : Nat}

theorem contains_of_onGrid? {unit n : Nat} (found : range.onGrid? tie x unit = some n) :
    range.contains (n * unit) = true := by
  simp only [onGrid?] at found
  split at found <;> rename_i below above
  · cases found
    split
    · exact above
    · exact below
  · cases found; exact below
  · cases found; exact above
  · cases found

theorem contains_coarsest (tie : Tie) (inside : range.contains x = true) (k : Nat) :
    range.contains ((range.coarsest tie x k).1 * 10 ^ (range.coarsest tie x k).2) = true := by
  induction k with
  | zero => simpa [coarsest] using inside
  | succ k ih =>
    rw [coarsest]
    split
    · exact contains_of_onGrid? ‹_›
    · exact ih

theorem contains_roundest (inside : range.contains x = true) {n k : Nat}
    (found : range.roundest tie x = (n, k)) : range.contains (n * 10 ^ k) = true := by
  have member := contains_coarsest tie inside (range.hi.log2 / 3 + 1)
  rw [← roundest, found] at member
  exact member

end Decimal.Interval

/-! ## Round trip -/

namespace Binary

open Decimal (Interval Numeral Tie)

namespace Format

variable (F : Format)

theorem contains_units {p : Nat} (positive : 0 < p) :
    (F.readsBack p).contains (2 * F.units p * Nat.pow 5 (F.scale + 1)) = true := by
  obtain ⟨q, rfl⟩ := Nat.exists_eq_succ_of_ne_zero (Nat.pos_iff_ne_zero.1 positive)
  have before := F.units_lt_succ q
  have after := F.units_lt_succ (q + 1)
  have five : 0 < Nat.pow 5 (F.scale + 1) := Nat.pow_pos (by decide)
  have lower : F.halfway q * Nat.pow 5 (F.scale + 1) <
      2 * F.units (q + 1) * Nat.pow 5 (F.scale + 1) :=
    Nat.mul_lt_mul_of_pos_right (by unfold halfway; omega) five
  have upper : 2 * F.units (q + 1) * Nat.pow 5 (F.scale + 1) <
      F.halfway (q + 1) * Nat.pow 5 (F.scale + 1) :=
    Nat.mul_lt_mul_of_pos_right (by unfold halfway; omega) five
  simp only [Interval.contains, readsBack, Nat.succ_eq_add_one, Nat.add_sub_cancel]
  split
  · exact Bool.and_eq_true_iff.2 ⟨decide_eq_true lower.le, decide_eq_true upper.le⟩
  · exact Bool.and_eq_true_iff.2 ⟨decide_eq_true lower, decide_eq_true upper⟩

/-- The shortest decimal of a finite pattern, in full, is read as the pattern. -/
theorem nearest_shortest (tie : Tie) {p : Nat} (positive : 0 < p) (finite : p < F.infinity) :
    ∃ n power, F.shortest tie p = (Decimal.ofNat n, power) ∧
      F.nearest (n * 10 ^ power.toNat) (min power 0) = p := by
  cases found : (F.readsBack p).roundest tie (2 * F.units p * Nat.pow 5 (F.scale + 1)) with
  | mk n k =>
    have inside := Interval.contains_roundest (F.contains_units positive) found
    -- the range is counted in units of `10 ^ -(scale + 1)`, and so is `n * 10 ^ k`
    refine ⟨n, k - (F.scale + 1), by rw [shortest, found], ?_⟩
    refine nearest_of_contains ?_ finite inside
    rw [Denotes, Nat.mul_assoc, Nat.mul_assoc, ← Nat.pow_add, ← Nat.pow_add, Nat.mul_assoc,
      ← Nat.pow_add]
    congr 2
    omega

/-- Where there is room for a pattern above infinity, the one read as no number is such. -/
theorem quietNaN_bounds (room : F.infinity + 1 < 2 ^ F.magnitudeBits) :
    F.infinity < F.quietNaN ∧ F.quietNaN < 2 ^ F.magnitudeBits := by
  have top : F.infinity + 2 ^ F.fractionBits = 2 ^ F.magnitudeBits := by
    have low : 0 < 2 ^ F.exponentBits := Nat.two_pow_pos _
    rw [infinity, magnitudeBits, Nat.shiftLeft_eq, Nat.shiftLeft_eq, Nat.one_mul, Nat.pow_add,
      ← Nat.succ_mul]
    congr 1
    omega
  have quarter : 0 < 2 ^ (F.fractionBits - 1) := Nat.two_pow_pos _
  have half : 2 ^ (F.fractionBits - 1) < 2 ^ F.fractionBits := by
    refine Nat.pow_lt_pow_right (by decide) (Nat.sub_one_lt ?_)
    intro none
    rw [none] at top
    omega
  rw [quietNaN, Nat.shiftLeft_eq, Nat.one_mul]
  omega

end Format

variable {F : Format}

theorem ofMagnitude_magnitude (x : Binary F) : ofMagnitude x.negative x.magnitude.toNat = x := by
  rw [ofMagnitude, BitVec.ofNat_toNat, BitVec.setWidth_eq]

theorem ofText?_of_signed? {cs : List Char} {negative : Bool} {numeral : Numeral}
    (read : Numeral.signed? cs = some (negative, numeral)) :
    ofText? F cs = some (ofMagnitude negative (F.pattern numeral)) := by
  rw [ofText?, read, Option.map_some]

/-- Of a format that has patterns for no number, the one that is read is such a pattern. -/
theorem isNaN_quietNaN {x : Binary F} (undefined : x.isNaN = true) :
    (ofMagnitude false F.quietNaN : Binary F).isNaN = true := by
  have small := x.magnitude.isLt
  have above : F.infinity < x.magnitude.toNat := of_decide_eq_true undefined
  obtain ⟨lower, upper⟩ := F.quietNaN_bounds (by omega)
  rw [isNaN, ofMagnitude, BitVec.toNat_ofNat, Nat.mod_eq_of_lt upper]
  exact decide_eq_true lower

/-- A number in full is read back as an equal number. -/
theorem ofText?_displayChars (x : Binary F) :
    ∃ y, ofText? F x.displayChars = some y ∧ (y == x) = true := by
  rw [displayChars]
  by_cases undefined : x.isNaN = true
  · rw [if_pos undefined]
    -- there is one text for all of them, and they are all equal
    have both := And.intro (isNaN_quietNaN undefined) undefined
    exact ⟨ofMagnitude false F.quietNaN, rfl, beq_iff.2 (.inr both)⟩
  rw [if_neg undefined]
  refine ⟨x, ?_, beq_iff.2 (.inl rfl)⟩
  have bounded : x.magnitude.toNat ≤ F.infinity := by
    simpa [isNaN] using undefined
  dsimp only
  by_cases infinite : x.isInfinite = true
  · rw [if_pos infinite]
    have whole : x.magnitude.toNat = F.infinity := by simpa [isInfinite] using infinite
    have read : Numeral.signed? ((if x.negative = true then ['-'] else []) ++ ['i', 'n', 'f']) =
        some (x.negative, .infinity) := by
      cases x.negative <;> rfl
    rw [ofText?_of_signed? read, F.pattern_infinity, ← whole, ofMagnitude_magnitude]
  rw [if_neg infinite]
  have finite : x.magnitude.toNat < F.infinity := by
    have other : x.magnitude.toNat ≠ F.infinity := by simpa [isInfinite] using infinite
    omega
  by_cases zero : x.magnitude.toNat = 0
  · have read : Numeral.signed? ((if x.negative = true then ['-'] else []) ++ ['0']) =
        some (x.negative, .finite 0 0) := by
      cases x.negative <;> rfl
    rw [if_pos zero, ofText?_of_signed? read, F.pattern_finite, F.nearest_zero, ← zero,
      ofMagnitude_magnitude]
  · obtain ⟨n, power, shape, nearest⟩ := F.nearest_shortest .up (Nat.pos_of_ne_zero zero) finite
    rw [if_neg zero, shape, ofText?_of_signed? (Numeral.signed?_positional ..), F.pattern_finite,
      nearest, ofMagnitude_magnitude]

theorem not_blank_of_mem_displayChars {x : Binary F} {c : Char} (member : c ∈ x.displayChars) :
    Text.isBlank c = false := by
  have word : ∀ cs : List Char, cs.any Text.isBlank = false →
      ∀ d ∈ cs, Text.isBlank d = false := by
    intro cs none d inside
    exact eq_false_of_ne_true (List.any_eq_false.1 none d inside)
  have behindSign : ∀ cs : List Char, (∀ d ∈ cs, Text.isBlank d = false) →
      c ∈ (if x.negative then ['-'] else []) ++ cs → Text.isBlank c = false := by
    intro cs solid inside
    rcases List.mem_append.1 inside with sign | rest
    · split at sign
      · rw [List.mem_singleton.1 sign]
        decide
      · cases sign
    · exact solid c rest
  rw [displayChars] at member
  dsimp only at member
  split at member
  · exact word _ (by decide) c member
  · split at member
    · exact behindSign _ (word _ (by decide)) member
    · split at member
      · exact behindSign _ (word _ (by decide)) member
      · refine behindSign _ (fun d inside => ?_) member
        rcases Decimal.mem_positional inside with rfl | digit
        · decide
        · exact Text.not_blank_of_isDigit digit

@[simp] theorem trim_displayChars (x : Binary F) :
    Text.trim x.displayChars = x.displayChars :=
  Text.trim_of_no_blank fun _ => not_blank_of_mem_displayChars

end Binary

end SegmentCatalog
