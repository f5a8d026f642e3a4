import SegmentCatalog.Proofs.Binary.NearestEven
import SegmentCatalog.Proofs.Binary.RoundTrip

/-! # The shortest decimal

The search for the roundest number of an interval passes over a grid only if no multiple of its
unit is in the interval, for of the multiples the two next to `x` would be.  So the number that it
gives is on the coarsest grid that is met (`Interval.not_contains_of_roundest`), it is the nearest
to `x` on that grid, and no decimal in the interval has fewer digits: between one with fewer and the
one that was found lies a power of ten, and that is on a coarser grid
(`Interval.length_le_of_roundest`).

What rounds to a positive finite pattern is what lies in its range (`Format.roundsTo_iff_spans`), so
that the decimal of a number is the shortest of those that are read as the number:
`Format.shortest_eq`.
-/

namespace SegmentCatalog

/-! ## The coarsest grid -/

theorem Decimal.length_ofNat_le_iff {n k : Nat} (positive : 0 < k) :
    (Decimal.ofNat n).length ≤ k ↔ n < 10 ^ k :=
  Nat.length_toDigits_le_iff (by decide) positive

namespace Decimal.Interval

/-- Whether a number, whole or not, is in the interval. -/
def Spans (range : Interval) (y : ℚ) : Prop :=
  if range.closed then range.lo ≤ y ∧ y ≤ range.hi else range.lo < y ∧ y < range.hi

variable {range : Interval} {tie : Tie} {x unit m n k : Nat}

theorem contains_iff_spans : range.contains m = true ↔ range.Spans m := by
  rw [contains, Spans]
  split
  · rw [Bool.and_eq_true, decide_eq_true_iff, decide_eq_true_iff, Nat.cast_le, Nat.cast_le]
  · rw [Bool.and_eq_true, decide_eq_true_iff, decide_eq_true_iff, Nat.cast_lt, Nat.cast_lt]

theorem Spans.between {s t y : ℚ} (low : range.Spans s) (high : range.Spans t) (lower : s ≤ y)
    (upper : y ≤ t) : range.Spans y := by
  unfold Spans at low high ⊢
  split
  · rename_i closed
    rw [if_pos closed] at low high
    exact ⟨low.1.trans lower, upper.trans high.2⟩
  · rename_i isOpen
    rw [if_neg isOpen] at low high
    exact ⟨low.1.trans_le lower, upper.trans_lt high.2⟩

theorem contains_between {l u : Nat} (low : range.contains l = true)
    (high : range.contains u = true) (lower : l ≤ m) (upper : m ≤ u) :
    range.contains m = true := by
  rw [contains_iff_spans] at *
  exact low.between high (Nat.cast_le.2 lower) (Nat.cast_le.2 upper)

theorem le_of_roundsUp (up : roundsUp tie x unit = true) : unit ≤ 2 * (x % unit) := by
  simp only [roundsUp, Bool.or_eq_true, decide_eq_true_eq, Bool.and_eq_true, beq_iff_eq] at up
  omega

theorem le_of_not_roundsUp (down : ¬ roundsUp tie x unit = true) : 2 * (x % unit) ≤ unit := by
  simp only [roundsUp, Bool.or_eq_true, decide_eq_true_eq] at down
  omega

section Grid

variable (inside : range.contains x = true) (positive : 0 < unit)

include positive in
/-- A multiple of the unit is no nearer to `x` than the neighbour on its side. -/
theorem grid_cases (x m : Nat) :
    (m * unit ≤ x / unit * unit ∧ x / unit * unit ≤ x) ∨
      ((x / unit + 1) * unit ≤ m * unit ∧ x ≤ (x / unit + 1) * unit) := by
  cases Nat.lt_or_ge (x / unit) m with
  | inl above =>
    have next := Nat.lt_mul_div_succ x positive
    rw [Nat.mul_comm] at next
    exact .inr ⟨Nat.mul_le_mul_right unit above, next.le⟩
  | inr below => exact .inl ⟨Nat.mul_le_mul_right unit below, Nat.div_mul_le_self x unit⟩

include inside positive

/-- A grid that is not met next to `x` is not met at all. -/
theorem not_contains_of_onGrid? (missed : range.onGrid? tie x unit = none) (m : Nat) :
    ¬ range.contains (m * unit) = true := by
  intro member
  simp only [onGrid?] at missed
  split at missed
  · cases missed
  · cases missed
  · cases missed
  · rename_i below above
    cases grid_cases positive x m with
    | inl lower => exact absurd (contains_between member inside lower.1 lower.2) (by simp [below])
    | inr upper => exact absurd (contains_between inside member upper.2 upper.1) (by simp [above])

/-- The neighbour that is taken is the nearest multiple of the unit. -/
theorem nearest_of_onGrid? (found : range.onGrid? tie x unit = some n)
    (member : range.contains (m * unit) = true) :
    ((n * unit : Nat) - x : ℤ).natAbs ≤ ((m * unit : Nat) - x : ℤ).natAbs := by
  have remainder := Nat.div_add_mod' x unit
  have next : (x / unit + 1) * unit = x / unit * unit + unit := Nat.succ_mul ..
  have side := grid_cases positive x m
  simp only [onGrid?] at found
  split at found
  · split at found
    · rename_i up
      have nearer := le_of_roundsUp up
      cases found
      omega
    · rename_i down
      have nearer := le_of_not_roundsUp down
      cases found
      omega
  · rename_i below above
    cases found
    have notUpper : ¬ ((x / unit + 1) * unit ≤ m * unit ∧ x ≤ (x / unit + 1) * unit) := by
      intro upper
      exact absurd (contains_between inside member upper.2 upper.1) (by simp [above])
    omega
  · rename_i below above
    cases found
    have notLower : ¬ (m * unit ≤ x / unit * unit ∧ x / unit * unit ≤ x) := by
      intro lower
      exact absurd (contains_between member inside lower.1 lower.2) (by simp [below])
    omega
  · cases found

end Grid

theorem not_contains_of_coarsest (inside : range.contains x = true) {limit i : Nat}
    (found : range.coarsest tie x limit = (n, k)) (beyond : k < i) (upTo : i ≤ limit) (m : Nat) :
    ¬ range.contains (m * 10 ^ i) = true := by
  induction limit with
  | zero => omega
  | succ limit ih =>
    rw [coarsest] at found
    split at found
    · cases found
      omega
    · rename_i missed
      cases Nat.eq_or_lt_of_le upTo with
      | inl last =>
        rw [last]
        exact not_contains_of_onGrid? inside (Nat.pow_pos (by decide)) missed m
      | inr before => exact ih found (by omega)

theorem nearest_of_coarsest (inside : range.contains x = true) {limit : Nat}
    (found : range.coarsest tie x limit = (n, k)) (member : range.contains (m * 10 ^ k) = true) :
    ((n * 10 ^ k : Nat) - x : ℤ).natAbs ≤ ((m * 10 ^ k : Nat) - x : ℤ).natAbs := by
  induction limit with
  | zero =>
    rw [coarsest] at found
    cases found
    simp
  | succ limit ih =>
    rw [coarsest] at found
    split at found
    · rename_i met
      cases found
      exact nearest_of_onGrid? inside (Nat.pow_pos (by decide)) met member
    · exact ih found

section Roundest

variable (inside : range.contains x = true) (found : range.roundest tie x = (n, k))
include inside found

theorem nearest_of_roundest (member : range.contains (m * 10 ^ k) = true) :
    |((n * 10 ^ k : Nat) - x : ℚ)| ≤ |((m * 10 ^ k : Nat) - x : ℚ)| := by
  have distances := Int.ofNat_le.2 (nearest_of_coarsest inside found member)
  rw [Int.natCast_natAbs, Int.natCast_natAbs] at distances
  exact_mod_cast distances

variable (nonzero : ¬ range.contains 0 = true)
include nonzero

/-- The search starts at a grid whose unit is above the interval. -/
theorem not_contains_of_roundest {i : Nat} (beyond : k < i) (m : Nat) :
    ¬ range.contains (m * 10 ^ i) = true := by
  cases Nat.lt_or_ge (range.hi.log2 / 3 + 1) i with
  | inr upTo => exact not_contains_of_coarsest inside found beyond upTo m
  | inl coarser =>
    intro member
    have some : m ≠ 0 := by
      rintro rfl
      exact nonzero (by simpa using member)
    have bounded : m * 10 ^ i ≤ range.hi := by
      rw [contains] at member
      split at member <;> simp at member <;> omega
    have above : range.hi < m * 10 ^ i := by
      calc range.hi
        _ < 2 ^ (range.hi.log2 + 1) := Nat.lt_log2_self
        _ ≤ 2 ^ (3 * i) := Nat.pow_le_pow_right (by decide) (by omega)
        _ = 8 ^ i := by rw [Nat.pow_mul]
        _ ≤ 10 ^ i := Nat.pow_le_pow_left (by decide) i
        _ ≤ m * 10 ^ i := Nat.le_mul_of_pos_left _ (Nat.pos_of_ne_zero some)
    omega

/-- No decimal in the interval has fewer digits. -/
theorem length_le_of_roundest {power : ℤ} (member : range.Spans (m * 10 ^ power)) :
    (ofNat n).length ≤ (ofNat m).length := by
  by_contra more
  have some : 0 < (ofNat m).length := List.length_pos_iff.2 (ofNat_ne_nil m)
  obtain ⟨d, digits⟩ : ∃ d, (ofNat n).length = d + 1 := ⟨(ofNat n).length - 1, by omega⟩
  have small : m < 10 ^ d := (length_ofNat_le_iff (by omega)).1 (by omega)
  have large : 10 ^ d ≤ n := Nat.le_of_not_lt (mt (length_ofNat_le_iff (by omega)).2 (by omega))
  by_cases coarser : (k : ℤ) < power
  · obtain ⟨i, rfl⟩ := Int.eq_ofNat_of_zero_le (Int.le_trans (Int.natCast_nonneg k) coarser.le)
    refine not_contains_of_roundest inside found nonzero (Int.ofNat_lt.1 coarser) m ?_
    exact contains_iff_spans.2 (by simpa using member)
  -- the power of ten that `n` is at or above lies between the two
  · have lower : (m * 10 ^ power : ℚ) ≤ (1 * 10 ^ (d + k) : Nat) := by
      calc (m * 10 ^ power : ℚ)
        _ ≤ (10 ^ d : Nat) * 10 ^ (k : ℤ) :=
          mul_le_mul (Nat.cast_le.2 small.le) (zpow_le_zpow_right₀ (by decide) (not_lt.1 coarser))
            (zpow_nonneg (by decide) power) (Nat.cast_nonneg _)
        _ = (1 * 10 ^ (d + k) : Nat) := by
          rw [Nat.one_mul, Nat.pow_add, Nat.cast_mul, zpow_natCast]
          norm_cast
    have upper : 1 * 10 ^ (d + k) ≤ n * 10 ^ k := by
      rw [Nat.one_mul, Nat.pow_add]
      exact Nat.mul_le_mul_right _ large
    have high := contains_iff_spans.1 (contains_roundest inside found)
    have between := member.between high lower (Nat.cast_le.2 upper)
    exact not_contains_of_roundest inside found nonzero (by omega) 1 (contains_iff_spans.2 between)

end Roundest

end Decimal.Interval

/-! ## The range of a pattern -/

namespace Binary.Format

variable {F : Format} {p : Nat}

open Decimal (Interval Tie)

/-- `n * 10 ^ power` is a decimal that rounds to the pattern `p`, with as few digits as any other
    that does, and nearest to the number among those with the same last place. -/
structure Shortest (F : Format) (p n : Nat) (power : ℤ) : Prop where
  rounds : F.RoundsTo (n * 10 ^ power) p
  fewest : ∀ (m : Nat) (e : ℤ), F.RoundsTo (m * 10 ^ e) p →
    (Decimal.ofNat n).length ≤ (Decimal.ofNat m).length
  nearest : ∀ m : Nat, F.RoundsTo (m * 10 ^ power) p →
    |(n * 10 ^ power - F.number p : ℚ)| ≤ |(m * 10 ^ power - F.number p : ℚ)|

theorem not_contains_zero (p : Nat) : ¬ (F.readsBack p).contains 0 = true := by
  intro member
  have range := contains_readsBack member
  have step := F.units_lt_succ (p - 1)
  have border : 0 < F.halfway (p - 1) * 5 ^ (F.scale + 1) :=
    Nat.mul_pos (by unfold halfway; omega) (Nat.pow_pos (by decide))
  split at range <;> omega

/-- A decimal in the units that the ranges of patterns are counted in. -/
theorem mul_zpow_mul_pow (m : Nat) (power : ℤ) :
    (m * 10 ^ power : ℚ) * 10 ^ (F.scale + 1) = m * 10 ^ (power + (F.scale + 1 : Nat)) := by
  rw [mul_assoc, zpow_add₀ (by decide), zpow_natCast]

section Wide

variable (wide : 2 ≤ F.exponentBits)
include wide

/-- The number of a pattern in these units. -/
theorem number_mul_pow (p : Nat) :
    F.number p * 10 ^ (F.scale + 1) = (2 * F.units p * Nat.pow 5 (F.scale + 1) : Nat) := by
  have ten : (10 : ℚ) ^ (F.scale + 1) = 2 ^ F.scale * 2 * 5 ^ (F.scale + 1) := by
    rw [← pow_succ, ← mul_pow]
    norm_num
  rw [number_eq wide, ten, Nat.pow_eq]
  push_cast
  field_simp

/-- Distances from it in these units. -/
theorem abs_sub_number_mul_pow (v : ℚ) (p : Nat) : |v - F.number p| * 10 ^ (F.scale + 1) =
    |v * 10 ^ (F.scale + 1) - (2 * F.units p * Nat.pow 5 (F.scale + 1) : Nat)| := by
  have unit : (0 : ℚ) < 10 ^ (F.scale + 1) := by positivity
  rw [← number_mul_pow wide, ← sub_mul, abs_mul, abs_of_pos unit]

variable (fine : 0 < F.fractionBits) (positive : 0 < p) (finite : p < F.infinity)
include fine positive finite

/-- What rounds to a positive finite pattern is what lies in its range. -/
theorem roundsTo_iff_spans {v : ℚ} :
    F.RoundsTo v p ↔ (F.readsBack p).Spans (v * 10 ^ (F.scale + 1)) := by
  have five : (0 : ℚ) < 5 ^ (F.scale + 1) := by positivity
  have value : v * 10 ^ (F.scale + 1) = F.halves v * 5 ^ (F.scale + 1) := by
    rw [halves, mul_assoc, ← mul_pow]
    norm_num
  have ends : F.RoundsTo v p ↔ F.Reached (F.halves v) p ∧ ¬ F.Reached (F.halves v) (p + 1) := by
    simp [roundsTo_iff wide fine, positive, finite, finite.le]
  rw [ends, Interval.Spans, value]
  simp only [readsBack, Nat.pow_eq, Nat.cast_mul, Nat.cast_pow, Nat.cast_ofNat, beq_iff_eq,
    mul_le_mul_iff_left₀ five, mul_lt_mul_iff_left₀ five]
  -- of two neighbours one is even, and the middle between them belongs to that one
  split
  · rename_i remainder
    have even := Nat.even_iff.2 remainder
    have odd : ¬ Even (p + 1) := by rwa [Nat.even_add_one, not_not]
    rw [reached_iff_of_even even, reached_iff_of_odd odd, not_lt, Nat.add_sub_cancel]
  · rename_i remainder
    have odd := mt Nat.even_iff.1 remainder
    have even : Even (p + 1) := by rwa [Nat.even_add_one]
    rw [reached_iff_of_odd odd, reached_iff_of_even even, not_le, Nat.add_sub_cancel]

/-- The decimal of a positive finite number is the shortest that is read as the number. -/
theorem shortest_eq (tie : Tie) :
    ∃ n power, F.shortest tie p = (Decimal.ofNat n, power) ∧ F.Shortest p n power := by
  have inside := F.contains_units positive
  have nonzero := F.not_contains_zero p
  have range {v : ℚ} := roundsTo_iff_spans wide fine positive finite (v := v)
  cases found : (F.readsBack p).roundest tie (2 * F.units p * Nat.pow 5 (F.scale + 1)) with
  | mk n k =>
    have whole : ∀ m : Nat, (m * 10 ^ ((k : ℤ) - (F.scale + 1)) : ℚ) * 10 ^ (F.scale + 1) =
        (m * 10 ^ k : Nat) := by
      intro m
      rw [mul_zpow_mul_pow, Nat.cast_succ, sub_add_cancel, zpow_natCast]
      norm_cast
    refine ⟨n, k - (F.scale + 1), by rw [shortest, found], ?_, ?_, ?_⟩
    · rw [range, whole, ← Interval.contains_iff_spans]
      exact Interval.contains_roundest inside found
    · intro m e rounds
      rw [range, mul_zpow_mul_pow] at rounds
      exact Interval.length_le_of_roundest inside found nonzero rounds
    · intro m rounds
      rw [range, whole, ← Interval.contains_iff_spans] at rounds
      have unit : (0 : ℚ) < 10 ^ (F.scale + 1) := by positivity
      rw [← mul_le_mul_iff_left₀ unit, abs_sub_number_mul_pow wide, abs_sub_number_mul_pow wide,
        whole, whole]
      exact Interval.nearest_of_roundest inside found rounds

end Wide

end Binary.Format

end SegmentCatalog
