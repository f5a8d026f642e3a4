import Mathlib.Order.Monotone.Basic
import Mathlib.Tactic.Ring
import SegmentCatalog.Binary.Nearest
import SegmentCatalog.Binary.Shortest

/-! # Rounding to the nearest pattern

The patterns of a format rise with their values, and so do the middles between neighbours.  A
decimal is therefore read as the one pattern in whose range it lies.

* `Format.units_strictMono` and `Format.halfway_strictMono` are the two orders;
* `climb_eq` says what the search by bits finds;
* `Format.nearest_of_contains` that a decimal in the range of a pattern is read as that pattern.
-/

namespace SegmentCatalog.Binary.Format

open Decimal (Interval)

variable (F : Format)

/-! ## The order of patterns -/

/-- A pattern is a multiple of the fraction's range and a fraction. -/
theorem units_eq {exponent fraction : Nat} (small : fraction < 2 ^ F.fractionBits) :
    F.units (exponent * 2 ^ F.fractionBits + fraction) =
      if exponent = 0 then fraction
      else (2 ^ F.fractionBits + fraction) * 2 ^ (exponent - 1) := by
  have positive : 0 < 2 ^ F.fractionBits := Nat.two_pow_pos _
  have quotient : (exponent * 2 ^ F.fractionBits + fraction) / 2 ^ F.fractionBits = exponent := by
    rw [Nat.add_comm, Nat.add_mul_div_right _ _ positive, Nat.div_eq_of_lt small, Nat.zero_add]
  have remainder : (exponent * 2 ^ F.fractionBits + fraction) % 2 ^ F.fractionBits = fraction := by
    rw [Nat.add_comm, Nat.add_mul_mod_self_right, Nat.mod_eq_of_lt small]
  simp only [units, Nat.shiftRight_eq_div_pow, Nat.shiftLeft_eq, Nat.one_mul, quotient, remainder]

theorem units_lt_succ (p : Nat) : F.units p < F.units (p + 1) := by
  have positive : 0 < 2 ^ F.fractionBits := Nat.two_pow_pos _
  have small := Nat.mod_lt p positive
  have split := Nat.div_add_mod' p (2 ^ F.fractionBits)
  generalize p / 2 ^ F.fractionBits = exponent at split
  generalize p % 2 ^ F.fractionBits = fraction at split small
  subst split
  rw [F.units_eq small]
  -- the successor has the same exponent, unless the fraction is full
  by_cases carries : fraction + 1 < 2 ^ F.fractionBits
  · rw [Nat.add_assoc, F.units_eq carries]
    split
    · omega
    · exact Nat.mul_lt_mul_of_pos_right (by omega) (Nat.two_pow_pos _)
  · have next : exponent * 2 ^ F.fractionBits + fraction + 1 =
        (exponent + 1) * 2 ^ F.fractionBits + 0 := by
      rw [Nat.succ_mul]
      omega
    rw [next, F.units_eq positive, if_neg (Nat.succ_ne_zero _), Nat.add_sub_cancel, Nat.add_zero]
    split
    -- the step out of the lowest exponent does not double the unit, every later one does
    · subst exponent
      omega
    · obtain ⟨e, rfl⟩ := Nat.exists_eq_succ_of_ne_zero ‹_›
      rw [Nat.succ_sub_one, Nat.pow_succ, Nat.mul_comm (2 ^ e) 2, ← Nat.mul_assoc]
      exact Nat.mul_lt_mul_of_pos_right (by omega) (Nat.two_pow_pos _)

theorem units_strictMono : StrictMono F.units := strictMono_nat_of_lt_succ F.units_lt_succ

theorem halfway_strictMono : StrictMono F.halfway := by
  intro p q before
  exact Nat.add_lt_add (F.units_strictMono before) (F.units_strictMono (Nat.succ_lt_succ before))

/-! ## Climbing -/

/-- The search finds the last number that passes, if every number up to it passes. -/
theorem climb_eq {ok : Nat → Bool} {p : Nat} (bits : Nat) {n : Nat} (reached : n ≤ p)
    (within : p < n + 2 ^ bits) (passes : ∀ q, 0 < q → q ≤ p → ok q = true)
    (fails : ∀ q, p < q → ok q = false) : climb ok bits n = p := by
  induction bits generalizing n with
  | zero =>
    rw [climb]
    omega
  | succ bits ih =>
    have positive : 0 < 2 ^ bits := Nat.two_pow_pos _
    rw [Nat.pow_succ] at within
    rw [climb, Nat.shiftLeft_eq, Nat.one_mul]
    -- the highest power that is left is added exactly if `p` is at or beyond it
    by_cases up : n + 2 ^ bits ≤ p
    · rw [if_pos (passes _ (by omega) up)]
      exact ih up (by omega)
    · rw [if_neg (by simp [fails _ (Nat.lt_of_not_le up)])]
      exact ih reached (by omega)

/-! ## Reading a decimal in the range of a pattern -/

/-- The decimal `digits * 10 ^ exponent` is `m` in units of `10 ^ -(scale + 1)`. -/
def Denotes (digits : Nat) (exponent : Int) (m : Nat) : Prop :=
  digits * 10 ^ exponent.toNat * 10 ^ (F.scale + 1) = m * 10 ^ (-exponent).toNat

variable {F} {digits m p : Nat} {exponent : Int}

/-- Whether a pattern is reached, in the units that the ranges of patterns are counted in. -/
theorem reaches_of_denotes (denotes : F.Denotes digits exponent m) (q : Nat) :
    F.reaches digits exponent q =
      if q % 2 = 0 then decide (F.halfway (q - 1) * 5 ^ (F.scale + 1) ≤ m)
      else decide (F.halfway (q - 1) * 5 ^ (F.scale + 1) < m) := by
  have ten : 10 ^ (F.scale + 1) = 2 ^ (F.scale + 1) * 5 ^ (F.scale + 1) := by
    rw [← Nat.mul_pow]
  -- both sides of the comparison, multiplied by the same positive number
  have value : (digits * 10 ^ exponent.toNat) <<< (F.scale + 1) * 10 ^ (F.scale + 1) =
      m * (10 ^ (-exponent).toNat * 2 ^ (F.scale + 1)) := by
    rw [Nat.shiftLeft_eq, Nat.mul_right_comm, denotes, Nat.mul_assoc]
  have border : F.halfway (q - 1) * 10 ^ (-exponent).toNat * 10 ^ (F.scale + 1) =
      F.halfway (q - 1) * 5 ^ (F.scale + 1) * (10 ^ (-exponent).toNat * 2 ^ (F.scale + 1)) := by
    rw [ten]
    ring
  have scaled : 0 < 10 ^ (-exponent).toNat * 2 ^ (F.scale + 1) :=
    Nat.mul_pos (Nat.pow_pos (by decide)) (Nat.pow_pos (by decide))
  have ten_pos : 0 < 10 ^ (F.scale + 1) := Nat.pow_pos (by decide)
  simp only [reaches, Nat.pow_eq]
  split
  · rw [decide_eq_decide, ← Nat.mul_le_mul_right_iff ten_pos, value, border,
      Nat.mul_le_mul_right_iff scaled]
  · rw [decide_eq_decide, ← Nat.mul_lt_mul_right ten_pos, value, border,
      Nat.mul_lt_mul_right scaled]

theorem contains_readsBack {m p : Nat} (member : (F.readsBack p).contains m = true) :
    if p % 2 = 0 then
      F.halfway (p - 1) * 5 ^ (F.scale + 1) ≤ m ∧ m ≤ F.halfway p * 5 ^ (F.scale + 1)
    else F.halfway (p - 1) * 5 ^ (F.scale + 1) < m ∧ m < F.halfway p * 5 ^ (F.scale + 1) := by
  simp only [Interval.contains, readsBack, beq_iff_eq] at member
  split
  · rename_i even
    rw [if_pos even] at member
    obtain ⟨lower, upper⟩ := Bool.and_eq_true_iff.1 member
    exact ⟨of_decide_eq_true lower, of_decide_eq_true upper⟩
  · rename_i odd
    rw [if_neg odd] at member
    obtain ⟨lower, upper⟩ := Bool.and_eq_true_iff.1 member
    exact ⟨of_decide_eq_true lower, of_decide_eq_true upper⟩

theorem reaches_of_le (denotes : F.Denotes digits exponent m)
    (member : (F.readsBack p).contains m = true) {q : Nat} (positive : 0 < q) (upTo : q ≤ p) :
    F.reaches digits exponent q = true := by
  have range := contains_readsBack member
  rw [reaches_of_denotes denotes]
  rcases Nat.eq_or_lt_of_le upTo with rfl | before
  -- the lower end of the range is the middle that `p` itself has to reach
  · split
    · rw [if_pos ‹_›] at range
      exact decide_eq_true range.1
    · rw [if_neg ‹_›] at range
      exact decide_eq_true range.1
  · have lower : F.halfway (q - 1) * 5 ^ (F.scale + 1) < F.halfway (p - 1) * 5 ^ (F.scale + 1) :=
      Nat.mul_lt_mul_of_pos_right (F.halfway_strictMono (by omega)) (Nat.pow_pos (by decide))
    have inside : F.halfway (p - 1) * 5 ^ (F.scale + 1) ≤ m := by
      split at range <;> omega
    split
    · exact decide_eq_true (by omega)
    · exact decide_eq_true (by omega)

theorem not_reaches_of_lt (denotes : F.Denotes digits exponent m)
    (member : (F.readsBack p).contains m = true) {q : Nat} (after : p < q) :
    F.reaches digits exponent q = false := by
  have range := contains_readsBack member
  rw [reaches_of_denotes denotes]
  rcases Nat.eq_or_lt_of_le (Nat.succ_le_of_lt after) with rfl | beyond
  · rw [Nat.succ_sub_one]
    -- of two neighbours one is even, and the middle between them belongs to that one
    by_cases even : p % 2 = 0
    · rw [if_pos even] at range
      rw [if_neg (by omega)]
      exact decide_eq_false (by omega)
    · rw [if_neg even] at range
      rw [if_pos (by omega)]
      exact decide_eq_false (by omega)
  · have higher : F.halfway p * 5 ^ (F.scale + 1) < F.halfway (q - 1) * 5 ^ (F.scale + 1) :=
      Nat.mul_lt_mul_of_pos_right (F.halfway_strictMono (by omega)) (Nat.pow_pos (by decide))
    have inside : m ≤ F.halfway p * 5 ^ (F.scale + 1) := by
      split at range <;> omega
    split
    · exact decide_eq_false (by omega)
    · exact decide_eq_false (by omega)

theorem infinity_lt (F : Format) : F.infinity < 2 ^ F.magnitudeBits := by
  have low : 0 < 2 ^ F.exponentBits := Nat.two_pow_pos _
  rw [infinity, magnitudeBits, Nat.shiftLeft_eq, Nat.shiftLeft_eq, Nat.one_mul, Nat.pow_add]
  exact Nat.mul_lt_mul_of_pos_right (by omega) (Nat.two_pow_pos _)

/-- A decimal in the range of a finite pattern is read as that pattern. -/
theorem nearest_of_contains (denotes : F.Denotes digits exponent m) (finite : p < F.infinity)
    (member : (F.readsBack p).contains m = true) : F.nearest digits exponent = p := by
  have fits := F.infinity_lt
  refine climb_eq F.magnitudeBits (Nat.zero_le p) (by omega) ?_ ?_
  · intro q positive upTo
    simp only [Bool.and_eq_true, decide_eq_true_eq]
    exact ⟨by omega, reaches_of_le denotes member positive upTo⟩
  · intro q after
    rw [not_reaches_of_lt denotes member after, Bool.and_false]

theorem nearest_zero (F : Format) : F.nearest 0 0 = 0 := by
  refine climb_eq F.magnitudeBits (Nat.le_refl 0) (by simp) (by omega) ?_
  intro q after
  have denotes : F.Denotes 0 0 0 := by simp [Denotes]
  have border : 0 < F.halfway (q - 1) * 5 ^ (F.scale + 1) := by
    have step := F.units_lt_succ (q - 1)
    exact Nat.mul_pos (by unfold halfway; omega) (Nat.pow_pos (by decide))
  rw [reaches_of_denotes denotes, Bool.and_eq_false_iff]
  right
  split
  · exact decide_eq_false (by omega)
  · exact decide_eq_false (by omega)

end SegmentCatalog.Binary.Format
