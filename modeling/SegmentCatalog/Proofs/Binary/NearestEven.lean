import Mathlib.Algebra.Order.Ring.Abs
import Mathlib.Data.Nat.Find
import Mathlib.Tactic.Linarith
import SegmentCatalog.Proofs.Binary.Numbers

/-! # Correct rounding

A decimal is to be read as the finite number nearest to it, of two equally near ones as the one with
the even pattern, and as infinite from the middle between the largest finite number and the next
power of two on: `Format.RoundsTo` says so of any rational number and any pattern, in terms of the
numbers that the fields stand for.

Of two patterns the higher one is at least as good exactly from the middle between them on
(`Format.prefers_iff_of_lt`), so a number rounds to the pattern between whose middles it lies
(`Format.roundsTo_iff`).  There is such a pattern for each number (`Format.exists_roundsTo`), and
the search by bits finds it: `Format.nearest_eq_iff`.
-/

namespace SegmentCatalog.Binary.Format

variable (F : Format)

/-! ## Rounding -/

/-- The number that a pattern below that of infinity stands for. -/
def number (p : Nat) : ℚ := F.ofFields (p / 2 ^ F.fractionBits) (p % 2 ^ F.fractionBits)

/-- Where infinity starts: in the middle between the largest finite number and the next power of
    two. -/
def limit : ℚ := (F.number (F.infinity - 1) + 2 ^ (F.bias + 1)) / 2

/-- Whether `p` is nearer to `v` than `q` is, or as near and even. -/
def Prefers (v : ℚ) (p q : Nat) : Prop :=
  |v - F.number p| < |v - F.number q| ∨ (|v - F.number p| = |v - F.number q| ∧ Even p)

/-- To the nearest, ties to even. -/
def RoundsTo (v : ℚ) (p : Nat) : Prop :=
  if F.limit ≤ v then p = F.infinity
  else p < F.infinity ∧ ∀ q < F.infinity, q ≠ p → F.Prefers v p q

/-- At or above the middle between the patterns before `q` and `q`, for `q` even; else above it.
    The middle is given in halves of the least positive number. -/
def Reached (halves : ℚ) (q : Nat) : Prop :=
  (F.halfway (q - 1) : ℚ) < halves ∨ ((F.halfway (q - 1) : ℚ) = halves ∧ Even q)

/-- A rational number in halves of the least positive number. -/
def halves (v : ℚ) : ℚ := v * 2 ^ (F.scale + 1)

variable {F} {v : ℚ} {p q : Nat}

/-! ## The better of two patterns -/

section Distances

variable {a b t : ℚ} (order : a < b)
include order

/-- Of two numbers the higher one is nearer to what lies above their middle. -/
theorem abs_sub_lt_iff : |t - b| < |t - a| ↔ a + b < 2 * t := by
  have squares : (t - a) ^ 2 - (t - b) ^ 2 = (b - a) * (2 * t - (a + b)) := by ring
  rw [← sq_lt_sq, ← sub_pos, squares, mul_pos_iff_of_pos_left (sub_pos.2 order), sub_pos]

theorem abs_sub_le_iff : |t - b| ≤ |t - a| ↔ a + b ≤ 2 * t := by
  have squares : (t - a) ^ 2 - (t - b) ^ 2 = (b - a) * (2 * t - (a + b)) := by ring
  rw [← sq_le_sq, ← sub_nonneg, squares, mul_nonneg_iff_of_pos_left (sub_pos.2 order), sub_nonneg]

theorem abs_sub_eq_iff : |t - b| = |t - a| ↔ a + b = 2 * t := by
  have farther : |t - a| ≤ |t - b| ↔ 2 * t ≤ a + b := by
    rw [← not_lt, abs_sub_lt_iff order, not_lt]
  rw [le_antisymm_iff, abs_sub_le_iff order, farther, ← le_antisymm_iff, eq_comm]

end Distances

theorem even_infinity (fine : 0 < F.fractionBits) : Even F.infinity := by
  rw [infinity_eq]
  exact (Nat.even_pow.2 ⟨even_two, by omega⟩).mul_left _

theorem cast_halfway (p : Nat) : (F.halfway p : ℚ) = F.units p + F.units (p + 1) := by
  rw [halfway, Nat.cast_add]

theorem halfway_lt (order : p < q) : (F.halfway p : ℚ) < F.halfway q :=
  Nat.cast_lt.2 (F.halfway_strictMono order)

theorem two_mul_eq_halves (v : ℚ) : 2 * v = F.halves v / 2 ^ F.scale := by
  rw [halves, pow_succ]
  field_simp

theorem reached_iff_of_even {t : ℚ} (even : Even p) : F.Reached t p ↔ F.halfway (p - 1) ≤ t := by
  rw [Reached, and_iff_left even, le_iff_lt_or_eq]

theorem reached_iff_of_odd {t : ℚ} (odd : ¬ Even p) : F.Reached t p ↔ F.halfway (p - 1) < t := by
  rw [Reached, or_iff_left fun middle => odd middle.2]

/-- What is reached by a number is reached up to a pattern. -/
theorem Reached.of_le {t : ℚ} (reached : F.Reached t p) (positive : 0 < q) (upTo : q ≤ p) :
    F.Reached t q := by
  cases Nat.eq_or_lt_of_le upTo with
  | inl same => rwa [same]
  | inr before =>
    have order : (F.halfway (q - 1) : ℚ) < F.halfway (p - 1) := halfway_lt (by omega)
    cases reached with
    | inl above => exact .inl (order.trans above)
    | inr middle => exact .inl (order.trans_eq middle.1)

section Wide

variable (wide : 2 ≤ F.exponentBits)
include wide

theorem number_eq (p : Nat) : F.number p = F.units p / 2 ^ F.scale := by
  rw [number, ofFields_eq_units wide (Nat.mod_lt _ (Nat.two_pow_pos _)), Nat.div_add_mod']

theorem number_lt (order : p < q) : F.number p < F.number q := by
  rw [number_eq wide, number_eq wide]
  exact div_lt_div_of_pos_right (Nat.cast_lt.2 (F.units_strictMono order)) (by positivity)

/-- The middle between two patterns, in halves of the least positive number. -/
theorem number_add_number (p q : Nat) :
    F.number p + F.number q = (F.units p + F.units q) / 2 ^ F.scale := by
  rw [number_eq wide, number_eq wide, add_div]

theorem prefers_iff_of_gt (order : q < p) : F.Prefers v p q ↔
    (F.units q + F.units p : ℚ) < F.halves v ∨
      ((F.units q + F.units p : ℚ) = F.halves v ∧ Even p) := by
  have numbers := number_lt wide order
  have positive : (0 : ℚ) < 2 ^ F.scale := by positivity
  rw [Prefers, abs_sub_lt_iff numbers, abs_sub_eq_iff numbers, number_add_number wide,
    two_mul_eq_halves, div_lt_div_iff_of_pos_right positive, div_left_inj' positive.ne']

theorem prefers_iff_of_lt (order : p < q) : F.Prefers v p q ↔
    F.halves v < (F.units p + F.units q : ℚ) ∨
      (F.halves v = (F.units p + F.units q : ℚ) ∧ Even p) := by
  have numbers := number_lt wide order
  have positive : (0 : ℚ) < 2 ^ F.scale := by positivity
  rw [Prefers, ← not_le, abs_sub_le_iff numbers, not_le, eq_comm, abs_sub_eq_iff numbers, eq_comm,
    number_add_number wide, two_mul_eq_halves, div_lt_div_iff_of_pos_right positive,
    div_left_inj' positive.ne']

theorem prefers_pred_iff (positive : 0 < p) :
    F.Prefers v p (p - 1) ↔ F.Reached (F.halves v) p := by
  have next : p - 1 + 1 = p := by omega
  rw [prefers_iff_of_gt wide (by omega), Reached, cast_halfway, next]

theorem prefers_succ_iff : F.Prefers v p (p + 1) ↔ ¬ F.Reached (F.halves v) (p + 1) := by
  rw [prefers_iff_of_lt wide (Nat.lt_succ_self p), Reached, Nat.add_sub_cancel, cast_halfway,
    Nat.even_add_one]
  cases lt_trichotomy (F.halves v) (F.units p + F.units (p + 1)) with
  | inl below => simp [below, below.not_gt, below.ne']
  | inr others =>
    cases others with
    | inl middle => simp [middle]
    | inr above => simp [above, above.not_gt, above.ne']

/-- A pattern that is better than the one before it is better than all before it. -/
theorem Prefers.of_lt (better : F.Prefers v p (p - 1)) (order : q < p) : F.Prefers v p q := by
  cases Nat.eq_or_lt_of_le (Nat.le_sub_one_of_lt order) with
  | inl same => rwa [same]
  | inr before =>
    have lower : (F.units q : ℚ) < F.units (p - 1) := Nat.cast_lt.2 (F.units_strictMono before)
    rw [prefers_iff_of_gt wide (by omega)] at better
    rw [prefers_iff_of_gt wide order]
    left
    cases better with
    | inl above => linarith
    | inr middle => linarith [middle.1]

/-- A pattern that is better than the next one is better than all behind it. -/
theorem Prefers.of_gt (better : F.Prefers v p (p + 1)) (order : p < q) : F.Prefers v p q := by
  cases Nat.eq_or_lt_of_le (Nat.succ_le_of_lt order) with
  | inl same => rwa [← same]
  | inr behind =>
    have higher : (F.units (p + 1) : ℚ) < F.units q := Nat.cast_lt.2 (F.units_strictMono behind)
    rw [prefers_iff_of_lt wide (Nat.lt_succ_self p)] at better
    rw [prefers_iff_of_lt wide order]
    left
    cases better with
    | inl below => linarith
    | inr middle => linarith [middle.1]

/-! ## Infinity -/

/-- The pattern of infinity follows on the finite ones as that of the next power of two. -/
theorem two_zpow_bias_add_one : (2 : ℚ) ^ (F.bias + 1) = F.units F.infinity / 2 ^ F.scale := by
  have exponents : 2 ^ F.exponentBits = 2 * 2 ^ (F.exponentBits - 1) := by
    rw [← pow_succ']
    congr 1
    omega
  have positive : 0 < 2 ^ (F.exponentBits - 1) := Nat.two_pow_pos _
  have power : ((2 ^ F.exponentBits - 1 : Nat) : ℤ) - F.bias = F.bias + 1 := by
    rw [bias, Nat.cast_sub (Nat.one_le_two_pow), exponents]
    push_cast
    ring
  have full : 2 ^ F.exponentBits - 1 ≠ 0 := by omega
  have fields : F.ofFields (2 ^ F.exponentBits - 1) 0 = F.units F.infinity / 2 ^ F.scale := by
    rw [ofFields_eq_units wide (Nat.two_pow_pos F.fractionBits), Nat.add_zero, ← infinity_eq]
  rw [ofFields, if_neg full, power] at fields
  rw [← fields]
  simp

theorem limit_le_iff (fine : 0 < F.fractionBits) :
    F.limit ≤ v ↔ F.Reached (F.halves v) F.infinity := by
  have above : 0 < F.infinity := F.infinity_pos (by omega)
  have next : F.infinity - 1 + 1 = F.infinity := by omega
  have positive : (0 : ℚ) < 2 ^ F.scale := by positivity
  have twice : F.limit ≤ v ↔ F.halfway (F.infinity - 1) ≤ F.halves v := by
    rw [limit, div_le_iff₀' two_pos, number_eq wide, two_zpow_bias_add_one wide, ← add_div,
      two_mul_eq_halves, div_le_div_iff_of_pos_right positive, cast_halfway, next]
  rw [twice, reached_iff_of_even (even_infinity fine)]

/-- A number rounds to a pattern if it reaches that one and not the next. -/
theorem roundsTo_iff (fine : 0 < F.fractionBits) : F.RoundsTo v p ↔
    p ≤ F.infinity ∧ (0 < p → F.Reached (F.halves v) p) ∧
      (p < F.infinity → ¬ F.Reached (F.halves v) (p + 1)) := by
  have above : 0 < F.infinity := F.infinity_pos (by omega)
  rw [RoundsTo]
  by_cases infinite : F.limit ≤ v
  · have reached := (limit_le_iff wide fine).1 infinite
    rw [if_pos infinite]
    constructor
    · intro same
      subst same
      exact ⟨Nat.le_refl _, fun _ => reached, fun below => absurd below (Nat.lt_irrefl _)⟩
    · intro ⟨bounded, _, stops⟩
      by_contra other
      have below : p < F.infinity := by omega
      exact stops below (reached.of_le (Nat.succ_pos p) below)
  · have unreached := mt (limit_le_iff wide fine).2 infinite
    rw [if_neg infinite]
    constructor
    · intro ⟨below, best⟩
      refine ⟨below.le, fun positive => ?_, fun _ => ?_⟩
      · exact (prefers_pred_iff wide positive).1 (best _ (by omega) (by omega))
      · cases Nat.eq_or_lt_of_le (Nat.succ_le_of_lt below) with
        | inl last =>
          rw [← last] at unreached
          exact unreached
        | inr inside => exact (prefers_succ_iff wide).1 (best _ inside (by omega))
    · intro ⟨bounded, reached, stops⟩
      have finite : p ≠ F.infinity := by
        intro same
        subst same
        exact unreached (reached above)
      have below : p < F.infinity := by omega
      refine ⟨below, fun q _ other => ?_⟩
      cases Nat.lt_or_gt_of_ne other with
      | inl before =>
        exact ((prefers_pred_iff wide (by omega)).2 (reached (by omega))).of_lt wide before
      | inr behind => exact ((prefers_succ_iff wide).2 (stops below)).of_gt wide behind

/-- Every number rounds to some pattern. -/
theorem exists_roundsTo (fine : 0 < F.fractionBits) (v : ℚ) : ∃ p, F.RoundsTo v p := by
  classical
  -- the last pattern that is reached, if any is
  refine ⟨Nat.findGreatest (F.Reached (F.halves v)) F.infinity, ?_⟩
  rw [roundsTo_iff wide fine]
  refine ⟨Nat.findGreatest_le _, fun positive => ?_, fun below => ?_⟩
  · exact Nat.findGreatest_of_ne_zero rfl positive.ne'
  · exact Nat.findGreatest_is_greatest (Nat.lt_succ_self _) below

end Wide

/-! ## Reading -/

/-- A decimal, with its power of ten as a factor or as a divisor. -/
theorem mul_zpow_ten (digits : Nat) (exponent : ℤ) :
    (digits * 10 ^ exponent : ℚ) * (10 ^ (-exponent).toNat : Nat) =
      (digits * 10 ^ exponent.toNat : Nat) := by
  have factor : (10 : ℚ) ^ exponent * 10 ^ (-exponent).toNat = 10 ^ exponent.toNat := by
    rw [← zpow_natCast, ← zpow_natCast, ← zpow_add₀ (by decide)]
    congr 1
    omega
  push_cast
  rw [mul_assoc, factor]

theorem reaches_iff {digits : Nat} {exponent : ℤ} :
    F.reaches digits exponent q = true ↔ F.Reached (F.halves (digits * 10 ^ exponent)) q := by
  have positive : (0 : ℚ) < (10 ^ (-exponent).toNat : Nat) := by positivity
  have value : F.halves (digits * 10 ^ exponent) * (10 ^ (-exponent).toNat : Nat) =
      (digits * 10 ^ exponent.toNat * 2 ^ (F.scale + 1) : Nat) := by
    rw [halves, mul_right_comm, mul_zpow_ten]
    push_cast
    rfl
  simp only [reaches, Nat.pow_eq, Nat.shiftLeft_eq]
  split
  · rename_i even
    rw [reached_iff_of_even (Nat.even_iff.2 even), decide_eq_true_iff,
      ← mul_le_mul_iff_left₀ positive, value, ← Nat.cast_mul, Nat.cast_le]
  · rename_i odd
    rw [reached_iff_of_odd (mt Nat.even_iff.1 odd), decide_eq_true_iff,
      ← mul_lt_mul_iff_left₀ positive, value, ← Nat.cast_mul, Nat.cast_lt]

variable (wide : 2 ≤ F.exponentBits) (fine : 0 < F.fractionBits) {digits : Nat} {exponent : ℤ}
include wide fine

theorem nearest_of_roundsTo (rounds : F.RoundsTo (digits * 10 ^ exponent) p) :
    F.nearest digits exponent = p := by
  obtain ⟨bounded, reached, stops⟩ := (roundsTo_iff wide fine).1 rounds
  have fits := F.infinity_lt
  refine climb_eq F.magnitudeBits (Nat.zero_le p) (by omega) ?_ ?_
  · intro q positive upTo
    have here := (reached (by omega)).of_le positive upTo
    rw [Bool.and_eq_true, decide_eq_true_iff, reaches_iff]
    exact ⟨by omega, here⟩
  · intro q after
    rw [Bool.and_eq_false_iff, decide_eq_false_iff_not, ← Bool.not_eq_true, reaches_iff]
    by_cases finite : p < F.infinity
    · exact .inr fun further => stops finite (further.of_le (Nat.succ_pos p) after)
    · exact .inl (by omega)

/-- A decimal is read as the pattern that it rounds to. -/
theorem nearest_eq_iff :
    F.nearest digits exponent = p ↔ F.RoundsTo (digits * 10 ^ exponent) p := by
  refine ⟨fun found => ?_, nearest_of_roundsTo wide fine⟩
  obtain ⟨q, rounds⟩ := exists_roundsTo wide fine (digits * 10 ^ exponent)
  rw [← found, nearest_of_roundsTo wide fine rounds]
  exact rounds

end SegmentCatalog.Binary.Format
