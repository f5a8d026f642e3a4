import Mathlib.Algebra.Order.Field.Basic
import Mathlib.Algebra.Order.Group.Int
import Mathlib.Algebra.Order.Ring.Rat
import Mathlib.Data.Int.ConditionallyCompleteOrder
import Mathlib.Order.Monotone.Odd
import Mathlib.Order.WithBot
import Mathlib.Tactic.FieldSimp
import Mathlib.Tactic.Positivity
import SegmentCatalog.Proofs.Binary.Rounding

/-! # The numbers that bits stand for

A magnitude is an exponent field above a fraction field.  If the exponent field is full, it is
infinity or no number; if it is empty, the fraction of a least power of two; and else one and the
fraction, times a power of two (`Format.ofFields`).  `value?` is that number with its sign.

The places that numbers are compared by rise with the numbers, on both sides of zero
(`Format.atPlace_strictMonoOn`).  So `compare?` is the order of numbers: `compare?_eq`.
-/

namespace SegmentCatalog.Binary

namespace Format

variable (F : Format)

/-! ## Fields -/

/-- The exponent field of the numbers from one to two. -/
def bias : Int := 2 ^ (F.exponentBits - 1) - 1

/-- The number that the two fields stand for, unless the exponent field is full. -/
def ofFields (exponent fraction : Nat) : ℚ :=
  if exponent = 0 then fraction / 2 ^ F.fractionBits * 2 ^ (1 - F.bias)
  else (1 + fraction / 2 ^ F.fractionBits) * 2 ^ (exponent - F.bias)

theorem infinity_eq : F.infinity = (2 ^ F.exponentBits - 1) * 2 ^ F.fractionBits := by
  rw [infinity, Nat.shiftLeft_eq, Nat.shiftLeft_eq, Nat.one_mul]

theorem infinity_pos (wide : 0 < F.exponentBits) : 0 < F.infinity := by
  have exponents : 2 ^ 0 < 2 ^ F.exponentBits := Nat.pow_lt_pow_right (by decide) wide
  rw [infinity_eq]
  exact Nat.mul_pos (by omega) (Nat.two_pow_pos _)

theorem exponent_full_iff {p : Nat} (fits : p < 2 ^ F.magnitudeBits) :
    p / 2 ^ F.fractionBits = 2 ^ F.exponentBits - 1 ↔ F.infinity ≤ p := by
  have bounded : p / 2 ^ F.fractionBits < 2 ^ F.exponentBits := by
    refine Nat.div_lt_of_lt_mul ?_
    rw [← Nat.pow_add, Nat.add_comm]
    exact fits
  rw [infinity_eq, ← Nat.le_div_iff_mul_le (Nat.two_pow_pos _)]
  omega

theorem fraction_of_exponent_full {p : Nat}
    (full : p / 2 ^ F.fractionBits = 2 ^ F.exponentBits - 1) :
    p % 2 ^ F.fractionBits = p - F.infinity := by
  have whole := Nat.div_add_mod' p (2 ^ F.fractionBits)
  rw [full, ← infinity_eq] at whole
  omega

variable {F} (wide : 2 ≤ F.exponentBits)
include wide

theorem scale_eq : (F.scale : Int) = F.bias - 1 + F.fractionBits := by
  have room : 2 ^ 1 ≤ 2 ^ (F.exponentBits - 1) := Nat.pow_le_pow_right (by decide) (by omega)
  rw [scale, bias, Nat.shiftLeft_eq, Nat.one_mul]
  push_cast [Nat.cast_sub (Nat.le_trans (by decide) room : 2 ≤ 2 ^ (F.exponentBits - 1))]
  omega

/-- The least power of two is the range of fractions, in units of the least positive number. -/
theorem two_zpow_one_sub_bias :
    (2 : ℚ) ^ (1 - F.bias) = 2 ^ F.fractionBits / 2 ^ F.scale := by
  have exponents : 1 - F.bias = (F.fractionBits : Int) - F.scale := by
    rw [scale_eq wide]
    omega
  rw [exponents, zpow_sub₀ two_ne_zero, zpow_natCast, zpow_natCast]

/-- `units` counts what the fields stand for. -/
theorem ofFields_eq_units {exponent fraction : Nat} (small : fraction < 2 ^ F.fractionBits) :
    F.ofFields exponent fraction =
      F.units (exponent * 2 ^ F.fractionBits + fraction) / 2 ^ F.scale := by
  rw [F.units_eq small, ofFields]
  split
  · rw [two_zpow_one_sub_bias wide]
    field_simp
  · obtain ⟨e, rfl⟩ := Nat.exists_eq_succ_of_ne_zero ‹_›
    have powers : ((e.succ : Nat) : Int) - F.bias = (1 - F.bias) + (e : Nat) := by
      push_cast
      omega
    rw [powers, zpow_add₀ two_ne_zero, zpow_natCast, two_zpow_one_sub_bias wide,
      Nat.succ_sub_one]
    push_cast
    field_simp

omit wide

example : single.ofFields 128 (2 ^ 22) = 3 := by decide +kernel

/-! ## Places -/

variable (F)

/-- The value of a signed pattern, in multiples of the least positive number. -/
def signedUnits (place : Int) : Int := place.sign * F.units place.natAbs

@[simp] theorem signedUnits_neg (place : Int) : F.signedUnits (-place) = -F.signedUnits place := by
  rw [signedUnits, signedUnits, Int.sign_neg, Int.natAbs_neg, Int.neg_mul]

@[simp] theorem signedUnits_natCast (p : Nat) : F.signedUnits p = F.units p := by
  cases p with
  | zero => simp [signedUnits]
  | succ p => rw [signedUnits, Int.natCast_succ, Int.sign_natCast_add_one, ← Int.natCast_succ,
      Int.natAbs_natCast, Int.one_mul]

theorem signedUnits_strictMono : StrictMono F.signedUnits := by
  refine strictMono_of_odd_strictMonoOn_nonneg F.signedUnits_neg ?_
  intro m positive n _ below
  obtain ⟨p, rfl⟩ := Int.eq_ofNat_of_zero_le positive
  obtain ⟨q, rfl⟩ := Int.eq_ofNat_of_zero_le (Int.le_trans positive (Int.le_of_lt below))
  rw [signedUnits_natCast, signedUnits_natCast]
  exact Int.ofNat_lt.2 (F.units_strictMono (Int.ofNat_lt.1 below))

/-- The number at a place: infinite at the patterns of infinity, and finite between them. -/
def atPlace (place : Int) : WithBot (WithTop ℚ) :=
  if place = -F.infinity then ⊥
  else if place = F.infinity then ⊤
  else ((F.signedUnits place / 2 ^ F.scale : ℚ) : WithTop ℚ)

theorem atPlace_of_finite {place : Int} (lower : -(F.infinity : Int) < place)
    (upper : place < F.infinity) :
    F.atPlace place = ((F.signedUnits place / 2 ^ F.scale : ℚ) : WithTop ℚ) := by
  rw [atPlace, if_neg (Int.ne_of_gt lower), if_neg (Int.ne_of_lt upper)]

theorem atPlace_strictMonoOn :
    StrictMonoOn F.atPlace (Set.Icc (-(F.infinity : Int)) F.infinity) := by
  rintro m ⟨lower, _⟩ n ⟨_, upper⟩ below
  -- only the lower place can be that of minus infinity, and only the higher one that of infinity
  rcases Int.lt_or_eq_of_le lower with lower | rfl
  · rw [F.atPlace_of_finite lower (Int.lt_of_lt_of_le below upper)]
    rcases Int.lt_or_eq_of_le upper with upper | rfl
    · rw [F.atPlace_of_finite (Int.lt_trans lower below) upper, WithBot.coe_lt_coe,
        WithTop.coe_lt_coe]
      refine div_lt_div_of_pos_right ?_ (by positivity)
      exact Int.cast_lt.2 (F.signedUnits_strictMono below)
    · rw [atPlace, if_neg (Int.ne_of_gt (Int.lt_trans lower below)), if_pos rfl]
      exact WithBot.coe_lt_coe.2 (WithTop.coe_lt_top _)
  · rw [atPlace, if_pos rfl, atPlace, if_neg (Int.ne_of_gt below)]
    split
    · exact WithBot.bot_lt_coe _
    · exact WithBot.bot_lt_coe _

end Format

/-! ## Values -/

variable {F : Format}

/-- The number that the bits stand for, if they stand for one. -/
def value? (x : Binary F) : Option (WithBot (WithTop ℚ)) :=
  let exponent := x.magnitude.toNat / 2 ^ F.fractionBits
  let fraction := x.magnitude.toNat % 2 ^ F.fractionBits
  if exponent = 2 ^ F.exponentBits - 1 then
    if fraction = 0 then some (if x.negative then ⊥ else ⊤) else none
  else
    let finite : ℚ := F.ofFields exponent fraction
    some ((if x.negative then -finite else finite : ℚ) : WithTop ℚ)

theorem rank_mem {x : Binary F} (defined : x.isNaN = false) :
    x.rank ∈ Set.Icc (-(F.infinity : Int)) F.infinity := by
  have bounded : x.magnitude.toNat ≤ F.infinity := Nat.le_of_not_lt (of_decide_eq_false defined)
  rw [Set.mem_Icc, rank]
  split <;> omega

/-- Where a number stands among the others says which number it is. -/
theorem value?_eq (wide : 2 ≤ F.exponentBits) (x : Binary F) :
    x.value? = if x.isNaN then none else some (F.atPlace x.rank) := by
  have fits := x.magnitude.isLt
  have above : 0 < F.infinity := F.infinity_pos (by omega)
  unfold value?
  by_cases full : F.infinity ≤ x.magnitude.toNat
  -- from the pattern of infinity on the exponent field is full, and the fraction tells the excess
  · have exponent := (F.exponent_full_iff fits).2 full
    rw [if_pos exponent, F.fraction_of_exponent_full exponent]
    rcases Nat.lt_or_eq_of_le full with beyond | infinite
    · have undefined : x.isNaN = true := decide_eq_true beyond
      rw [if_neg (by omega), if_pos undefined]
    · have defined : x.isNaN = false := decide_eq_false (by omega)
      have ends : (F.infinity : Int) ≠ -F.infinity := by omega
      rw [if_pos (by omega), defined]
      cases sign : x.negative with
      | false => simp [rank, sign, ← infinite, Format.atPlace, ends]
      | true => simp [rank, sign, ← infinite, Format.atPlace]
  · have defined : x.isNaN = false := decide_eq_false (by omega)
    have value : F.ofFields (x.magnitude.toNat / 2 ^ F.fractionBits)
        (x.magnitude.toNat % 2 ^ F.fractionBits) =
          F.units x.magnitude.toNat / 2 ^ F.scale := by
      rw [Format.ofFields_eq_units wide (Nat.mod_lt _ (Nat.two_pow_pos _)), Nat.div_add_mod']
    rw [if_neg (mt (F.exponent_full_iff fits).1 full), defined, value]
    cases sign : x.negative with
    | false =>
      have place : x.rank = x.magnitude.toNat := by simp [rank, sign]
      rw [place, F.atPlace_of_finite (by omega) (by omega)]
      simp
    | true =>
      have place : x.rank = -x.magnitude.toNat := by simp [rank, sign]
      rw [place, F.atPlace_of_finite (by omega) (by omega)]
      simp [neg_div]

/-- Numbers are in the order of their values; what is no number is in no order. -/
theorem compare?_eq (wide : 2 ≤ F.exponentBits) (x y : Binary F) :
    x.compare? y = x.value?.bind fun v => y.value?.map (compare v) := by
  rw [value?_eq wide, value?_eq wide, compare?]
  cases left : x.isNaN with
  | true => rfl
  | false =>
    cases right : y.isNaN with
    | true => rfl
    | false =>
      have order := F.atPlace_strictMonoOn.cmp_map_eq (rank_mem left) (rank_mem right)
      rw [cmp_eq_compare, cmp_eq_compare] at order
      simp [order]

end SegmentCatalog.Binary
