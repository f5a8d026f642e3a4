import Mathlib.Tactic.NormNum
import SegmentCatalog.Partition.Hash

/-! # Remainders in machine words

Arithmetic in words of 32 and 64 bits, where a step whose outcome does not fit its word has
none.  For a positive divisor no step fails, and each gives what the same step gives in whole
numbers:

* `remainder?_eq` and `euclideanRemainder?_eq` for the remainder that takes the sign of the
  dividend, where the dividend has none, and for the one that is never negative;
* `toNat_magnitude` for the magnitude, which the least word has as well.
-/

namespace SegmentCatalog.Word

/-- A whole number as a signed word, where it fits. -/
def int32? (n : Int) : Option Int32 :=
  if -2 ^ 31 ≤ n ∧ n < 2 ^ 31 then some (.ofInt n) else none

/-- A whole number as an unsigned word, where it fits. -/
def uint32? (n : Int) : Option UInt32 :=
  if 0 ≤ n ∧ n < 2 ^ 32 then some (.ofNat n.toNat) else none

/-- The remainder that has the sign of the dividend.  There is none if the divisor is zero or
    the quotient too large. -/
def remainder? (a b : Int32) : Option Int32 :=
  if b = 0 ∨ (a = Int32.minValue ∧ b = -1) then none else some (a % b)

/-- The remainder that is never negative. -/
def euclideanRemainder? (a b : Int64) : Option Int64 :=
  if b = 0 ∨ (a = Int64.minValue ∧ b = -1) then none
  else
    let r := a % b
    some (if r < 0 then if b < 0 then r - b else r + b else r)

def remainderUnsigned? (a b : UInt32) : Option UInt32 := if b = 0 then none else some (a % b)

/-- A word without its sign. -/
def magnitude (h : Int32) : UInt32 := if h < 0 then -h.toUInt32 else h.toUInt32

theorem int32?_eq {n : Int} {count : Int32} (lower : 0 ≤ n) (upper : n < count.toInt) :
    ∃ id, int32? n = some id ∧ id.toInt = n := by
  have bound := count.toInt_lt
  rw [int32?, if_pos (by omega)]
  exact ⟨_, rfl, Int32.toInt_ofInt_of_le (by omega) (by omega)⟩

theorem uint32?_eq {count : Int32} (positive : 0 < count.toInt) :
    ∃ n, uint32? count.toInt = some n ∧ (n.toNat : Int) = count.toInt := by
  have bound := count.toInt_lt
  rw [uint32?, if_pos (by omega)]
  refine ⟨_, rfl, ?_⟩
  rw [UInt32.toNat_ofNat', Nat.mod_eq_of_lt (by omega)]
  omega

theorem remainder?_eq {a b : Int32} (natural : 0 ≤ a.toInt) (positive : 0 < b.toInt) :
    ∃ r, remainder? a b = some r ∧ r.toInt = a.toInt % b.toInt := by
  have proper : ¬ (b = 0 ∨ (a = Int32.minValue ∧ b = -1)) := by
    rintro (rfl | ⟨rfl, -⟩)
    · exact absurd positive (by decide)
    · exact absurd natural (by decide)
  refine ⟨a % b, by rw [remainder?, if_neg proper], ?_⟩
  rw [Int32.toInt_mod, Int.tmod_eq_emod_of_nonneg natural]

theorem euclideanRemainder?_eq {a b : Int64} (positive : 0 < b.toInt) :
    ∃ r, euclideanRemainder? a b = some r ∧ r.toInt = a.toInt % b.toInt := by
  have proper : ¬ (b = 0 ∨ (a = Int64.minValue ∧ b = -1)) := by
    rintro (rfl | ⟨-, rfl⟩)
    · exact absurd positive (by decide)
    · exact absurd positive (by decide)
  rw [euclideanRemainder?, if_neg proper]
  refine ⟨_, rfl, ?_⟩
  have bound := b.toInt_lt
  have nonneg := Int.emod_nonneg a.toInt (by omega : b.toInt ≠ 0)
  have below := Int.emod_lt_of_pos a.toInt positive
  have towards := Int.tmod_eq_emod (a := a.toInt) (b := b.toInt)
  have unsigned : ¬ b < 0 := by
    rw [Int64.lt_iff_toInt_lt]
    exact not_lt.2 positive.le
  -- a negative remainder lies one divisor below the one that is wanted
  by_cases negative : a % b < 0
  · rw [if_pos negative, if_neg unsigned]
    rw [Int64.lt_iff_toInt_lt, Int64.toInt_mod, Int64.toInt_zero] at negative
    rw [Int64.toInt_add, Int64.toInt_mod]
    split at towards
    · omega
    · rw [Int.bmod_eq_of_le (by omega) (by omega)]
      omega
  · rw [if_neg negative]
    rw [Int64.lt_iff_toInt_lt, Int64.toInt_mod, Int64.toInt_zero] at negative
    rw [Int64.toInt_mod]
    split at towards
    · omega
    · omega

theorem remainderUnsigned?_eq {a b : UInt32} (positive : 0 < b.toNat) :
    ∃ r, remainderUnsigned? a b = some r ∧ r.toNat = a.toNat % b.toNat := by
  have proper : b ≠ 0 := by
    rintro rfl
    exact absurd positive (by decide)
  exact ⟨a % b, if_neg proper, UInt32.toNat_mod ..⟩

/-- The magnitude of a word fits an unsigned one, even that of the least. -/
theorem toNat_magnitude (h : Int32) : (magnitude h).toNat = h.toInt.natAbs := by
  have code : h.toInt = if 2 * h.toUInt32.toNat < 2 ^ 32 then (h.toUInt32.toNat : Int)
      else h.toUInt32.toNat - (2 ^ 32 : Nat) := BitVec.toInt_eq_toNat_cond h.toBitVec
  have small := h.toUInt32.toNat_lt
  rw [magnitude]
  by_cases negative : h < 0
  · rw [if_pos negative, UInt32.toNat_neg]
    rw [Int32.lt_iff_toInt_lt, Int32.toInt_zero] at negative
    split at code
    · omega
    · rw [Nat.mod_eq_of_lt (by simp only [UInt32.size]; omega)]
      simp only [UInt32.size]
      omega
  · rw [if_neg negative]
    rw [Int32.lt_iff_toInt_lt, Int32.toInt_zero] at negative
    split at code
    · omega
    · omega

/-- A word without its sign bit is not negative. -/
theorem toInt_and_nonneg (h : Int32) : 0 ≤ (h &&& 0x7fffffff).toInt := by
  have mask : (0x7fffffff : Int32).toBitVec.msb = false := by decide
  have unsigned : (h &&& 0x7fffffff).toBitVec.msb = false := by
    rw [Int32.toBitVec_and, BitVec.msb_and, mask, Bool.and_false]
  rw [← Int32.toInt_toBitVec, BitVec.toInt_eq_toNat_of_msb unsigned]
  exact Int.natCast_nonneg _

end SegmentCatalog.Word
