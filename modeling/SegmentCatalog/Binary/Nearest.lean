import SegmentCatalog.Binary.Format
import SegmentCatalog.Decimal.Numeral

/-! # Reading floating point numbers

A numeral is read as the nearest number of the format; halfway between two, the one with the
even pattern is taken, and from halfway past the largest finite number on it is infinite.

* `Format.reaches` compares a numeral with the border below a pattern, by multiplying out;
* `climb` finds the last pattern whose border is reached, one bit at a time from the top,
  which is right because the borders rise with the patterns;
* `Binary.ofText?` reads a text.
-/

namespace SegmentCatalog.Binary

open Decimal (Numeral)

namespace Format

/-- Whether `digits * 10 ^ exponent` rounds to pattern `p` or a higher one: it lies above the
    middle between `p - 1` and `p`, or in the middle and `p` is even. -/
def reaches (F : Format) (digits : Nat) (exponent : Int) (p : Nat) : Bool :=
  let value := (digits * Nat.pow 10 exponent.toNat) <<< (F.scale + 1)
  let border := F.halfway (p - 1) * Nat.pow 10 (-exponent).toNat
  if p % 2 = 0 then border ≤ value else border < value

/-- The largest number that `ok` holds of, among those that add to `n` some of the lowest
    `bits` powers of two; for an `ok` that holds of all numbers up to a point. -/
def climb (ok : Nat → Bool) : Nat → Nat → Nat
  | 0, n => n
  | bits + 1, n => climb ok bits (if ok (n + (1 <<< bits)) then n + (1 <<< bits) else n)

/-- The pattern of the number nearest to `digits * 10 ^ exponent`. -/
def nearest (F : Format) (digits : Nat) (exponent : Int) : Nat :=
  climb (fun p => p ≤ F.infinity && F.reaches digits exponent p) F.magnitudeBits 0

/-- The pattern that stands for "not a number" when it is read. -/
def quietNaN (F : Format) : Nat := F.infinity + (1 <<< (F.fractionBits - 1))

/-- The pattern that a numeral is read as. -/
def pattern (F : Format) : Numeral → Nat
  | .nan => F.quietNaN
  | .infinity => F.infinity
  | .finite digits exponent => F.nearest digits exponent

@[simp] theorem pattern_infinity (F : Format) : F.pattern .infinity = F.infinity := rfl

@[simp] theorem pattern_finite (F : Format) (digits : Nat) (exponent : Int) :
    F.pattern (.finite digits exponent) = F.nearest digits exponent := rfl

end Format

/-- Reads a number behind an optional sign. -/
def ofText? (F : Format) (cs : List Char) : Option (Binary F) :=
  (Numeral.signed? cs).map fun (negative, numeral) => ofMagnitude negative (F.pattern numeral)

end SegmentCatalog.Binary
