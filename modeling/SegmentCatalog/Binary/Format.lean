/-! # Binary floating point numbers

A `Binary` number is a sign and a magnitude pattern: the exponent field above the fraction
field, read as one natural number.  Neighbouring magnitudes are neighbouring patterns, so
the order of patterns is the order of values, and "the next number" is "plus one".

* `Format` gives the widths of the two fields; `Format.single` and `Format.double` are the
  two in use;
* `Format.units p` is the value of pattern `p`, counted in the least positive number
  `2 ^ -scale`; it goes on past the largest finite number without a break, and the pattern
  of infinity stands for the next power of two there;
* `Binary.compare?` orders numbers by value, `none` if one is not a number; the two zeros
  are alike;
* `==` tells numbers apart by their bits, except that all that are not numbers are alike.
-/

namespace SegmentCatalog

namespace Binary

structure Format where
  exponentBits : Nat
  fractionBits : Nat
  deriving DecidableEq

namespace Format

/-- 32 bits. -/
def single : Format := ⟨8, 23⟩

/-- 64 bits. -/
def double : Format := ⟨11, 52⟩

/-- The bits of a number without its sign. -/
def magnitudeBits (F : Format) : Nat := F.exponentBits + F.fractionBits

/-- The pattern of infinity; larger ones are no numbers. -/
def infinity (F : Format) : Nat := ((1 <<< F.exponentBits) - 1) <<< F.fractionBits

/-- The least positive number is `2 ^ -scale`. -/
def scale (F : Format) : Nat := (1 <<< (F.exponentBits - 1)) - 2 + F.fractionBits

/-- The value of the magnitude pattern `p`, in multiples of the least positive number. -/
def units (F : Format) (p : Nat) : Nat :=
  let exponent := p >>> F.fractionBits
  let fraction := p % (1 <<< F.fractionBits)
  if exponent = 0 then fraction else ((1 <<< F.fractionBits) + fraction) <<< (exponent - 1)

/-- Twice the value halfway between the patterns `p` and `p + 1`. -/
def halfway (F : Format) (p : Nat) : Nat := F.units p + F.units (p + 1)

@[simp] theorem units_zero (F : Format) : F.units 0 = 0 := by simp [units]

end Format

end Binary

/-- A floating point number as its sign and magnitude pattern. -/
structure Binary (F : Binary.Format) where
  negative : Bool
  magnitude : BitVec F.magnitudeBits
  deriving DecidableEq

namespace Binary

variable {F : Format}

/-- The number with the given sign and pattern; bits above the width are dropped. -/
def ofMagnitude (negative : Bool) (p : Nat) : Binary F :=
  ⟨negative, .ofNat _ p⟩

def isNaN (x : Binary F) : Bool := F.infinity < x.magnitude.toNat

def isInfinite (x : Binary F) : Bool := x.magnitude.toNat == F.infinity

/-- The place of a number in the order of values: its pattern, with its sign. -/
def rank (x : Binary F) : Int :=
  if x.negative then -(x.magnitude.toNat : Int) else x.magnitude.toNat

def compare? (x y : Binary F) : Option Ordering :=
  if x.isNaN || y.isNaN then none else some (compare x.rank y.rank)

instance : BEq (Binary F) where
  beq x y := x = y || (x.isNaN && y.isNaN)

theorem beq_iff {x y : Binary F} : (x == y) = true ↔ x = y ∨ (x.isNaN ∧ y.isNaN) := by
  simp [BEq.beq]

end Binary

end SegmentCatalog
