import SegmentCatalog.Binary.Shortest
import SegmentCatalog.Json

/-! # Floating point numbers in JSON

A finite number is written with the fewest digits that read back, in full with a fraction
when it is neither very large nor very small, else with an exponent.  JSON has no infinities,
and nothing for what is not a number: these become `null`.

`NumberLayout` holds what differs between the two formats: where the full notation starts
and where it ends.
-/

namespace SegmentCatalog.Binary

/-- The exponents of the leading digit, from `least` to below `limit`, of the numbers written
    in full. -/
structure NumberLayout where
  least : Int
  limit : Int

namespace NumberLayout

/-- 32 bits: in full from `10 ^ -6` to below `10 ^ 13`. -/
def single : NumberLayout := ⟨-6, 13⟩

/-- 64 bits: in full from `10 ^ -5` to below `10 ^ 16`. -/
def double : NumberLayout := ⟨-5, 16⟩

/-- The text of `digits * 10 ^ power`, a whole number in full having the fraction zero. -/
def layOut (layout : NumberLayout) (digits : List Char) (power : Int) : List Char :=
  let exponent := Decimal.leading digits power
  if layout.least ≤ exponent ∧ exponent < layout.limit then
    Decimal.positional digits power ['.', '0']
  else Decimal.scientific digits power

end NumberLayout

variable {F : Format}

def json (layout : NumberLayout) (x : Binary F) : Json :=
  if x.isNaN || x.isInfinite then .null
  else
    let sign := if x.negative then ['-'] else []
    if x.magnitude.toNat = 0 then .number (sign ++ ['0', '.', '0'])
    else
      let (digits, power) := F.shortest .even x.magnitude.toNat
      .number (sign ++ layout.layOut digits power)

end SegmentCatalog.Binary
