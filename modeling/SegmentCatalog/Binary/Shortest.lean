import SegmentCatalog.Binary.Format
import SegmentCatalog.Decimal.Layout
import SegmentCatalog.Decimal.Roundest

/-! # Writing floating point numbers

A finite number is written with the fewest digits that read back to it; of those the nearest
to it.  The numbers that read back to pattern `p` are those between the middles to its two
neighbours, the middles included iff `p` is even.

Everything is counted in `10 ^ -(scale + 1)`, of which the value and both middles are whole
multiples: they are multiples of `2 ^ -(scale + 1)`.

* `Format.shortest` gives the digits and their power of ten;
* `Binary.display` lays them out in full, without exponent.
-/

namespace SegmentCatalog.Binary

open Decimal (Interval Tie)

namespace Format

/-- What reads back to the positive pattern `p`, in multiples of `10 ^ -(scale + 1)`. -/
def readsBack (F : Format) (p : Nat) : Interval where
  lo := F.halfway (p - 1) * Nat.pow 5 (F.scale + 1)
  hi := F.halfway p * Nat.pow 5 (F.scale + 1)
  closed := p % 2 == 0

/-- Digits and power of ten of the shortest decimal that reads back to the positive pattern
    `p`. -/
def shortest (F : Format) (tie : Tie) (p : Nat) : List Char × Int :=
  let (n, k) := (F.readsBack p).roundest tie (2 * F.units p * Nat.pow 5 (F.scale + 1))
  (Decimal.ofNat n, (k : Int) - (F.scale + 1))

end Format

variable {F : Format}

/-- A number in full: no exponent, no point behind a whole number. -/
def displayChars (x : Binary F) : List Char :=
  if x.isNaN then ['N', 'a', 'N']
  else
    let sign := if x.negative then ['-'] else []
    if x.isInfinite then sign ++ ['i', 'n', 'f']
    -- the search below needs a positive value
    else if x.magnitude.toNat = 0 then sign ++ ['0']
    else
      let (digits, power) := F.shortest .up x.magnitude.toNat
      sign ++ Decimal.positional digits power []

def display (x : Binary F) : String := .ofList x.displayChars

end SegmentCatalog.Binary
