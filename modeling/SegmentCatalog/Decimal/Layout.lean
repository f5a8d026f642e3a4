import SegmentCatalog.Decimal.Integer

/-! # Decimal notation

The digits of a number and the power of ten they are multiplied by, laid out as text.

* `positional` writes every digit in its place, with zeros where no digit is given;
* `scientific` writes one digit before the point and the exponent behind an e.
-/

namespace SegmentCatalog.Decimal

def zeros (n : Nat) : List Char := List.replicate n '0'

/-- The exponent of the leading digit of `digits * 10 ^ power`. -/
def leading (digits : List Char) (power : Int) : Int := power + digits.length - 1

/-- `digits * 10 ^ power` with each digit in its place.  A whole number is followed by
    `tail`. -/
def positional (digits : List Char) (power : Int) (tail : List Char) : List Char :=
  if 0 ≤ power then digits ++ zeros power.toNat ++ tail
  else
    let places := power.natAbs
    if places < digits.length then
      digits.take (digits.length - places) ++ '.' :: digits.drop (digits.length - places)
    else '0' :: '.' :: zeros (places - digits.length) ++ digits

/-- `digits * 10 ^ power` with the point behind the first digit; the sign of the exponent is
    always written. -/
def scientific (digits : List Char) (power : Int) : List Char :=
  let exponent := leading digits power
  let sign := if exponent < 0 then '-' else '+'
  let mantissa := match digits with
    | first :: second :: rest => first :: '.' :: second :: rest
    | digits => digits
  mantissa ++ 'e' :: sign :: ofNat exponent.natAbs

end SegmentCatalog.Decimal
