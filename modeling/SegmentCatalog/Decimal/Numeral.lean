import SegmentCatalog.Decimal.Integer
import SegmentCatalog.Text.Case

/-! # Numerals

The written form of a number that need not be whole: digits with a point somewhere among
them and perhaps an exponent, or one of the words for infinity and for "not a number".

* `Numeral` is what such a text denotes, sign apart;
* `Numeral.ofText?` reads one, `Numeral.signed?` one behind an optional sign.

There has to be a digit before the point or after it, and a digit after the e.
-/

namespace SegmentCatalog.Decimal

inductive Numeral where
  | nan
  | infinity
  /-- The number `digits * 10 ^ exponent`. -/
  | finite (digits : Nat) (exponent : Int)

namespace Numeral

/-- The value of the digits of an exponent.  Once it has reached 65536 the remaining digits
    are read and dropped. -/
def exponentValue (digits : List Char) : Nat :=
  digits.foldl (fun n c => if n < 65536 then 10 * n + (c.toNat - '0'.toNat) else n) 0

/-- Reads the exponent at the end of a numeral, none being an exponent of zero. -/
def exponent? : List Char → Option Int
  | [] => some 0
  | e :: rest =>
    if e = 'e' ∨ e = 'E' then
      match rest with
      | '-' :: digits => (unsigned? digits).map fun n => -(n : Int)
      | '+' :: digits => (unsigned? digits).map Int.ofNat
      | digits => (unsigned? digits).map Int.ofNat
    else none
where
  unsigned? (digits : List Char) : Option Nat :=
    if digits ≠ [] ∧ digits.all Char.isDigit then some (exponentValue digits) else none

/-- Splits digits, with a point and further digits or not, off the front of a text. -/
def splitDigits (cs : List Char) : List Char × List Char × List Char :=
  let whole := cs.takeWhile Char.isDigit
  match cs.dropWhile Char.isDigit with
  | '.' :: rest => (whole, rest.takeWhile Char.isDigit, rest.dropWhile Char.isDigit)
  | rest => (whole, [], rest)

/-- Reads a numeral made of digits. -/
def ofDigits? (cs : List Char) : Option Numeral :=
  let (whole, fraction, rest) := splitDigits cs
  if whole ++ fraction = [] then none
  else (exponent? rest).map fun e =>
    finite (Nat.ofDigitChars 10 (whole ++ fraction) 0) (e - fraction.length)

/-- Reads a numeral without sign; the words may be in any case. -/
def ofText? (cs : List Char) : Option Numeral :=
  let word := Text.lower cs
  if word = ['n', 'a', 'n'] then some nan
  else if word = ['i', 'n', 'f'] ∨ word = ['i', 'n', 'f', 'i', 'n', 'i', 't', 'y'] then
    some infinity
  else ofDigits? cs

/-- Reads a numeral behind an optional sign; the first part is whether it is negative. -/
def signed? : List Char → Option (Bool × Numeral)
  | '-' :: cs => (ofText? cs).map (true, ·)
  | '+' :: cs => (ofText? cs).map (false, ·)
  | cs => (ofText? cs).map (false, ·)

end Numeral

end SegmentCatalog.Decimal
