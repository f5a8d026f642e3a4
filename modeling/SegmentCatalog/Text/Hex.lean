import SegmentCatalog.Text.Escape

/-! # Bytes in hexadecimal

* `hex` writes bytes with two small digits each;
* `unhex?` reads pairs of digits of either case, and nothing else.

`unhex?_hex` is the round trip.
-/

namespace SegmentCatalog.Text

def hexByte (b : UInt8) : List Char :=
  [Nat.digitChar (b.toNat / 16), Nat.digitChar (b.toNat % 16)]

def hex (bytes : List UInt8) : List Char := bytes.flatMap hexByte

def unhex? : List Char → Option (List UInt8)
  | [] => some []
  | [_] => none
  | high :: low :: rest => do
    let h ← hexDigit? high
    let l ← hexDigit? low
    let bytes ← unhex? rest
    some (.ofNat (16 * h + l) :: bytes)

theorem hexDigit?_digitChar {n : Nat} (h : n < 16) : hexDigit? (Nat.digitChar n) = some n := by
  revert n
  decide

@[simp] theorem unhex?_hex (bytes : List UInt8) : unhex? (hex bytes) = some bytes := by
  induction bytes with
  | nil => rfl
  | cons b bytes ih =>
    have small := b.toNat_lt
    have high : b.toNat / 16 < 16 := by omega
    have low : b.toNat % 16 < 16 := by omega
    have whole : 16 * (b.toNat / 16) + b.toNat % 16 = b.toNat := by omega
    change unhex? (Nat.digitChar (b.toNat / 16) :: Nat.digitChar (b.toNat % 16) :: hex bytes) = _
    simp only [unhex?, hexDigit?_digitChar high, hexDigit?_digitChar low, ih, whole,
      Option.bind_eq_bind, Option.bind_some, UInt8.ofNat_toNat]

end SegmentCatalog.Text
