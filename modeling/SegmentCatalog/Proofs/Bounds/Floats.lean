import SegmentCatalog.Proofs.Binary.FewestDigits
import SegmentCatalog.Proofs.Values

/-! # Floating point numbers as bounds

A number of 32 or of 64 bits is written as the shortest of the decimals that are read as it, each
digit in its place (`Binary.displayChars_shortest`), and a text that is a decimal is read as what
that decimal rounds to (`Binary.ofText?_roundsTo`).  So every number is read back from its text, if
only as an equal one where it is no number: `Scalar.parse_floating`.
-/

namespace SegmentCatalog

open Decimal (Numeral)

namespace Binary

variable {F : Format}

/-- The number with the given bits: its sign, its exponent field and its fraction field. -/
def ofBits (bits : BitVec (F.magnitudeBits + 1)) : Binary F where
  negative := bits.msb
  magnitude := bits.setWidth F.magnitudeBits

example : (ofBits 0xbfc00000#32 : Binary .single) = ofMagnitude true 0x3fc00000 := by decide

variable (wide : 2 ≤ F.exponentBits) (fine : 0 < F.fractionBits)
include wide fine

theorem displayChars_shortest {x : Binary F} (positive : 0 < x.magnitude.toNat)
    (finite : x.magnitude.toNat < F.infinity) :
    ∃ n power, x.displayChars = (if x.negative then ['-'] else []) ++
        Decimal.positional (Decimal.ofNat n) power [] ∧
      F.Shortest x.magnitude.toNat n power := by
  obtain ⟨n, power, digits, shortest⟩ := Format.shortest_eq wide fine positive finite .up
  have defined : ¬ x.isNaN = true := by simp [isNaN, finite.le]
  have bounded : ¬ x.isInfinite = true := by simp [isInfinite, finite.ne]
  refine ⟨n, power, ?_, shortest⟩
  rw [displayChars, if_neg defined]
  dsimp only
  rw [if_neg bounded, if_neg positive.ne', digits]

theorem ofText?_roundsTo {cs : List Char} {negative : Bool} {digits : Nat} {exponent : ℤ}
    (read : Numeral.signed? cs = some (negative, .finite digits exponent)) :
    ∃ y : Binary F, ofText? F cs = some y ∧ y.negative = negative ∧
      F.RoundsTo (digits * 10 ^ exponent) y.magnitude.toNat := by
  have rounds := (Format.nearest_eq_iff wide fine).1 (rfl : F.nearest digits exponent = _)
  have bounded := ((Format.roundsTo_iff wide fine).1 rounds).1
  have fits : F.nearest digits exponent < 2 ^ F.magnitudeBits := bounded.trans_lt F.infinity_lt
  refine ⟨_, ofText?_of_signed? read, rfl, ?_⟩
  rw [F.pattern_finite, ofMagnitude, BitVec.toNat_ofNat, Nat.mod_eq_of_lt fits]
  exact rounds

end Binary

namespace Scalar

/-- Bounds that are floating point numbers are read back from their texts; these are the shortest
    ones that are, and the reading of decimals is correctly rounded. -/
theorem parse_floating (column property : String) :
    (∀ bits : BitVec 32, ∃ w,
      parse .float column property (float (.ofBits bits)).display = .ok w ∧
      (w == float (.ofBits bits)) = true) ∧
    (∀ bits : BitVec 64, ∃ w,
      parse .double column property (double (.ofBits bits)).display = .ok w ∧
      (w == double (.ofBits bits)) = true) ∧
    ∀ F ∈ [Binary.Format.single, Binary.Format.double],
      (∀ x : Binary F, 0 < x.magnitude.toNat → x.magnitude.toNat < F.infinity →
        ∃ n power, x.displayChars = (if x.negative then ['-'] else []) ++
            Decimal.positional (Decimal.ofNat n) power [] ∧
          F.Shortest x.magnitude.toNat n power) ∧
      ∀ cs negative digits exponent,
        Numeral.signed? cs = some (negative, .finite digits exponent) →
          ∃ y : Binary F, Binary.ofText? F cs = some y ∧ y.negative = negative ∧
            F.RoundsTo (digits * 10 ^ exponent) y.magnitude.toNat := by
  have formats : ∀ F ∈ [Binary.Format.single, Binary.Format.double],
      2 ≤ F.exponentBits ∧ 0 < F.fractionBits := by
    decide
  refine ⟨fun bits => parse_display column property (float (.ofBits bits)),
    fun bits => parse_display column property (double (.ofBits bits)), ?_⟩
  intro F member
  obtain ⟨wide, fine⟩ := formats F member
  exact ⟨fun x => Binary.displayChars_shortest wide fine,
    fun _ _ _ _ => Binary.ofText?_roundsTo wide fine⟩

/-- The least positive number of 32 bits; and a number in the middle between two neighbours, which
    rounds to the even one, `2 ^ 24`. -/
theorem parse_floating_least :
    (∃ w, parse .float "c" "minValue" (float (.ofBits 1#32)).display = .ok w ∧
      (w == float (.ofBits 1#32)) = true) ∧
    (∃ n power, (Binary.ofBits 1#32 : Binary .single).displayChars =
        Decimal.positional (Decimal.ofNat n) power [] ∧
      Binary.Format.single.Shortest 1 n power) ∧
    Binary.Format.single.RoundsTo 16777217 0x4b800000 := by
  obtain ⟨single, _, both⟩ := parse_floating "c" "minValue"
  obtain ⟨written, read⟩ := both .single (by decide)
  have shortest := written (.ofBits 1#32) (by decide) (by decide)
  have numeral : Numeral.signed? "16777217".toList = some (false, .finite 16777217 0) := by rfl
  obtain ⟨y, found, _, rounds⟩ := read _ _ _ _ numeral
  have even : Binary.ofText? .single "16777217".toList =
      some (Binary.ofMagnitude false 0x4b800000) := by
    decide +kernel
  rw [even] at found
  cases found
  rw [zpow_zero, mul_one] at rounds
  exact ⟨single 1#32, shortest, rounds⟩

end Scalar

end SegmentCatalog
