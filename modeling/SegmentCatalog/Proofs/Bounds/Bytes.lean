import Mathlib.Algebra.Group.Nat.Even
import SegmentCatalog.Proofs.Text.Grammar
import SegmentCatalog.Proofs.Text.Letters
import SegmentCatalog.Scalar

/-! # Bytes as bounds

The text of bytes has two hexadecimal digits for each, in small letters.  A text is read as bytes
exactly if it is their text up to the case of its letters (`Text.unhex?_eq_some_iff`): so the small
form of a text that is read is the text of the bytes it is read as, two texts are read as the same
bytes exactly if they differ in case alone, and the texts that are read are those made of pairs of
digits (`Text.exists_unhex?_iff`).

White space around the digits is dropped first.  `Scalar.parse_hexadecimal` puts this together.
-/

namespace SegmentCatalog

namespace Text

/-- Hexadecimal digits, of either case, in pairs. -/
def DigitPairs (cs : List Char) : Prop := Even cs.length ∧ ∀ c ∈ cs, ∃ n, HexDigit c n

variable {c : Char} {n : Nat} {cs ds : List Char} {b : List UInt8}

/-! ## Digits -/

/-- A digit is told from its small form. -/
theorem hexDigit_iff : HexDigit c n ↔ n < 16 ∧ c.toLower = Nat.digitChar n := by
  constructor
  · intro ⟨small, same⟩
    have each : ∀ n < 16, (Nat.digitChar n).toLower = Nat.digitChar n ∧
        (Nat.digitChar n).toUpper.toLower = Nat.digitChar n := by
      decide
    refine ⟨small, ?_⟩
    cases same with
    | inl plain => rw [plain, (each n small).1]
    | inr capital => rw [capital, (each n small).2]
  · intro ⟨small, same⟩
    -- only characters of ASCII have their small form among the digits
    have below : ∀ n < 16, (Nat.digitChar n).toNat < 128 := by decide
    have code : c.toNat < 128 := by
      have bound := below n small
      rw [← same, toNat_toLower] at bound
      split at bound <;> omega
    have each : ∀ code < 128, ∀ n < 16, (Char.ofNat code).toLower = Nat.digitChar n →
        HexDigit (Char.ofNat code) n := by
      unfold HexDigit
      decide +kernel
    have found := each c.toNat code n small
    rw [Char.ofNat_toNat] at found
    exact found same

@[simp] theorem hexDigit?_toLower (c : Char) : hexDigit? c.toLower = hexDigit? c := by
  apply Option.ext
  intro n
  rw [hexDigit?_eq_some_iff, hexDigit?_eq_some_iff, hexDigit_iff, hexDigit_iff, toLower_toLower]

/-! ## Bytes -/

theorem hexByte_ofNat {high low : Nat} (highSmall : high < 16) (lowSmall : low < 16) :
    hexByte (.ofNat (16 * high + low)) = [Nat.digitChar high, Nat.digitChar low] := by
  have whole : (UInt8.ofNat (16 * high + low)).toNat = 16 * high + low := by
    rw [UInt8.toNat_ofNat']
    omega
  have first : (16 * high + low) / 16 = high := by omega
  have second : (16 * high + low) % 16 = low := by omega
  rw [hexByte, whole, first, second]

theorem unhex?_lower (cs : List Char) : unhex? (lower cs) = unhex? cs := by
  induction cs using unhex?.induct with
  | case1 => rfl
  | case2 c => rfl
  | case3 high low rest ih =>
    show unhex? (high.toLower :: low.toLower :: lower rest) = _
    simp only [unhex?, hexDigit?_toLower, ih]

theorem lower_of_unhex? (read : unhex? cs = some b) : lower cs = hex b := by
  induction cs using unhex?.induct generalizing b with
  | case1 =>
    cases read
    rfl
  | case2 c => cases read
  | case3 high low rest ih =>
    simp only [unhex?, Option.bind_eq_bind, Option.bind_eq_some_iff, Option.some.injEq] at read
    obtain ⟨h, foundHigh, l, foundLow, later, readRest, same⟩ := read
    obtain ⟨highSmall, highSame⟩ := hexDigit_iff.1 (hexDigit?_eq_some_iff.1 foundHigh)
    obtain ⟨lowSmall, lowSame⟩ := hexDigit_iff.1 (hexDigit?_eq_some_iff.1 foundLow)
    calc lower (high :: low :: rest)
      _ = [high.toLower, low.toLower] ++ lower rest := rfl
      _ = hexByte (.ofNat (16 * h + l)) ++ hex later := by
        rw [highSame, lowSame, ih readRest, hexByte_ofNat highSmall lowSmall]
      _ = hex b := by rw [← same]; rfl

/-- A text is read as bytes if it is their text, up to the case of its letters. -/
theorem unhex?_eq_some_iff : unhex? cs = some b ↔ lower cs = hex b := by
  refine ⟨lower_of_unhex?, fun same => ?_⟩
  rw [← unhex?_lower, same, unhex?_hex]

theorem hex_injective : Function.Injective hex := by
  intro b b' same
  have read := unhex?_hex b
  rw [same, unhex?_hex] at read
  exact (Option.some.inj read).symm

theorem exists_unhex?_iff : (∃ b, unhex? cs = some b) ↔ DigitPairs cs := by
  induction cs using unhex?.induct with
  | case1 => simp [unhex?, DigitPairs]
  | case2 c => simp [unhex?, DigitPairs]
  | case3 high low rest ih =>
    have pairs : DigitPairs (high :: low :: rest) ↔
        (∃ n, HexDigit high n) ∧ (∃ n, HexDigit low n) ∧ DigitPairs rest := by
      simp [DigitPairs, Nat.even_add_one]
      tauto
    rw [pairs, ← ih]
    simp only [unhex?, Option.bind_eq_bind, Option.bind_eq_some_iff, hexDigit?_eq_some_iff,
      Option.some.injEq]
    constructor
    · rintro ⟨b, h, foundHigh, l, foundLow, later, readRest, same⟩
      exact ⟨⟨h, foundHigh⟩, ⟨l, foundLow⟩, later, readRest⟩
    · rintro ⟨⟨h, foundHigh⟩, ⟨l, foundLow⟩, later, readRest⟩
      exact ⟨_, h, foundHigh, l, foundLow, later, readRest, rfl⟩

end Text

open Text (DigitPairs SameLetters lower trim)

namespace Scalar

variable {column property text : String}

theorem parse_bytes_eq : parse .bytes column property text =
    match Text.unhex? (trim text.toList) with
    | some b => .ok (bytes b)
    | none => .error (.malformedHex (columnKey column property) text) := by
  rw [parse]
  cases Text.unhex? (trim text.toList) with
  | none => rfl
  | some b => rfl

theorem parse_bytes_eq_ok_iff {x : Scalar} : parse .bytes column property text = .ok x ↔
    ∃ b, lower (trim text.toList) = Text.hex b ∧ x = bytes b := by
  rw [parse_bytes_eq]
  constructor
  · intro read
    split at read
    · rename_i b found
      cases read
      exact ⟨b, Text.unhex?_eq_some_iff.1 found, rfl⟩
    · cases read
  · intro ⟨b, same, value⟩
    rw [Text.unhex?_eq_some_iff.2 same, value]

theorem parse_bytes_eq_error_iff {e : DecodeError} :
    parse .bytes column property text = .error e ↔
      ¬ DigitPairs (trim text.toList) ∧ e = .malformedHex (columnKey column property) text := by
  rw [parse_bytes_eq, ← Text.exists_unhex?_iff]
  cases Text.unhex? (trim text.toList) with
  | none => simp [eq_comm]
  | some b => simp

/-- Bounds that are bytes are read from pairs of hexadecimal digits and from nothing else; they are
    written in small letters, and letter case is all that is lost of the digits. -/
theorem parse_hexadecimal (column property : String) :
    (∀ text,
      ((∃ x, parse .bytes column property text = .ok x) ↔ DigitPairs (trim text.toList)) ∧
      ∀ e, parse .bytes column property text = .error e ↔
        ¬ DigitPairs (trim text.toList) ∧ e = .malformedHex (columnKey column property) text) ∧
    (∀ b, parse .bytes column property (bytes b).display = .ok (bytes b)) ∧
    (∀ text x, parse .bytes column property text = .ok x →
      x.dataType = .bytes ∧ x.display = .ofList (lower (trim text.toList))) ∧
    ∀ text text' x y, parse .bytes column property text = .ok x →
      parse .bytes column property text' = .ok y →
        ((x == y) = true ↔ SameLetters (trim text.toList) (trim text'.toList)) := by
  refine ⟨fun text => ⟨?_, fun e => parse_bytes_eq_error_iff⟩, ?_, ?_, ?_⟩
  · rw [← Text.exists_unhex?_iff]
    simp [parse_bytes_eq_ok_iff, Text.unhex?_eq_some_iff]
  · intro b
    have digits : (bytes b).display.toList = Text.hex b := String.toList_ofList
    rw [parse_bytes_eq, digits, Text.trim_hex, Text.unhex?_hex]
  · intro text x read
    obtain ⟨b, same, rfl⟩ := parse_bytes_eq_ok_iff.1 read
    exact ⟨rfl, by rw [same]; rfl⟩
  · intro text text' x y read read'
    obtain ⟨b, same, rfl⟩ := parse_bytes_eq_ok_iff.1 read
    obtain ⟨b', same', rfl⟩ := parse_bytes_eq_ok_iff.1 read'
    have equal : (bytes b == bytes b') = (b == b') := rfl
    rw [equal, beq_iff_eq, ← Text.lower_eq_lower_iff, same, same', Text.hex_injective.eq_iff]

/-- Two texts of the same two bytes. -/
theorem parse_hexadecimal_mixed :
    parse .bytes "c" "minValue" " 0A1b" = .ok (bytes [0x0a, 0x1b]) ∧
    parse .bytes "c" "minValue" "0a1B\t" = .ok (bytes [0x0a, 0x1b]) ∧
    (bytes [0x0a, 0x1b]).display = "0a1b" ∧
    SameLetters (trim " 0A1b".toList) (trim "0a1B\t".toList) := by
  obtain ⟨_, _, written, equal⟩ := parse_hexadecimal "c" "minValue"
  have first : parse .bytes "c" "minValue" " 0A1b" = .ok (bytes [0x0a, 0x1b]) :=
    parse_bytes_eq_ok_iff.2 ⟨_, by decide, rfl⟩
  have second : parse .bytes "c" "minValue" "0a1B\t" = .ok (bytes [0x0a, 0x1b]) :=
    parse_bytes_eq_ok_iff.2 ⟨_, by decide, rfl⟩
  refine ⟨first, second, ?_, (equal _ _ _ _ first second).1 (by decide)⟩
  exact (written _ _ first).2.trans (by decide +kernel)

end Scalar

end SegmentCatalog
