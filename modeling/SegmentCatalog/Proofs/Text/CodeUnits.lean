import Mathlib.Algebra.Group.Nat.Defs
import Mathlib.Tactic.SplitIfs
import SegmentCatalog.Text.Units

/-! # The units of a text

What `utf8` and `utf16` give, said without them.  The bytes of a text are the bytes that it is
stored as (`storedBytes_eq_utf8`).  Those of a character hold its number, the higher bits in front
(`utf8EncodeChar_eq`).  Its units of 16 bits are those that hold its characters, one by one or in
pairs (`Utf16`): a text has such a row of units (`utf16_encodes`), and no other (`Utf16.eq_utf16`).
-/

namespace SegmentCatalog.Text

/-! ## Bytes -/

/-- The bytes that a text is stored as. -/
def storedBytes (text : String) : List UInt8 := text.toByteArray.data.toList

theorem storedBytes_eq_utf8 (text : String) : storedBytes text = utf8 text.toList := by
  have stored : text.toByteArray = (utf8 text.toList).toByteArray := by
    rw [← String.ofList_toList (s := text), String.toByteArray_ofList, String.toList_ofList]
    rfl
  rw [storedBytes, stored, List.toList_data_toByteArray]

theorem storedBytes_inj {text text' : String} :
    storedBytes text = storedBytes text' ↔ text = text' := by
  rw [storedBytes, storedBytes, Array.toList_inj, ← ByteArray.ext_iff, String.toByteArray_inj]

/-! ## The bytes of a character -/

theorem toNat_lt (c : Char) : c.toNat < 0x110000 := by
  rcases c.valid with low | ⟨_, below⟩
  · exact Nat.lt_trans low (by decide)
  · exact below

/-- `n` in `k + 1` bytes: six bits of it in each byte but the first, and the others above `lead` in
    the first. -/
def spreadBytes (lead : Nat) : Nat → Nat → List UInt8
  | 0, n => [.ofNat (n + lead)]
  | k + 1, n => spreadBytes lead k (n / 64) ++ [.ofNat (n % 64 + 128)]

theorem exists_spreadBytes_eq_cons (lead k n : Nat) :
    ∃ rest, spreadBytes lead k n = .ofNat (n / 64 ^ k + lead) :: rest := by
  induction k generalizing n with
  | zero => exact ⟨[], by simp [spreadBytes]⟩
  | succ k ih =>
    obtain ⟨rest, shape⟩ := ih (n / 64)
    refine ⟨rest ++ [.ofNat (n % 64 + 128)], ?_⟩
    rw [spreadBytes, shape, Nat.div_div_eq_div_mul, Nat.pow_succ', List.cons_append]

/-- How many bytes of a character follow the first. -/
def bytesBehind (n : Nat) : Nat :=
  if n ≤ 0x7f then 0 else if n ≤ 0x7ff then 1 else if n ≤ 0xffff then 2 else 3

/-- The bits that tell how many bytes follow. -/
def leadBits : Nat → Nat
  | 0 => 0
  | 1 => 0xc0
  | 2 => 0xe0
  | _ => 0xf0

theorem utf8EncodeChar_eq (c : Char) : String.utf8EncodeChar c =
    spreadBytes (leadBits (bytesBehind c.toNat)) (bytesBehind c.toNat) c.toNat := by
  have bound := toNat_lt c
  simp only [String.utf8EncodeChar, Char.toNat] at bound ⊢
  generalize c.val.toNat = n at bound ⊢
  unfold bytesBehind
  split_ifs
  · simp [spreadBytes, leadBits]
  · have top : n / 64 % 32 = n / 64 := Nat.mod_eq_of_lt (by omega)
    simp [spreadBytes, leadBits, top]
  · have top : n / 4096 % 16 = n / 4096 := Nat.mod_eq_of_lt (by omega)
    simp [spreadBytes, leadBits, Nat.div_div_eq_div_mul, top]
  · have top : n / 262144 % 8 = n / 262144 := Nat.mod_eq_of_lt (by omega)
    simp [spreadBytes, leadBits, Nat.div_div_eq_div_mul, top]

/-- The number in the first byte. -/
def leadByte (n : Nat) : Nat := n / 64 ^ bytesBehind n + leadBits (bytesBehind n)

theorem leadByte_lt {m n : Nat} (lower : m < n) (other : bytesBehind m ≠ bytesBehind n) :
    leadByte m < leadByte n := by
  unfold leadByte bytesBehind at *
  split_ifs at other ⊢ <;> simp [leadBits] at other ⊢ <;> omega

theorem leadByte_lt_size {n : Nat} (bound : n < 0x110000) : leadByte n < 256 := by
  unfold leadByte bytesBehind
  split_ifs <;> simp [leadBits] <;> omega

/-! ## Units of 16 bits -/

/-- A character up to U+FFFF is held by one unit.  One above is held by a high and a low
    surrogate, with ten bits each of what it exceeds U+FFFF by. -/
inductive Utf16 : List Char → List UInt16 → Prop
  | nil : Utf16 [] []
  | single {c : Char} {cs : List Char} {unit : UInt16} {units : List UInt16} :
      c.toNat = unit.toNat → Utf16 cs units → Utf16 (c :: cs) (unit :: units)
  | pair {c : Char} {cs : List Char} {high low : UInt16} {units : List UInt16} :
      0xd800 ≤ high.toNat → high.toNat < 0xdc00 → 0xdc00 ≤ low.toNat → low.toNat < 0xe000 →
      c.toNat = 0x10000 + (high.toNat - 0xd800) * 0x400 + (low.toNat - 0xdc00) →
      Utf16 cs units → Utf16 (c :: cs) (high :: low :: units)

variable {c : Char} {cs : List Char} {units : List UInt16}

theorem utf16Char_single {unit : UInt16} (same : c.toNat = unit.toNat) : utf16Char c = [unit] := by
  rw [utf16Char, if_pos (same ▸ unit.toNat_lt), same, UInt16.ofNat_toNat]

theorem utf16Char_pair {high low : UInt16} (floor : 0xd800 ≤ high.toNat)
    (lower : 0xdc00 ≤ low.toNat) (upper : low.toNat < 0xe000)
    (same : c.toNat = 0x10000 + (high.toNat - 0xd800) * 0x400 + (low.toNat - 0xdc00)) :
    utf16Char c = [high, low] := by
  have first : 0xd800 + (c.toNat - 0x10000) / 0x400 = high.toNat := by omega
  have second : 0xdc00 + (c.toNat - 0x10000) % 0x400 = low.toNat := by omega
  rw [utf16Char, if_neg (by omega), first, second, UInt16.ofNat_toNat, UInt16.ofNat_toNat]

theorem Utf16.eq_utf16 (encoded : Utf16 cs units) : units = utf16 cs := by
  induction encoded with
  | nil => rfl
  | single same _ ih => rw [utf16_cons, utf16Char_single same, ih, List.singleton_append]
  | pair floor _ lower upper same _ ih =>
    rw [utf16_cons, utf16Char_pair floor lower upper same, ih]
    rfl

theorem utf16_encodes (cs : List Char) : Utf16 cs (utf16 cs) := by
  induction cs with
  | nil => exact .nil
  | cons c cs ih =>
    rw [utf16_cons, utf16Char]
    split
    · rename_i small
      exact .single (UInt16.toNat_ofNat_of_lt' small).symm ih
    · rename_i large
      have bound := toNat_lt c
      have high : 0xd800 + (c.toNat - 0x10000) / 0x400 < UInt16.size := by
        simp only [UInt16.size]
        omega
      have low : 0xdc00 + (c.toNat - 0x10000) % 0x400 < UInt16.size := by
        simp only [UInt16.size]
        omega
      refine .pair ?_ ?_ ?_ ?_ ?_ ih
      all_goals
        simp only [UInt16.toNat_ofNat_of_lt' high, UInt16.toNat_ofNat_of_lt' low]
        omega

end SegmentCatalog.Text
