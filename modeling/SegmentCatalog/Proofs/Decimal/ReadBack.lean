import Mathlib.Algebra.Group.Nat.Defs
import Mathlib.Data.List.TakeWhile
import SegmentCatalog.Decimal.Layout
import SegmentCatalog.Decimal.Numeral
import SegmentCatalog.Proofs.Text.ReadBack

/-! # Decimal numbers that are read back

* `int32?_ofInt` and `int64?_ofInt`: the text of a word is read as that word;
* `Numeral.signed?_positional`: digits laid out in full, behind a sign or not, are read as the
  sign, the digits and their power of ten.
-/

namespace SegmentCatalog.Decimal

/-! ## Whole numbers -/

theorem mem_ofInt {n : Int} {c : Char} (member : c ∈ ofInt n) : c = '-' ∨ c.isDigit = true := by
  cases n with
  | ofNat n => exact .inr (isDigit_of_mem_ofNat member)
  | negSucc n =>
    rcases List.mem_cons.1 member with same | digit
    · exact .inl same
    · exact .inr (isDigit_of_mem_ofNat digit)

theorem ofInt_ne_nil (n : Int) : ofInt n ≠ [] := by
  cases n with
  | ofNat n => exact ofNat_ne_nil n
  | negSucc n => exact List.cons_ne_nil _ _

theorem not_blank_of_mem_ofInt {n : Int} {c : Char} (member : c ∈ ofInt n) :
    Text.isBlank c = false := by
  rcases mem_ofInt member with rfl | digit
  · decide
  · exact Text.not_blank_of_isDigit digit

@[simp] theorem toList_text (n : Int) : (text n).toList = ofInt n := String.toList_ofList

@[simp] theorem trim_ofInt (n : Int) : Text.trim (ofInt n) = ofInt n :=
  Text.trim_of_no_blank fun _ => not_blank_of_mem_ofInt

@[simp] theorem int32?_ofInt (n : Int32) : int32? (ofInt n.toInt) = some n := by
  rw [int32?, int?_ofInt, Option.bind_some, if_pos ⟨n.minValue_le_toInt, n.toInt_le⟩,
    Int32.ofInt_toInt]

@[simp] theorem int64?_ofInt (n : Int64) : int64? (ofInt n.toInt) = some n := by
  rw [int64?, int?_ofInt, Option.bind_some, if_pos ⟨n.minValue_le_toInt, n.toInt_le⟩,
    Int64.ofInt_toInt]

/-! ## Numbers in full -/

theorem isDigit_of_mem_zeros {k : Nat} {c : Char} (member : c ∈ zeros k) : c.isDigit = true := by
  rw [List.eq_of_mem_replicate member]
  decide

@[simp] theorem ofDigitChars_ofNat (n : Nat) : Nat.ofDigitChars 10 (ofNat n) 0 = n :=
  Nat.ofDigitChars_ten_toDigits

theorem mem_positional {n : Nat} {power : Int} {c : Char}
    (member : c ∈ positional (ofNat n) power []) : c = '.' ∨ c.isDigit = true := by
  have digit : ∀ k, c ∈ ofNat n ∨ c ∈ zeros k → c.isDigit = true := by
    rintro k (written | filled)
    · exact isDigit_of_mem_ofNat written
    · exact isDigit_of_mem_zeros filled
  rw [positional] at member
  dsimp only at member
  split at member
  · rw [List.append_nil, List.mem_append] at member
    exact .inr (digit _ member)
  · split at member
    · rcases List.mem_append.1 member with front | back
      · exact .inr (digit 0 (.inl (List.mem_of_mem_take front)))
      · rcases List.mem_cons.1 back with point | fraction
        · exact .inl point
        · exact .inr (digit 0 (.inl (List.mem_of_mem_drop fraction)))
    · rcases List.mem_cons.1 member with rfl | rest
      · exact .inr (by decide)
      · rcases List.mem_cons.1 rest with point | fraction
        · exact .inl point
        · exact .inr (digit _ (List.mem_append.1 fraction).symm)

namespace Numeral

theorem splitDigits_of_digits {cs : List Char} (digits : ∀ c ∈ cs, c.isDigit = true) :
    splitDigits cs = (cs, [], []) := by
  have all : cs.takeWhile Char.isDigit = cs := List.takeWhile_eq_self_iff.2 digits
  have none : cs.dropWhile Char.isDigit = [] := List.dropWhile_eq_nil_iff.2 digits
  simp [splitDigits, all, none]

theorem splitDigits_of_point {whole fraction : List Char}
    (digits : ∀ c ∈ whole, c.isDigit = true) (more : ∀ c ∈ fraction, c.isDigit = true) :
    splitDigits (whole ++ '.' :: fraction) = (whole, fraction, []) := by
  have front : (whole ++ '.' :: fraction).takeWhile Char.isDigit = whole := by
    rw [List.takeWhile_append_of_pos digits]
    simp
  have back : (whole ++ '.' :: fraction).dropWhile Char.isDigit = '.' :: fraction := by
    rw [List.dropWhile_append_of_pos digits]
    simp
  have all : fraction.takeWhile Char.isDigit = fraction := List.takeWhile_eq_self_iff.2 more
  have none : fraction.dropWhile Char.isDigit = [] := List.dropWhile_eq_nil_iff.2 more
  simp [splitDigits, front, back, all, none]

theorem ofDigits?_of_digits {cs : List Char} (digits : ∀ c ∈ cs, c.isDigit = true)
    (filled : cs ≠ []) : ofDigits? cs = some (finite (Nat.ofDigitChars 10 cs 0) 0) := by
  simp [ofDigits?, splitDigits_of_digits digits, filled, exponent?]

theorem ofDigits?_of_point {whole fraction : List Char}
    (digits : ∀ c ∈ whole, c.isDigit = true) (more : ∀ c ∈ fraction, c.isDigit = true)
    (filled : whole ≠ []) : ofDigits? (whole ++ '.' :: fraction) =
      some (finite (Nat.ofDigitChars 10 (whole ++ fraction) 0) (-(fraction.length : Int))) := by
  simp [ofDigits?, splitDigits_of_point digits more, filled, exponent?]

theorem ofDigits?_whole (n k : Nat) :
    ofDigits? (ofNat n ++ zeros k) = some (finite (n * 10 ^ k) 0) := by
  have digits : ∀ c ∈ ofNat n ++ zeros k, c.isDigit = true := by
    intro c member
    rcases List.mem_append.1 member with front | back
    · exact isDigit_of_mem_ofNat front
    · exact isDigit_of_mem_zeros back
  have value : Nat.ofDigitChars 10 (ofNat n ++ zeros k) 0 = n * 10 ^ k := by
    rw [Nat.ofDigitChars_append, ofDigitChars_ofNat, zeros, Nat.ofDigitChars_replicate_zero,
      Nat.mul_comm]
  rw [ofDigits?_of_digits digits (by simp [ofNat_ne_nil]), value]

/-- The point stands among the digits. -/
theorem ofDigits?_inside {n places : Nat} (inside : places < (ofNat n).length) :
    ofDigits? ((ofNat n).take ((ofNat n).length - places) ++
      '.' :: (ofNat n).drop ((ofNat n).length - places)) = some (finite n (-(places : Int))) := by
  have digits : ∀ c ∈ ofNat n, c.isDigit = true := fun _ => isDigit_of_mem_ofNat
  have front : (ofNat n).take ((ofNat n).length - places) ≠ [] := by
    rw [ne_eq, List.take_eq_nil_iff, not_or]
    exact ⟨by omega, ofNat_ne_nil n⟩
  have behind : (ofNat n).length - ((ofNat n).length - places) = places := by omega
  rw [ofDigits?_of_point (fun c member => digits c (List.mem_of_mem_take member))
    (fun c member => digits c (List.mem_of_mem_drop member)) front, List.take_append_drop,
    ofDigitChars_ofNat, List.length_drop, behind]

/-- The point stands in front of the digits, behind a zero. -/
theorem ofDigits?_below {n places : Nat} (below : (ofNat n).length ≤ places) :
    ofDigits? ('0' :: '.' :: (zeros (places - (ofNat n).length) ++ ofNat n)) =
      some (finite n (-(places : Int))) := by
  have digits : ∀ c ∈ zeros (places - (ofNat n).length) ++ ofNat n, c.isDigit = true := by
    intro c member
    rcases List.mem_append.1 member with front | back
    · exact isDigit_of_mem_zeros front
    · exact isDigit_of_mem_ofNat back
  have value : Nat.ofDigitChars 10
      (['0'] ++ (zeros (places - (ofNat n).length) ++ ofNat n)) 0 = n := by
    rw [Nat.ofDigitChars_append, Nat.ofDigitChars_append, zeros, Nat.ofDigitChars_replicate_zero]
    exact ofDigitChars_ofNat n
  have behind : (zeros (places - (ofNat n).length) ++ ofNat n).length = places := by
    rw [List.length_append, zeros, List.length_replicate]
    omega
  have zero : ∀ c ∈ ['0'], c.isDigit = true := List.forall_mem_singleton.2 rfl
  have point := ofDigits?_of_point zero digits (by decide)
  rwa [value, behind] at point

/-- A number written in full is read as its digits and a power of ten at or below zero. -/
theorem ofDigits?_positional (n : Nat) (power : Int) :
    ofDigits? (positional (ofNat n) power []) =
      some (finite (n * 10 ^ power.toNat) (min power 0)) := by
  rw [positional]
  by_cases whole : 0 ≤ power
  · rw [if_pos whole, List.append_nil, ofDigits?_whole, Int.min_eq_right whole]
  · have places : power = -(power.natAbs : Int) := by omega
    have none : power.toNat = 0 := by omega
    rw [if_neg whole, none, Nat.pow_zero, Nat.mul_one, Int.min_eq_left (by omega)]
    dsimp only
    split
    · rw [ofDigits?_inside ‹_›, ← places]
    · rw [List.cons_append, List.cons_append, ofDigits?_below (Nat.le_of_not_lt ‹_›), ← places]

theorem toLower_of_isDigit {c : Char} (digit : c.isDigit = true) : c.toLower = c := by
  simp only [Char.isDigit, Bool.and_eq_true, decide_eq_true_eq] at digit
  refine dif_neg fun capital => ?_
  have below := UInt32.le_iff_toNat_le.1 digit.2
  have above := UInt32.le_iff_toNat_le.1 capital.1
  exact absurd (Nat.le_trans above below) (by decide)

theorem ofText?_of_isDigit {c : Char} (rest : List Char) (digit : c.isDigit = true) :
    ofText? (c :: rest) = ofDigits? (c :: rest) := by
  have first : (Text.lower (c :: rest)).head? = some c := by
    simp [Text.lower, toLower_of_isDigit digit]
  -- none of the words starts with a digit
  have other : ∀ word : List Char, word.head?.any Char.isDigit = false →
      Text.lower (c :: rest) ≠ word := by
    intro word letter same
    rw [← same, first, Option.any_some, digit] at letter
    cases letter
  rw [ofText?, if_neg (other _ (by decide)), if_neg]
  exact not_or.2 ⟨other _ (by decide), other _ (by decide)⟩

theorem signed?_of_isDigit (negative : Bool) {cs : List Char}
    (digit : ∀ c ∈ cs.head?, c.isDigit = true) :
    signed? ((if negative then ['-'] else []) ++ cs) = (ofText? cs).map (negative, ·) := by
  cases negative with
  | true => rfl
  | false =>
    rw [if_neg (by decide), List.nil_append]
    unfold signed?
    split
    · cases digit '-' rfl
    · cases digit '+' rfl
    · rfl

theorem head_positional (n : Nat) (power : Int) : ∃ c rest,
    positional (ofNat n) power [] = c :: rest ∧ c.isDigit = true := by
  obtain ⟨c, rest, shape⟩ := List.exists_cons_of_ne_nil (ofNat_ne_nil n)
  have digit : c.isDigit = true := isDigit_of_mem_ofNat (n := n) (by simp [shape])
  simp only [positional]
  split
  · exact ⟨c, _, by rw [shape]; rfl, digit⟩
  · split
    · have front : (ofNat n).length - power.natAbs ≠ 0 := by omega
      obtain ⟨k, more⟩ := Nat.exists_eq_succ_of_ne_zero front
      exact ⟨c, _, by rw [more, shape]; rfl, digit⟩
    · exact ⟨'0', _, rfl, by decide⟩

/-- A number in full behind a sign is read as its digits and a power of ten. -/
theorem signed?_positional (negative : Bool) (n : Nat) (power : Int) :
    signed? ((if negative then ['-'] else []) ++ positional (ofNat n) power []) =
      some (negative, finite (n * 10 ^ power.toNat) (min power 0)) := by
  obtain ⟨c, rest, shape, digit⟩ := head_positional n power
  have read := ofDigits?_positional n power
  rw [shape] at read ⊢
  rw [signed?_of_isDigit negative (by simpa using digit), ofText?_of_isDigit rest digit, read]
  rfl

end Numeral

end SegmentCatalog.Decimal
