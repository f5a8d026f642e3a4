/-! # Whole numbers in decimal

* `ofNat` and `ofInt` write a number: no leading zeros, a minus sign when negative;
* `nat?` reads one or more ASCII digits, `int?` the same behind an optional sign;
* `int32?` and `int64?` read a number that has to fit a word.

Reading undoes writing (`int?_ofInt`), and accepts leading zeros and a plus sign besides.
-/

namespace SegmentCatalog.Decimal

/-! ## Writing -/

def ofNat (n : Nat) : List Char := Nat.toDigits 10 n

def ofInt : Int → List Char
  | .ofNat n => ofNat n
  | .negSucc n => '-' :: ofNat (n + 1)

def text (n : Int) : String := .ofList (ofInt n)

/-! ## Reading -/

def nat? (cs : List Char) : Option Nat :=
  if cs ≠ [] ∧ cs.all Char.isDigit then some (Nat.ofDigitChars 10 cs 0) else none

/-- The value of one or more digits behind an optional sign. -/
def int? : List Char → Option Int
  | '-' :: digits => (nat? digits).map fun n => -(n : Int)
  | '+' :: digits => (nat? digits).map Int.ofNat
  | digits => (nat? digits).map Int.ofNat

def int32? (cs : List Char) : Option Int32 :=
  (int? cs).bind fun n =>
    if Int32.minValue.toInt ≤ n ∧ n ≤ Int32.maxValue.toInt then some (.ofInt n) else none

def int64? (cs : List Char) : Option Int64 :=
  (int? cs).bind fun n =>
    if Int64.minValue.toInt ≤ n ∧ n ≤ Int64.maxValue.toInt then some (.ofInt n) else none

/-! ## Reading what was written -/

theorem ofNat_ne_nil (n : Nat) : ofNat n ≠ [] := Nat.toDigits_ne_nil

theorem isDigit_of_mem_ofNat {n : Nat} {c : Char} (h : c ∈ ofNat n) : c.isDigit = true :=
  Nat.isDigit_of_mem_toDigits (by decide) (by decide) h

@[simp] theorem nat?_ofNat (n : Nat) : nat? (ofNat n) = some n := by
  have digits : (ofNat n).all Char.isDigit := List.all_eq_true.2 fun _ => isDigit_of_mem_ofNat
  rw [nat?, if_pos ⟨ofNat_ne_nil n, digits⟩, ofNat, Nat.ofDigitChars_toDigits] <;> decide

/-- A text that starts with a digit carries no sign. -/
theorem int?_of_isDigit {c : Char} (rest : List Char) (h : c.isDigit = true) :
    int? (c :: rest) = (nat? (c :: rest)).map Int.ofNat := by
  unfold int?
  split
  · rename_i same; cases same; cases h
  · rename_i same; cases same; cases h
  · rfl

@[simp] theorem int?_ofInt (n : Int) : int? (ofInt n) = some n := by
  cases n with
  | ofNat n =>
    rw [ofInt]
    cases shape : ofNat n with
    | nil => exact absurd shape (ofNat_ne_nil n)
    | cons c rest =>
      rw [int?_of_isDigit rest (isDigit_of_mem_ofNat (n := n) (by simp [shape])), ← shape,
        nat?_ofNat]
      rfl
  | negSucc n => simp [ofInt, int?, Int.negSucc_eq]

end SegmentCatalog.Decimal
