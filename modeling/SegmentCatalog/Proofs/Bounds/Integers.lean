import Mathlib.Algebra.Ring.Int.Defs
import SegmentCatalog.Config.PropertyStore
import SegmentCatalog.Proofs.Decimal.Literals
import SegmentCatalog.Proofs.Decimal.ReadBack
import SegmentCatalog.Scalar

/-! # Whole numbers as bounds and as properties

There are two types of whole numbers, of 32 and of 64 bits, and they are read in one way: a text is
read as the number that it spells, white space around it apart, if that number is in the range of
the type, and refused otherwise (`Scalar.parse_integral_eq_ok_iff`,
`Scalar.parse_integral_eq_error_iff`).  A property that has to be a number of 32 bits is read in the
same way (`Literal.int32_eq_ok_iff`).

Zeros in front of the first digit change nothing of what a text spells (`Decimal.spells_padded`), so
that a number is read back from its text with zeros and white space added
(`Scalar.parse_padded_display`).  `Scalar.parse_integral` puts this together.
-/

namespace SegmentCatalog

/-! ## Texts -/

namespace Decimal

/-- The text with zeros inserted in front of its first digit. -/
def padded (count : Nat) (cs : List Char) : List Char :=
  cs.takeWhile (!·.isDigit) ++ zeros count ++ cs.dropWhile (!·.isDigit)

variable {cs : List Char} {n : Int}

theorem Digits.zeros_append (digits : Digits cs) (count : Nat) : Digits (zeros count ++ cs) := by
  constructor
  · simp [digits.1]
  · intro c member
    cases List.mem_append.1 member with
    | inl filled => exact isDigit_of_mem_zeros filled
    | inr inside => exact digits.2 c inside

@[simp] theorem value_zeros_append (count : Nat) (cs : List Char) :
    value (zeros count ++ cs) = value cs := by
  rw [value, Nat.ofDigitChars_append, zeros, Nat.ofDigitChars_replicate_zero, Nat.mul_zero, value]

theorem Digits.padded (digits : Digits cs) (count : Nat) : padded count cs = zeros count ++ cs := by
  obtain ⟨c, rest, rfl⟩ := List.exists_cons_of_ne_nil digits.1
  simp [Decimal.padded, digits.head]

/-- Behind a sign the zeros stand behind the sign. -/
theorem padded_cons {sign : Char} (other : sign.isDigit = false) (count : Nat) (cs : List Char) :
    padded count (sign :: cs) = sign :: padded count cs := by
  simp [padded, other]

theorem spells_padded (spelt : Spells cs n) (count : Nat) : Spells (padded count cs) n := by
  cases spelt with
  | plain digits =>
    rw [digits.padded, ← value_zeros_append count]
    exact .plain (digits.zeros_append count)
  | plus digits =>
    rw [padded_cons (by decide), digits.padded, ← value_zeros_append count]
    exact .plus (digits.zeros_append count)
  | minus digits =>
    rw [padded_cons (by decide), digits.padded, ← value_zeros_append count]
    exact .minus (digits.zeros_append count)

theorem spells_ofInt (n : Int) : Spells (ofInt n) n := int?_eq_some_iff.1 (int?_ofInt n)

/-- What spells a number is made of digits, and a sign perhaps. -/
theorem Spells.not_blank (spelt : Spells cs n) : ∀ c ∈ cs, Text.isBlank c = false := by
  have solid : ∀ {digits}, Digits digits → ∀ c ∈ digits, Text.isBlank c = false :=
    fun digits c member => Text.not_blank_of_isDigit (digits.2 c member)
  cases spelt with
  | plain digits => exact solid digits
  | plus digits => exact List.forall_mem_cons.2 ⟨by decide, solid digits⟩
  | minus digits => exact List.forall_mem_cons.2 ⟨by decide, solid digits⟩

end Decimal

open Decimal (Spells)

/-! ## Types -/

/-- The types of whole numbers. -/
inductive Integral where
  | int
  | long

namespace Integral

def type : Integral → DataType
  | int => .int
  | long => .long

def bits : Integral → Nat
  | int => 32
  | long => 64

/-- In the range of the type, which has one more negative number than positive ones. -/
def Fits (width : Integral) (n : Int) : Prop :=
  -2 ^ (width.bits - 1) ≤ n ∧ n < 2 ^ (width.bits - 1)

instance (width : Integral) (n : Int) : Decidable (width.Fits n) :=
  inferInstanceAs (Decidable (_ ∧ _))

/-- The value of the type that is a number of its range. -/
def scalar : Integral → Int → Scalar
  | int, n => .int (.ofInt n)
  | long, n => .long (.ofInt n)

variable {width : Integral} {n : Int}

theorem toInt_int32 (fits : int.Fits n) : (Int32.ofInt n).toInt = n :=
  Int32.toInt_ofInt_of_le fits.1 fits.2

theorem toInt_int64 (fits : long.Fits n) : (Int64.ofInt n).toInt = n :=
  Int64.toInt_ofInt_of_le fits.1 fits.2

/-- The number that a text spells, if it is in range. -/
def read? (width : Integral) (cs : List Char) : Option Int :=
  (Decimal.int? cs).filter fun n => width.Fits n

theorem read?_eq_some_iff {cs : List Char} :
    width.read? cs = some n ↔ Spells cs n ∧ width.Fits n := by
  rw [read?, Option.filter_eq_some_iff, Decimal.int?_eq_some_iff, decide_eq_true_iff]

/-- A reader of words goes by their least and by their greatest number. -/
theorem word?_eq {α : Type} {word : Int → α} {low high : Int}
    (range : ∀ n, low ≤ n ∧ n ≤ high ↔ width.Fits n) (cs : List Char) :
    ((Decimal.int? cs).bind fun n => if low ≤ n ∧ n ≤ high then some (word n) else none) =
      (width.read? cs).map word := by
  cases spelt : Decimal.int? cs with
  | none => simp [read?, spelt]
  | some n => by_cases fits : width.Fits n <;> simp [read?, spelt, range, fits, Option.filter_some]

theorem int32?_eq (cs : List Char) : Decimal.int32? cs = (int.read? cs).map .ofInt := by
  refine word?_eq (fun n => ?_) cs
  rw [Int32.toInt_minValue, Int32.toInt_maxValue, Int.le_sub_one_iff]
  rfl

theorem int64?_eq (cs : List Char) : Decimal.int64? cs = (long.read? cs).map .ofInt := by
  refine word?_eq (fun n => ?_) cs
  rw [Int64.toInt_minValue, Int64.toInt_maxValue, Int.le_sub_one_iff]
  rfl

theorem display_scalar (fits : width.Fits n) : (width.scalar n).display = Decimal.text n := by
  cases width with
  | int => rw [scalar, Scalar.display, toInt_int32 fits]
  | long => rw [scalar, Scalar.display, toInt_int64 fits]

end Integral

/-! ## Reading -/

namespace Scalar

variable {width : Integral} {column property text : String}

theorem parse_integral_eq : parse width.type column property text =
    match width.read? (Text.trim text.toList) with
    | some n => .ok (width.scalar n)
    | none => .error (.malformedNumber (columnKey column property) text) := by
  cases width with
  | int =>
    simp only [Integral.type, parse, Integral.int32?_eq]
    cases Integral.int.read? (Text.trim text.toList) with
    | none => rfl
    | some n => rfl
  | long =>
    simp only [Integral.type, parse, Integral.int64?_eq]
    cases Integral.long.read? (Text.trim text.toList) with
    | none => rfl
    | some n => rfl

theorem parse_integral_eq_ok_iff {x : Scalar} : parse width.type column property text = .ok x ↔
    ∃ n, Spells (Text.trim text.toList) n ∧ width.Fits n ∧ x = width.scalar n := by
  rw [parse_integral_eq]
  constructor
  · intro accepted
    split at accepted
    · rename_i n read
      cases accepted
      obtain ⟨spelt, fits⟩ := Integral.read?_eq_some_iff.1 read
      exact ⟨n, spelt, fits, rfl⟩
    · cases accepted
  · rintro ⟨n, spelt, fits, rfl⟩
    rw [Integral.read?_eq_some_iff.2 ⟨spelt, fits⟩]

theorem parse_integral_eq_error_iff {e : DecodeError} :
    parse width.type column property text = .error e ↔
      (∀ n, Spells (Text.trim text.toList) n → ¬ width.Fits n) ∧
        e = .malformedNumber (columnKey column property) text := by
  have unread : width.read? (Text.trim text.toList) = none ↔
      ∀ n, Spells (Text.trim text.toList) n → ¬ width.Fits n := by
    simp only [Option.eq_none_iff_forall_ne_some, ne_eq, Integral.read?_eq_some_iff, not_and]
  rw [parse_integral_eq, ← unread]
  cases width.read? (Text.trim text.toList) with
  | none => simp [eq_comm]
  | some n => simp

/-- A number is read back from its text with zeros in front of its digits and white space around
    it. -/
theorem parse_padded_display {n : Int} (fits : width.Fits n) (count : Nat) {lead tail : List Char}
    (leads : ∀ c ∈ lead, Text.isBlank c = true) (tails : ∀ c ∈ tail, Text.isBlank c = true) :
    parse width.type column property
      (.ofList (lead ++ Decimal.padded count (width.scalar n).display.toList ++ tail)) =
        .ok (width.scalar n) := by
  have spelt : Spells (Decimal.padded count (Decimal.ofInt n)) n :=
    Decimal.spells_padded (Decimal.spells_ofInt n) count
  rw [parse_integral_eq_ok_iff, String.toList_ofList, Integral.display_scalar fits,
    Decimal.toList_text, Text.trim_surrounded leads spelt.not_blank tails]
  exact ⟨n, spelt, fits, rfl⟩

end Scalar

/-! ## Properties -/

namespace Literal

variable {column property key text : String}

/-- A required number is read as a bound of 32 bits is. -/
theorem int32_eq_ok_iff {n : Int32} :
    int32 key text = .ok n ↔ Scalar.parse .int column property text = .ok (.int n) := by
  simp only [int32, Scalar.parse]
  cases Decimal.int32? (Text.trim text.toList) with
  | none => simp
  | some m => simp

theorem int32_eq_error_iff {e : DecodeError} : int32 key text = .error e ↔
    (∃ fault, Scalar.parse .int column property text = .error fault) ∧
      e = .malformedNumber key text := by
  simp only [int32, Scalar.parse]
  cases Decimal.int32? (Text.trim text.toList) with
  | none => simp [eq_comm]
  | some m => simp

end Literal

namespace Scalar

/-- Bounds that are whole numbers, and required properties that are, are read from the texts that
    spell a number in range and from no others; and a number is read back from its text, zeros and
    white space apart. -/
theorem parse_integral (width : Integral) (column property : String) :
    (∀ text,
      (∀ x, parse width.type column property text = .ok x ↔
        ∃ n, Spells (Text.trim text.toList) n ∧ width.Fits n ∧ x = width.scalar n) ∧
      ∀ e, parse width.type column property text = .error e ↔
        (∀ n, Spells (Text.trim text.toList) n → ¬ width.Fits n) ∧
          e = .malformedNumber (columnKey column property) text) ∧
    (∀ (map : PlainMap) (key text : String), map.find? key = some text →
      (∀ n, map.config.int key = .ok n ↔ parse .int column property text = .ok (int n)) ∧
      ∀ e, map.config.int key = .error e ↔
        (∃ fault, parse .int column property text = .error fault) ∧
          e = .malformedNumber key text) ∧
    ∀ n, width.Fits n → ∀ (count : Nat) (lead tail : List Char),
      (∀ c ∈ lead, Text.isBlank c = true) → (∀ c ∈ tail, Text.isBlank c = true) →
        parse width.type column property
          (.ofList (lead ++ Decimal.padded count (width.scalar n).display.toList ++ tail)) =
            .ok (width.scalar n) := by
  refine ⟨fun text => ⟨fun x => parse_integral_eq_ok_iff, fun e => parse_integral_eq_error_iff⟩,
    ?_, ?_⟩
  · intro map key text stored
    have present : map.config.text? key = some text := stored
    rw [Config.int_of_present present]
    exact ⟨fun n => Literal.int32_eq_ok_iff, fun e => Literal.int32_eq_error_iff⟩
  · intro n fits count lead tail leads tails
    exact parse_padded_display fits count leads tails

/-- The first number that is too large for 32 bits. -/
def beyond : PlainMap := OrderedMap.empty.insert "c.totalDocs" "2147483648"

theorem parse_integral_boundary :
    beyond.find? "c.totalDocs" = some "2147483648" ∧
    beyond.config.int "c.totalDocs" = .error (.malformedNumber "c.totalDocs" "2147483648") ∧
    Integral.long.Fits (-2 ^ 63) ∧
    parse .long "c" "minValue" "\t-009223372036854775808 " = .ok (.long Int64.minValue) := by
  have refused : parse .int "c" "minValue" "2147483648" =
      .error (.malformedNumber "c.minValue" "2147483648") := by
    rfl
  have least : Integral.long.Fits (-2 ^ 63) := by decide
  have written : String.ofList (['\t'] ++
      Decimal.padded 2 (Integral.long.scalar (-2 ^ 63)).display.toList ++ [' ']) =
        "\t-009223372036854775808 " := by
    rw [Integral.display_scalar least, Decimal.toList_text]
    decide +kernel
  refine ⟨rfl, ?_, least, ?_⟩
  · exact (((parse_integral .int "c" "minValue").2.1 beyond _ _ rfl).2 _).2 ⟨⟨_, refused⟩, rfl⟩
  · rw [← written]
    exact (parse_integral .long "c" "minValue").2.2 (-2 ^ 63) least 2 ['\t'] [' ']
      (List.forall_mem_singleton.2 rfl) (List.forall_mem_singleton.2 rfl)

end Scalar

end SegmentCatalog
