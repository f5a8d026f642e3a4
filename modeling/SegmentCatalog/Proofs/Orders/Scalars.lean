import SegmentCatalog.Proofs.Binary.Numbers
import SegmentCatalog.Proofs.Equality
import SegmentCatalog.Proofs.Orders.Codes

/-! # The order of typed values

Two values can be compared if they are of one type, unless one of them is a floating point value
that stands for no number (`Comparable`).  Each value has a place among those of its type, a row of
integers, and `compare?` is the order of places where values can be compared, and nothing elsewhere
(`compare?_eq_some_iff`).  So it has the laws of an order: `compare?_consistent`.

It differs from `==` where two values share a place.  Those are equal, or they are the two zeros
(`place_eq_iff`); and values that stand for no number are `==` (`beq_iff`).  How the two fit
together is `beq_iff_compare?_eq_eq`.
-/

namespace SegmentCatalog

/-! ## Numbers -/

namespace Binary

variable {F : Format} {x y : Binary F}

theorem value?_eq_none_iff (wide : 2 ≤ F.exponentBits) : x.value? = none ↔ x.isNaN = true := by
  rw [value?_eq wide]
  cases x.isNaN <;> simp

theorem compare?_eq_some_iff (wide : 2 ≤ F.exponentBits) {o : Ordering} : x.compare? y = some o ↔
    (x.value? ≠ none ∧ y.value? ≠ none) ∧ compare x.rank y.rank = o := by
  rw [Ne, Ne, value?_eq_none_iff wide, value?_eq_none_iff wide, compare?]
  cases x.isNaN <;> cases y.isNaN <;> simp

/-- The two zeros. -/
def OppositeZeros (x y : Binary F) : Prop :=
  x.magnitude = 0 ∧ y.magnitude = 0 ∧ x.negative ≠ y.negative

theorem OppositeZeros.isNaN_eq_false (opposite : OppositeZeros x y) :
    x.isNaN = false ∧ y.isNaN = false := by
  simp [isNaN, opposite.1, opposite.2.1]

/-- Besides a number and itself only the two zeros share a place. -/
theorem rank_eq_iff : x.rank = y.rank ↔ x = y ∨ OppositeZeros x y := by
  obtain ⟨negative, p⟩ := x
  obtain ⟨negative', q⟩ := y
  simp only [rank, OppositeZeros, mk.injEq, ← BitVec.toNat_inj]
  -- under one sign patterns are as far apart as places, under two only zero has its own negative
  cases negative <;> cases negative' <;> simp

end Binary

namespace Scalar

open Text (utf8 storedBytes)

variable {a b c : Scalar}

/-- The bits stand for no number. -/
def IsNaN : Scalar → Prop
  | float x => x.value? = none
  | double x => x.value? = none
  | _ => False

def Comparable (a b : Scalar) : Prop := a.dataType = b.dataType ∧ ¬ a.IsNaN ∧ ¬ b.IsNaN

theorem isNaN_float {x : Binary .single} : (float x).IsNaN ↔ x.isNaN = true :=
  Binary.value?_eq_none_iff (by decide)

theorem isNaN_double {x : Binary .double} : (double x).IsNaN ↔ x.isNaN = true :=
  Binary.value?_eq_none_iff (by decide)

theorem Comparable.symm (comparable : Comparable a b) : Comparable b a :=
  ⟨comparable.1.symm, comparable.2.2, comparable.2.1⟩

theorem Comparable.trans (first : Comparable a b) (second : Comparable b c) : Comparable a c :=
  ⟨first.1.trans second.1, first.2.1, second.2.2⟩

/-! ## Places -/

/-- The bytes of a word, as numbers. -/
def wordPlace (word : List UInt8) : List Int := (word.map UInt8.toNat).map Nat.cast

/-- The place of a value among those of its type. -/
def place : Scalar → List Int
  | int n => [n.toInt]
  | long n => [n.toInt]
  | float x => [x.rank]
  | double x => [x.rank]
  | string s => wordPlace (utf8 s.toList)
  | bytes b => wordPlace b

theorem compare_map_natCast (as bs : List Nat) :
    compare (as.map Nat.cast : List Int) (bs.map Nat.cast) = compare as bs := by
  induction as generalizing bs with
  | nil => cases bs <;> rfl
  | cons a as ih =>
    cases bs with
    | nil => rfl
    | cons b bs =>
      have cast : StrictMono (Nat.cast : Nat → Int) := Nat.strictMono_cast
      have head := cast.cmp_map_eq a b
      rw [cmp_eq_compare, cmp_eq_compare] at head
      rw [List.map_cons, List.map_cons, List.compare_cons_cons, List.compare_cons_cons, head, ih]

theorem compareWords_eq_compare_wordPlace (bs cs : List UInt8) :
    compareWords bs cs = compare (wordPlace bs) (wordPlace cs) := by
  rw [compareWords_eq_compare, wordPlace, wordPlace, compare_map_natCast]

theorem compare?_eq_some_iff {o : Ordering} :
    a.compare? b = some o ↔ Comparable a b ∧ compare a.place b.place = o := by
  cases a <;> cases b
  -- only floating point numbers may fail to compare within a type
  case float.float x y | double.double x y =>
    exact (Binary.compare?_eq_some_iff (by decide)).trans
      (by simp [Comparable, IsNaN, dataType, place])
  all_goals
    simp [compare?, Comparable, IsNaN, dataType, place, compareWords_eq_compare_wordPlace]

theorem isSome_compare?_iff : (a.compare? b).isSome ↔ Comparable a b := by
  simp [Option.isSome_iff_exists, compare?_eq_some_iff]

theorem compare?_of_comparable (comparable : Comparable a b) :
    a.compare? b = some (compare a.place b.place) :=
  compare?_eq_some_iff.2 ⟨comparable, rfl⟩

theorem compare?_of_not_comparable (incomparable : ¬ Comparable a b) : a.compare? b = none :=
  Option.not_isSome_iff_eq_none.1 (mt isSome_compare?_iff.1 incomparable)

/-! ## The laws of an order -/

/-- `a` is compared with `b` and found to be lower. -/
def Below (a b : Scalar) : Prop := a.compare? b = some .lt

/-- `a` is compared with `b` and not found to be higher. -/
def AtMost (a b : Scalar) : Prop := a.compare? b = some .lt ∨ a.compare? b = some .eq

instance : Decidable (Below a b) := inferInstanceAs (Decidable (_ = _))

instance : Decidable (AtMost a b) := inferInstanceAs (Decidable (_ ∨ _))

theorem below_iff : Below a b ↔ Comparable a b ∧ compare a.place b.place = .lt :=
  compare?_eq_some_iff

theorem atMost_iff : AtMost a b ↔ Comparable a b ∧ (compare a.place b.place).isLE = true := by
  rw [AtMost, compare?_eq_some_iff, compare?_eq_some_iff, ← and_or_left,
    Ordering.isLE_iff_eq_lt_or_eq_eq]

theorem compare?_swap (a b : Scalar) : b.compare? a = (a.compare? b).map .swap := by
  by_cases comparable : Comparable a b
  · rw [compare?_of_comparable comparable, compare?_of_comparable comparable.symm,
      Std.OrientedOrd.eq_swap, Option.map_some]
  · rw [compare?_of_not_comparable comparable,
      compare?_of_not_comparable (mt Comparable.symm comparable), Option.map_none]

theorem AtMost.trans (first : AtMost a b) (second : AtMost b c) : AtMost a c := by
  rw [atMost_iff] at first second ⊢
  exact ⟨first.1.trans second.1, Std.TransCmp.isLE_trans first.2 second.2⟩

theorem Below.trans_atMost (first : Below a b) (second : AtMost b c) : Below a c := by
  rw [below_iff] at first ⊢
  rw [atMost_iff] at second
  exact ⟨first.1.trans second.1, Std.TransCmp.lt_of_lt_of_isLE first.2 second.2⟩

theorem AtMost.trans_below (first : AtMost a b) (second : Below b c) : Below a c := by
  rw [below_iff] at second ⊢
  rw [atMost_iff] at first
  exact ⟨first.1.trans second.1, Std.TransCmp.lt_of_isLE_of_lt first.2 second.2⟩

/-! ## Texts and words -/

theorem compare?_string (s t : String) : (string s).compare? (string t) =
    some (compareWords (storedBytes s) (storedBytes t)) := by
  rw [Text.storedBytes_eq_utf8, Text.storedBytes_eq_utf8]
  rfl

theorem compare?_display_bytes (bs cs : List UInt8) :
    (string (bytes bs).display).compare? (string (bytes cs).display) =
      (bytes bs).compare? (bytes cs) := by
  simp only [display, compare?, String.toList_ofList, compareWords_hex]

/-- The order of typed values.  Comparing the other way round gives the opposite answer; what is at
    most something that is at most a third value is at most that, and lower if one of the steps is;
    and an answer is given for values of one type that both are numbers, if they should be.
    Numbers are in the order of what they stand for, words of bytes in the order of the texts of
    their digits, and texts in the order of their bytes as well as of their characters. -/
theorem compare?_consistent :
    (∀ a b : Scalar, b.compare? a = (a.compare? b).map .swap) ∧
    (∀ a b c : Scalar, AtMost a b → AtMost b c →
      AtMost a c ∧ (Below a b ∨ Below b c → Below a c)) ∧
    (∀ a b : Scalar, (a.compare? b).isSome ↔ a.dataType = b.dataType ∧ ¬ a.IsNaN ∧ ¬ b.IsNaN) ∧
    (∀ m n : Int32, (int m).compare? (int n) = some (compare m.toInt n.toInt)) ∧
    (∀ m n : Int64, (long m).compare? (long n) = some (compare m.toInt n.toInt)) ∧
    (∀ x y : Binary .single, (float x).compare? (float y) =
      x.value?.bind fun v => y.value?.map (compare v)) ∧
    (∀ x y : Binary .double, (double x).compare? (double y) =
      x.value?.bind fun v => y.value?.map (compare v)) ∧
    (∀ bs cs : List UInt8, (bytes bs).compare? (bytes cs) =
      (string (bytes bs).display).compare? (string (bytes cs).display)) ∧
    ∀ s t : String,
      (string s).compare? (string t) =
        (bytes (storedBytes s)).compare? (bytes (storedBytes t)) ∧
      (string s).compare? (string t) =
        some (compare (s.toList.map Char.toNat) (t.toList.map Char.toNat)) := by
  refine ⟨compare?_swap, ?_, fun _ _ => isSome_compare?_iff, fun _ _ => rfl, fun _ _ => rfl,
    Binary.compare?_eq (by decide), Binary.compare?_eq (by decide),
    fun bs cs => (compare?_display_bytes bs cs).symm, ?_⟩
  · intro a b c first second
    refine ⟨first.trans second, fun strict => ?_⟩
    cases strict with
    | inl below => exact below.trans_atMost second
    | inr below => exact first.trans_below below
  · intro s t
    exact ⟨compare?_string s t, congrArg some (compareWords_utf8 s.toList t.toList)⟩

/-- From minus zero over zero to the least positive number. -/
theorem compare?_consistent_zeros :
    AtMost (double ⟨true, 0⟩) (double ⟨false, 0⟩) ∧ Below (double ⟨false, 0⟩) (double ⟨false, 1⟩) ∧
    Below (double ⟨true, 0⟩) (double ⟨false, 1⟩) := by
  have first : AtMost (double ⟨true, 0⟩) (double ⟨false, 0⟩) := by decide
  have second : Below (double ⟨false, 0⟩) (double ⟨false, 1⟩) := by decide
  obtain ⟨_, transitive, _⟩ := compare?_consistent
  exact ⟨first, second, (transitive _ _ _ first (.inl second)).2 (.inr second)⟩

/-! ## Equality -/

/-- Values of one type that both stand for no number. -/
def BothNaN (a b : Scalar) : Prop := a.dataType = b.dataType ∧ a.IsNaN ∧ b.IsNaN

/-- The two zeros of a type. -/
def OppositeZeros : Scalar → Scalar → Prop
  | float x, float y => x.OppositeZeros y
  | double x, double y => x.OppositeZeros y
  | _, _ => False

theorem beq_iff : (a == b) = true ↔ a = b ∨ BothNaN a b := by
  cases a <;> cases b
  case float.float x y | double.double x y =>
    exact Binary.beq_iff.trans (by simp [BothNaN, isNaN_float, isNaN_double, dataType])
  all_goals simp [beq_iff_canonical, canonical, BothNaN, IsNaN, dataType]

theorem wordPlace_inj {bs cs : List UInt8} : wordPlace bs = wordPlace cs ↔ bs = cs := by
  have casts : Function.Injective (Nat.cast : Nat → Int) := Nat.cast_injective
  rw [wordPlace, wordPlace, (List.map_injective_iff.2 casts).eq_iff]
  exact (List.map_injective_iff.2 fun _ _ => UInt8.toNat_inj.1).eq_iff

theorem place_eq_iff (types : a.dataType = b.dataType) :
    a.place = b.place ↔ a = b ∨ OppositeZeros a b := by
  cases a <;> cases b <;> cases types
  case int.int m n => simp [place, OppositeZeros, Int32.toInt_inj]
  case long.long m n => simp [place, OppositeZeros, Int64.toInt_inj]
  case float.float x y | double.double x y => simp [place, OppositeZeros, Binary.rank_eq_iff]
  case string.string s t =>
    simp [place, OppositeZeros, wordPlace_inj, ← Text.storedBytes_eq_utf8, Text.storedBytes_inj]
  case bytes.bytes bs cs => simp [place, OppositeZeros, wordPlace_inj]

theorem OppositeZeros.comparable (opposite : OppositeZeros a b) : Comparable a b := by
  cases a <;> cases b
  case float.float x y | double.double x y =>
    have defined := Binary.OppositeZeros.isNaN_eq_false opposite
    simp [Comparable, isNaN_float, isNaN_double, dataType, defined]
  all_goals cases opposite

theorem not_oppositeZeros_self (a : Scalar) : ¬ OppositeZeros a a := by
  cases a <;> simp [OppositeZeros, Binary.OppositeZeros]

theorem compare?_eq_eq_iff :
    a.compare? b = some .eq ↔ a = b ∧ ¬ a.IsNaN ∨ OppositeZeros a b := by
  rw [compare?_eq_some_iff, Std.LawfulEqOrd.compare_eq_iff_eq]
  constructor
  · intro ⟨comparable, places⟩
    exact ((place_eq_iff comparable.1).1 places).imp_left fun same => ⟨same, comparable.2.1⟩
  · rintro (⟨rfl, defined⟩ | opposite)
    · exact ⟨⟨rfl, defined, defined⟩, rfl⟩
    · exact ⟨opposite.comparable, (place_eq_iff opposite.comparable.1).2 (.inr opposite)⟩

/-- Values are `==` if and only if they are compared as equal, but for two sorts of pairs of one
    floating point type: two values that are no numbers are `==` and cannot be compared, and the two
    zeros are not `==` and are compared as equal. -/
theorem beq_iff_compare?_eq_eq (a b : Scalar) :
    (¬ BothNaN a b → ¬ OppositeZeros a b → ((a == b) = true ↔ a.compare? b = some .eq)) ∧
    (BothNaN a b → (a == b) = true ∧ a.compare? b = none) ∧
    (OppositeZeros a b → (a == b) = false ∧ a.compare? b = some .eq) := by
  refine ⟨?_, ?_, ?_⟩
  · intro notNaN notZeros
    -- without the two sorts, both sides say that the values are the same
    rw [beq_iff, compare?_eq_eq_iff, or_iff_left notNaN, or_iff_left notZeros]
    refine ⟨?_, And.left⟩
    rintro rfl
    exact ⟨rfl, fun undefined => notNaN ⟨rfl, undefined, undefined⟩⟩
  · intro bothNaN
    exact ⟨beq_iff.2 (.inr bothNaN), compare?_of_not_comparable fun comparable =>
      comparable.2.1 bothNaN.2.1⟩
  · intro opposite
    refine ⟨Bool.eq_false_iff.2 fun same => ?_, compare?_eq_eq_iff.2 (.inr opposite)⟩
    rcases beq_iff.1 same with rfl | bothNaN
    · exact not_oppositeZeros_self a opposite
    · exact opposite.comparable.2.1 bothNaN.2.1

/-- One pair of each sort, and a pair of neither. -/
theorem beq_iff_compare?_eq_eq_each :
    ((float ⟨true, 0x7fc00000⟩ == float ⟨false, 0x7f800001⟩) = true ∧
      (float ⟨true, 0x7fc00000⟩).compare? (float ⟨false, 0x7f800001⟩) = none) ∧
    ((double ⟨true, 0⟩ == double ⟨false, 0⟩) = false ∧
      (double ⟨true, 0⟩).compare? (double ⟨false, 0⟩) = some .eq) ∧
    ((double ⟨true, 0⟩ == double ⟨true, 0⟩) = true ↔
      (double ⟨true, 0⟩).compare? (double ⟨true, 0⟩) = some .eq) := by
  refine ⟨(beq_iff_compare?_eq_eq _ _).2.1 ⟨rfl, ?_, ?_⟩,
    (beq_iff_compare?_eq_eq _ _).2.2 ⟨rfl, rfl, by decide⟩,
    (beq_iff_compare?_eq_eq _ _).1 ?_ (not_oppositeZeros_self _)⟩
  · exact isNaN_float.2 (by decide)
  · exact isNaN_float.2 (by decide)
  · rintro ⟨_, undefined, _⟩
    exact absurd (isNaN_double.1 undefined) (by decide)

/-- Being `==` and being compared as equal are not the same, either way. -/
theorem not_beq_iff_compare? :
    ¬ ((float ⟨false, 0x7fc00000⟩ == float ⟨false, 0x7fc00000⟩) = true ↔
      (float ⟨false, 0x7fc00000⟩).compare? (float ⟨false, 0x7fc00000⟩) = some .eq) ∧
    ¬ ((double ⟨false, 0⟩ == double ⟨true, 0⟩) = true ↔
      (double ⟨false, 0⟩).compare? (double ⟨true, 0⟩) = some .eq) := by
  decide

end Scalar

end SegmentCatalog
