import SegmentCatalog.Proofs.Text.CodeUnits
import SegmentCatalog.Scalar

/-! # Orders kept by a code

Words of bytes are compared at the first place in which they differ.  A row of items that is
written item after item, each with one or more bytes, comes in the order of the items if the lower
of two items has the lower byte where their codes first differ (`KeepsOrder`,
`compareWords_flatMap`).  The hexadecimal digits of a byte are such a code (`keepsOrder_hexByte`),
and so are the bytes of a character (`keepsOrder_utf8EncodeChar`).
-/

namespace SegmentCatalog.Scalar

open Text (hex hexByte utf8 spreadBytes bytesBehind exists_spreadBytes_eq_cons)

theorem compareWords_eq_compare (bs cs : List UInt8) :
    compareWords bs cs = compare (bs.map UInt8.toNat) (cs.map UInt8.toNat) := by
  induction bs generalizing cs with
  | nil => cases cs <;> rfl
  | cons b bs ih =>
    cases cs with
    | nil => rfl
    | cons c cs =>
      rw [compareWords, ih, List.map_cons, List.map_cons, List.compare_cons_cons]

theorem compareWords_append_left (us bs cs : List UInt8) :
    compareWords (us ++ bs) (us ++ cs) = compareWords bs cs := by
  induction us with
  | nil => rfl
  | cons u us ih => simp [compareWords, ih]

/-! ## Codes -/

/-- Where the words first differ, the first one has the lower byte, and neither is at its end. -/
def Precedes : List UInt8 → List UInt8 → Prop
  | b :: bs, c :: cs => b.toNat < c.toNat ∨ b.toNat = c.toNat ∧ Precedes bs cs
  | _, _ => False

variable {us vs : List UInt8}

/-- What comes behind words that differ does not count. -/
theorem Precedes.append (before : Precedes us vs) (bs cs : List UInt8) :
    Precedes (us ++ bs) (vs ++ cs) := by
  fun_induction Precedes us vs with
  | case1 u us v vs ih =>
    rcases before with lower | ⟨same, before⟩
    · exact .inl lower
    · exact .inr ⟨same, ih before⟩
  | case2 => exact before.elim

theorem Precedes.append_left (before : Precedes us vs) (bs : List UInt8) :
    Precedes (bs ++ us) (bs ++ vs) := by
  induction bs with
  | nil => exact before
  | cons b bs ih => exact .inr ⟨rfl, ih⟩

theorem Precedes.compareWords_eq_lt (before : Precedes us vs) : compareWords us vs = .lt := by
  fun_induction Precedes us vs with
  | case1 u us v vs ih =>
    rw [compareWords]
    rcases before with lower | ⟨same, before⟩
    · rw [Nat.compare_eq_lt.2 lower, Ordering.lt_then]
    · rw [Nat.compare_eq_eq.2 same, Ordering.eq_then, ih before]
  | case2 => exact before.elim

/-- The lower of two items has the lower byte where their codes first differ. -/
structure KeepsOrder {α : Type} (code : α → List UInt8) (order : α → Nat) : Prop where
  filled : ∀ a, code a ≠ []
  same : ∀ a b, order a = order b → code a = code b
  precedes : ∀ a b, order a < order b → Precedes (code a) (code b)

/-- Written rows come in the order of the items in them. -/
theorem compareWords_flatMap {α : Type} {code : α → List UInt8} {order : α → Nat}
    (keeps : KeepsOrder code order) (as bs : List α) :
    compareWords (as.flatMap code) (bs.flatMap code) =
      compare (as.map order) (bs.map order) := by
  induction as generalizing bs with
  | nil =>
    cases bs with
    | nil => rfl
    | cons b bs =>
      obtain ⟨u, us, shape⟩ := List.exists_cons_of_ne_nil (keeps.filled b)
      simp [shape, compareWords]
  | cons a as ih =>
    cases bs with
    | nil =>
      obtain ⟨u, us, shape⟩ := List.exists_cons_of_ne_nil (keeps.filled a)
      simp [shape, compareWords]
    | cons b bs =>
      rw [List.flatMap_cons, List.flatMap_cons, List.map_cons, List.map_cons,
        List.compare_cons_cons]
      -- items that differ decide here, whatever follows them
      rcases Nat.lt_trichotomy (order a) (order b) with lower | equal | higher
      · rw [((keeps.precedes a b lower).append _ _).compareWords_eq_lt,
          Nat.compare_eq_lt.2 lower, Ordering.lt_then]
      · rw [keeps.same a b equal, compareWords_append_left, ih, Nat.compare_eq_eq.2 equal,
          Ordering.eq_then]
      · rw [compareWords_eq_compare, Std.OrientedOrd.eq_swap, ← compareWords_eq_compare,
          ((keeps.precedes b a higher).append _ _).compareWords_eq_lt,
          Nat.compare_eq_gt.2 higher, Ordering.gt_then, Ordering.swap_lt]

/-! ## Hexadecimal digits -/

/-- The code of a hexadecimal digit. -/
def digitByte (d : Nat) : UInt8 := .ofNat (Nat.digitChar d).toNat

theorem utf8EncodeChar_digitChar {d : Nat} (small : d < 16) :
    String.utf8EncodeChar (Nat.digitChar d) = [digitByte d] := by
  revert d
  decide

theorem digitByte_lt {d e : Nat} (lower : d < e) (small : e < 16) :
    (digitByte d).toNat < (digitByte e).toNat := by
  revert d
  revert e
  decide

theorem utf8_hexByte (b : UInt8) :
    utf8 (hexByte b) = [digitByte (b.toNat / 16), digitByte (b.toNat % 16)] := by
  have bound := b.toNat_lt
  rw [hexByte, Text.utf8_cons, Text.utf8_cons, utf8EncodeChar_digitChar (by omega),
    utf8EncodeChar_digitChar (by omega)]
  rfl

theorem keepsOrder_hexByte : KeepsOrder (fun b => utf8 (hexByte b)) UInt8.toNat where
  filled b := by simp [utf8_hexByte]
  same b c equal := by rw [UInt8.toNat_inj.1 equal]
  precedes b c lower := by
    have bound := c.toNat_lt
    rw [utf8_hexByte, utf8_hexByte, Precedes]
    rcases Nat.lt_or_eq_of_le (Nat.div_le_div_right (Nat.le_of_lt lower) : _ / 16 ≤ _ / 16) with
      before | equal
    · exact .inl (digitByte_lt before (by omega))
    · exact .inr ⟨by rw [equal], .inl (digitByte_lt (by omega) (by omega))⟩

/-- Words are in the order of the texts of their digits. -/
theorem compareWords_hex (bs cs : List UInt8) :
    compareWords (utf8 (hex bs)) (utf8 (hex cs)) = compareWords bs cs := by
  have byByte : ∀ word, utf8 (hex word) = word.flatMap fun b => utf8 (hexByte b) :=
    fun word => List.flatMap_assoc
  rw [byByte, byByte, compareWords_flatMap keepsOrder_hexByte, compareWords_eq_compare]

/-! ## Characters -/

theorem precedes_of_lead {lead lead' k k' m n : Nat}
    (lower : m / 64 ^ k + lead < n / 64 ^ k' + lead') (fits : n / 64 ^ k' + lead' < 256) :
    Precedes (spreadBytes lead k m) (spreadBytes lead' k' n) := by
  obtain ⟨rest, shape⟩ := exists_spreadBytes_eq_cons lead k m
  obtain ⟨rest', shape'⟩ := exists_spreadBytes_eq_cons lead' k' n
  rw [shape, shape']
  left
  rwa [UInt8.toNat_ofNat_of_lt' fits, UInt8.toNat_ofNat_of_lt' (Nat.lt_trans lower fits)]

theorem precedes_spreadBytes {lead k m n : Nat} (lower : m < n) (fits : n / 64 ^ k + lead < 256) :
    Precedes (spreadBytes lead k m) (spreadBytes lead k n) := by
  induction k generalizing m n with
  | zero => exact precedes_of_lead (by simpa using lower) fits
  | succ k ih =>
    rw [Nat.pow_succ', ← Nat.div_div_eq_div_mul] at fits
    rw [spreadBytes, spreadBytes]
    -- the last six bits count only if all others are the same
    rcases Nat.lt_or_eq_of_le (Nat.div_le_div_right (Nat.le_of_lt lower) : m / 64 ≤ n / 64) with
      before | same
    · exact (ih before fits).append _ _
    · rw [same]
      refine Precedes.append_left ?_ _
      left
      rw [UInt8.toNat_ofNat', UInt8.toNat_ofNat']
      omega

theorem keepsOrder_utf8EncodeChar : KeepsOrder String.utf8EncodeChar Char.toNat where
  filled c := String.utf8EncodeChar_ne_nil
  same c d equal := by rw [Char.toNat_inj.1 equal]
  precedes c d lower := by
    have fits := Text.leadByte_lt_size (Text.toNat_lt d)
    rw [Text.utf8EncodeChar_eq, Text.utf8EncodeChar_eq]
    by_cases alike : bytesBehind c.toNat = bytesBehind d.toNat
    · rw [alike]
      exact precedes_spreadBytes lower fits
    · exact precedes_of_lead (Text.leadByte_lt lower alike) fits

/-- Texts are in the order of their characters. -/
theorem compareWords_utf8 (cs ds : List Char) :
    compareWords (utf8 cs) (utf8 ds) = compare (cs.map Char.toNat) (ds.map Char.toNat) :=
  compareWords_flatMap keepsOrder_utf8EncodeChar cs ds

end SegmentCatalog.Scalar
