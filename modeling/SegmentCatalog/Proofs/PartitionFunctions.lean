import Mathlib.Data.Int.ModEq
import SegmentCatalog.Partition.Function
import SegmentCatalog.Proofs.Coherence
import SegmentCatalog.Proofs.Decimal.Literals
import SegmentCatalog.Proofs.MachineWords
import SegmentCatalog.Proofs.Text.Letters

/-! # Partition functions keep to their range

A partition function is found by its name, in any case and with white space around it
(`PartitionFunction.resolve_eq_ok_iff`).  It numbers partitions from zero to below its count,
for every value that it accepts; only numbers by value can be refused
(`PartitionFunction.partition_in_range`).

Partitions are reckoned in whole numbers here.  `PartitionFunction.partitionInWords` reckons
them in machine words, step by step, and `partitionInWords_eq` says that no step leaves its word
and that the outcome is the same.
-/

namespace SegmentCatalog

/-! ## Names -/

namespace PartitionStrategy

theorem lower_name_injective {s t : PartitionStrategy}
    (same : Text.lower s.name.toList = Text.lower t.name.toList) : s = t := by
  revert same
  cases s <;> cases t <;> decide

theorem find?_eq_some_iff {text : String} {s : PartitionStrategy} :
    find? text = some s ↔ Text.SameLetters (Text.trim text.toList) s.name.toList := by
  rw [← Text.lower_eq_lower_iff, find?]
  constructor
  · intro found
    have same : Text.lower s.name.toList = Text.lower (Text.trim text.toList) := by
      simpa using List.find?_some found
    exact same.symm
  · intro same
    cases found : all.find? fun t =>
        Text.lower t.name.toList == Text.lower (Text.trim text.toList) with
    | none =>
      have other := List.find?_eq_none.1 found s (by cases s <;> decide)
      exact absurd same.symm (by simpa using other)
    | some t =>
      have named : Text.lower t.name.toList = Text.lower (Text.trim text.toList) := by
        simpa using List.find?_some found
      rw [lower_name_injective (named.trans same)]

end PartitionStrategy

namespace PartitionFunction

theorem resolve_eq_ok_iff {name : String} {count : Int32} {f : PartitionFunction} :
    resolve name count = .ok f ↔ 0 < count.toInt ∧ f.count = count ∧
      Text.SameLetters (Text.trim name.toList) f.strategy.name.toList := by
  rw [← PartitionStrategy.find?_eq_some_iff]
  constructor
  · intro resolved
    refine ⟨count_of_resolve resolved ▸ f.positive, count_of_resolve resolved, ?_⟩
    unfold resolve at resolved
    split at resolved
    · split at resolved
      · cases resolved
        assumption
      · cases resolved
    · cases resolved
  · rintro ⟨positive, rfl, found⟩
    rw [resolve, dif_pos positive, found]

/-! ## Words -/

/-- The partition reckoned in machine words, none if a step leaves its word. -/
def partitionInWords (f : PartitionFunction) (value : String) :
    Option (Except DecodeError Int32) :=
  match f.strategy with
  | .modulo =>
    match Decimal.int64? (Text.trim value.toList) with
    | none => some (.error (.malformedNumber "partition value" value))
    | some n => do
      let r ← Word.euclideanRemainder? n f.count.toInt64
      let id ← Word.int32? r.toInt
      return .ok id
  | .murmur => do
    let id ← Word.remainder? (Hash.murmur2 (Text.utf8 value.toList) &&& 0x7fffffff) f.count
    return .ok id
  | .byteArray => ofHash (Hash.bytesHash (Text.utf8 value.toList))
  | .hashCode => ofHash (Hash.textHash value.toList)
where
  /-- The remainder of the magnitude of a hash. -/
  ofHash (h : Int32) : Option (Except DecodeError Int32) := do
    let count ← Word.uint32? f.count.toInt
    let r ← Word.remainderUnsigned? (Word.magnitude h) count
    let id ← Word.int32? r.toNat
    return .ok id

theorem ofHash_eq (f : PartitionFunction) (h : Int32) :
    ∃ id, partitionInWords.ofHash f h = some (.ok id) ∧
      id.toInt = h.toInt.natAbs % f.count.toInt := by
  obtain ⟨count, counted, same⟩ := Word.uint32?_eq f.positive
  have positive : 0 < count.toNat := by
    have := f.positive
    omega
  obtain ⟨r, left, remains⟩ := Word.remainderUnsigned?_eq (a := Word.magnitude h) positive
  have whole : (r.toNat : Int) = h.toInt.natAbs % f.count.toInt := by
    rw [remains, Word.toNat_magnitude, Int.natCast_mod, same]
  have below : (r.toNat : Int) < f.count.toInt := by
    rw [whole]
    exact Int.emod_lt_of_pos _ f.positive
  obtain ⟨id, narrowed, value⟩ := Word.int32?_eq (Int.natCast_nonneg r.toNat) below
  refine ⟨id, ?_, value.trans whole⟩
  rw [partitionInWords.ofHash, counted, Option.bind_eq_bind, Option.bind_some, left,
    Option.bind_eq_bind, Option.bind_some, narrowed]
  rfl

/-- No step of the reckoning leaves its word, and the partition is that of whole numbers. -/
theorem partitionInWords_eq (f : PartitionFunction) (value : String) :
    ∃ outcome, f.partitionInWords value = some outcome ∧
      outcome.map Int32.toInt = f.partition value := by
  unfold partitionInWords partition
  cases f.strategy with
  | modulo =>
    simp only [number]
    cases read : Decimal.int64? (Text.trim value.toList) with
    | none => exact ⟨_, rfl, rfl⟩
    | some n =>
      have positive : 0 < f.count.toInt64.toInt := f.count.toInt_toInt64 ▸ f.positive
      obtain ⟨r, left, remains⟩ := Word.euclideanRemainder?_eq (a := n) positive
      rw [Int32.toInt_toInt64] at remains
      have natural : 0 ≤ r.toInt := remains ▸ Int.emod_nonneg _ f.positive.ne'
      have below : r.toInt < f.count.toInt := remains ▸ Int.emod_lt_of_pos _ f.positive
      obtain ⟨id, narrowed, same⟩ := Word.int32?_eq natural below
      refine ⟨.ok id, by simp [left, narrowed], ?_⟩
      simp only [Except.map, same, remains]
  | murmur =>
    obtain ⟨id, left, remains⟩ := Word.remainder?_eq
      (Word.toInt_and_nonneg (Hash.murmur2 (Text.utf8 value.toList))) f.positive
    refine ⟨.ok id, by simp [left], ?_⟩
    simp only [number, Except.map, remains]
  | byteArray =>
    obtain ⟨id, left, remains⟩ := ofHash_eq f (Hash.bytesHash (Text.utf8 value.toList))
    refine ⟨.ok id, left, ?_⟩
    simp only [number, Except.map, remains]
  | hashCode =>
    obtain ⟨id, left, remains⟩ := ofHash_eq f (Hash.textHash value.toList)
    refine ⟨.ok id, left, ?_⟩
    simp only [number, Except.map, remains]

/-! ## Range -/

theorem partition_eq_error_iff {f : PartitionFunction} {value : String} {e : DecodeError} :
    f.partition value = .error e ↔ f.strategy = .modulo ∧
      e = .malformedNumber "partition value" value ∧
      ∀ n : Int64, ¬ Decimal.Spells (Text.trim value.toList) n.toInt := by
  simp only [← Decimal.int64?_eq_some_iff]
  unfold partition
  cases f.strategy with
  | modulo =>
    rw [number]
    cases read : Decimal.int64? (Text.trim value.toList) with
    | none => simp [Except.map, eq_comm]
    | some n => simp [Except.map]
  | murmur | byteArray | hashCode => simp [number, Except.map]

/-- A number by value is the residue of that value. -/
theorem partition_modulo {f : PartitionFunction} {value : String} {n : Int64}
    (byValue : f.strategy = .modulo) (spelt : Decimal.Spells (Text.trim value.toList) n.toInt) :
    f.partition value = .ok (n.toInt % f.count.toInt) := by
  rw [partition, byValue, number, Decimal.int64?_eq_some_iff.2 spelt]
  rfl

/-- A partition function is had for a positive count and the name of a strategy, in any case and
    with white space around it.  It bears that name and that count, and numbers a value from zero
    to below the count, in machine words as in whole numbers.  Only numbers by value can refuse
    one, if it spells no whole number of 64 bits; else the partition is the number modulo the
    count. -/
theorem partition_in_range (name : String) (count : Int32) :
    ((∃ f, resolve name count = .ok f) ↔ 0 < count.toInt ∧
      ∃ s : PartitionStrategy, Text.SameLetters (Text.trim name.toList) s.name.toList) ∧
    ∀ f, resolve name count = .ok f →
      Text.SameLetters (Text.trim name.toList) f.strategy.name.toList ∧ f.count = count ∧
      ∀ value,
        (∀ id, f.partition value = .ok id → 0 ≤ id ∧ id < count.toInt) ∧
        (∃ outcome, f.partitionInWords value = some outcome ∧
          outcome.map Int32.toInt = f.partition value) ∧
        (f.strategy ≠ .modulo → ∃ id, f.partition value = .ok id) ∧
        (f.strategy = .modulo →
          (∀ e, f.partition value = .error e ↔ e = .malformedNumber "partition value" value ∧
            ¬ ∃ n, -2 ^ 63 ≤ n ∧ n < 2 ^ 63 ∧ Decimal.Spells (Text.trim value.toList) n) ∧
          ∀ n, -2 ^ 63 ≤ n → n < 2 ^ 63 → Decimal.Spells (Text.trim value.toList) n →
            ∃ id, f.partition value = .ok id ∧ id ≡ n [ZMOD count.toInt]) := by
  refine ⟨?_, fun f resolved => ?_⟩
  · simp only [resolve_eq_ok_iff]
    constructor
    · rintro ⟨f, positive, _, named⟩
      exact ⟨positive, f.strategy, named⟩
    · rintro ⟨positive, strategy, named⟩
      exact ⟨⟨strategy, count, positive⟩, positive, rfl, named⟩
  obtain ⟨_, rfl, named⟩ := resolve_eq_ok_iff.1 resolved
  refine ⟨named, rfl, fun value =>
    ⟨fun _ => partition_bounds, partitionInWords_eq f value, fun other => ?_, fun byValue => ?_⟩⟩
  · cases outcome : f.partition value with
    | ok id => exact ⟨id, rfl⟩
    | error e => exact absurd (partition_eq_error_iff.1 outcome).1 other
  -- the numbers of 64 bits are the words of 64 bits
  have words : (∃ n, -2 ^ 63 ≤ n ∧ n < 2 ^ 63 ∧ Decimal.Spells (Text.trim value.toList) n) ↔
      ∃ n : Int64, Decimal.Spells (Text.trim value.toList) n.toInt := by
    constructor
    · rintro ⟨n, lower, upper, spelt⟩
      exact ⟨.ofInt n, (Int64.toInt_ofInt_of_le lower upper).symm ▸ spelt⟩
    · rintro ⟨n, spelt⟩
      exact ⟨n.toInt, n.le_toInt, n.toInt_lt, spelt⟩
  refine ⟨fun e => ?_, fun n lower upper spelt => ?_⟩
  · rw [partition_eq_error_iff, words, not_exists]
    exact and_iff_right byValue
  · have same := Int64.toInt_ofInt_of_le lower upper
    have residue := partition_modulo (n := .ofInt n) byValue (same.symm ▸ spelt)
    exact ⟨_, residue, same.symm ▸ Int.mod_modEq ..⟩

/-- A text whose hash is the least word has a partition as well. -/
example : Hash.textHash "polygenelubricants".toList = Int32.minValue := by decide +kernel

end PartitionFunction

end SegmentCatalog
