import Mathlib.Algebra.BigOperators.Fin
import Mathlib.Tactic.Ring
import SegmentCatalog.Proofs.PartitionFunctions
import SegmentCatalog.Proofs.Text.CodeUnits
import SegmentCatalog.Proofs.Values

/-! # Polynomial hashes as sums

`Hash.polynomial31` multiplies by 31 and adds, term after term, in words that wrap round.  Without
the wrapping this is a sum of the terms, each times a power of 31 (`Hash.powerSum`), and the hash
is that sum, reduced to a signed word once and at the end (`Hash.toInt_polynomial31`).

Two partition functions number a text by the magnitude of such a hash, of its units of 16 bits and
of its bytes (`PartitionFunction.partition_polynomial`).
-/

namespace SegmentCatalog

namespace Hash

/-! ## Sums of powers -/

/-- The terms as coefficients of the powers of 31, the last one that of the power zero. -/
def powerSum (terms : List Int) : Int :=
  ∑ i : Fin terms.length, terms[i] * 31 ^ (terms.length - 1 - i)

@[simp] theorem powerSum_nil : powerSum [] = 0 := rfl

theorem powerSum_cons (x : Int) (terms : List Int) :
    powerSum (x :: terms) = x * 31 ^ terms.length + powerSum terms := by
  simp only [powerSum, List.length_cons]
  rw [Fin.sum_univ_succ]
  congr 1
  refine Finset.sum_congr rfl fun i _ => ?_
  have power : terms.length + 1 - 1 - ((i : Nat) + 1) = terms.length - 1 - i := by omega
  simp only [Fin.getElem_fin, Fin.val_succ, List.getElem_cons_succ, power]

/-- Wrapping at every step comes to the same as wrapping once. -/
theorem toInt_polynomial31 (start : Int32) (terms : List Int32) :
    (polynomial31 start terms).toInt =
      (start.toInt * 31 ^ terms.length + powerSum (terms.map Int32.toInt)).bmod (2 ^ 32) := by
  induction terms generalizing start with
  | nil => simp [polynomial31]
  | cons x terms ih =>
    have step : (start * 31 + x).toInt = (start.toInt * 31 + x.toInt).bmod (2 ^ 32) := by
      rw [Int32.toInt_add, Int32.toInt_mul, Int.bmod_add_bmod]
      rfl
    have whole : (start.toInt * 31 + x.toInt) * 31 ^ terms.length +
          powerSum (terms.map Int32.toInt) =
        start.toInt * 31 ^ (x :: terms).length + powerSum ((x :: terms).map Int32.toInt) := by
      rw [List.map_cons, powerSum_cons, List.length_map, List.length_cons]
      ring
    calc (polynomial31 start (x :: terms)).toInt
        = (polynomial31 (start * 31 + x) terms).toInt := rfl
      _ = ((start.toInt * 31 + x.toInt).bmod (2 ^ 32) * 31 ^ terms.length +
            powerSum (terms.map Int32.toInt)).bmod (2 ^ 32) := by rw [ih, step]
      _ = ((start.toInt * 31 + x.toInt) * 31 ^ terms.length +
            powerSum (terms.map Int32.toInt)).bmod (2 ^ 32) := by
        rw [← Int.bmod_add_bmod, Int.bmod_mul_bmod, Int.bmod_add_bmod]
      _ = _ := by rw [whole]

/-! ## Texts -/

/-- A unit of 16 bits is not negative as a signed word. -/
theorem toInt_unit (unit : UInt16) : unit.toUInt32.toInt32.toInt = unit.toNat := by
  have small := unit.toNat_lt
  exact BitVec.toInt_eq_toNat_of_lt (x := unit.toUInt32.toBitVec) (by simp; omega)

theorem toInt_textHash {cs : List Char} {units : List UInt16} (encoded : Text.Utf16 cs units) :
    (textHash cs).toInt = (powerSum (units.map fun unit => (unit.toNat : Int))).bmod (2 ^ 32) := by
  rw [textHash, ← encoded.eq_utf16, toInt_polynomial31, List.map_map]
  simp [Function.comp_def, toInt_unit]

theorem toInt_bytesHash (bytes : List UInt8) :
    (bytesHash bytes).toInt =
      (31 ^ bytes.length + powerSum (bytes.map fun byte => byte.toInt8.toInt)).bmod (2 ^ 32) := by
  rw [bytesHash, toInt_polynomial31, List.map_map]
  simp [Function.comp_def]

end Hash

namespace PartitionFunction

variable {f : PartitionFunction} {value : String}

theorem inWords_of_partition {id : Int} (numbered : f.partition value = .ok id) :
    ∃ word : Int32, f.partitionInWords value = some (.ok word) ∧ word.toInt = id := by
  obtain ⟨outcome, reckoned, same⟩ := f.partitionInWords_eq value
  rw [numbered] at same
  cases outcome with
  | ok word => exact ⟨word, reckoned, Except.ok.inj same⟩
  | error e => cases same

/-- The hash of the units of a text, and of the bytes that it is stored as, without their sign and
    modulo the count.  The magnitude is that of a whole number, so the least word has one, too. -/
theorem partition_polynomial {count : Int32} {units : List UInt16} (positive : 0 < count.toInt)
    (encoded : Text.Utf16 value.toList units) :
    (∃ f id, resolve "HashCode" count = .ok f ∧ f.partitionInWords value = some (.ok id) ∧
      f.partition value = .ok id.toInt ∧
      id.toInt = ((Hash.powerSum (units.map fun unit => (unit.toNat : Int))).bmod
        (2 ^ 32)).natAbs % count.toInt) ∧
    ∃ f id, resolve "ByteArray" count = .ok f ∧ f.partitionInWords value = some (.ok id) ∧
      f.partition value = .ok id.toInt ∧
      id.toInt = ((31 ^ (Text.storedBytes value).length +
        Hash.powerSum ((Text.storedBytes value).map fun byte => byte.toInt8.toInt)).bmod
          (2 ^ 32)).natAbs % count.toInt := by
  constructor
  · let f : PartitionFunction := ⟨.hashCode, count, positive⟩
    have numbered : f.partition value = .ok _ := rfl
    obtain ⟨id, reckoned, same⟩ := inWords_of_partition numbered
    refine ⟨f, id, f.resolve_name, reckoned, by rw [numbered, same], ?_⟩
    rw [same, Hash.toInt_textHash encoded]
  · let f : PartitionFunction := ⟨.byteArray, count, positive⟩
    have numbered : f.partition value = .ok _ := rfl
    obtain ⟨id, reckoned, same⟩ := inWords_of_partition numbered
    refine ⟨f, id, f.resolve_name, reckoned, by rw [numbered, same], ?_⟩
    rw [same, Hash.toInt_bytesHash, Text.storedBytes_eq_utf8]

/-- A text whose hash is the least word, without its sign one more than the largest. -/
theorem partition_polynomial_leastWord :
    0 < (7 : Int32).toInt ∧
    Text.Utf16 "polygenelubricants".toList (Text.utf16 "polygenelubricants".toList) ∧
    (Hash.textHash "polygenelubricants".toList).toInt = -2 ^ 31 ∧
    ∃ f id, resolve "HashCode" 7 = .ok f ∧
      f.partitionInWords "polygenelubricants" = some (.ok id) ∧ id.toInt = 2 ^ 31 % 7 := by
  have encoded := Text.utf16_encodes "polygenelubricants".toList
  have positive : 0 < (7 : Int32).toInt := by decide
  have hash : Hash.textHash "polygenelubricants".toList = Int32.minValue := by decide +kernel
  obtain ⟨⟨f, id, found, reckoned, _, same⟩, _⟩ := partition_polynomial positive encoded
  rw [← Hash.toInt_textHash encoded, hash] at same
  exact ⟨positive, encoded, by rw [hash]; rfl, f, id, found, reckoned, same⟩

end PartitionFunction

end SegmentCatalog
