import SegmentCatalog.DecodeError
import SegmentCatalog.Partition.Hash
import SegmentCatalog.Text.Blank
import SegmentCatalog.Text.Case

/-! # Partition functions

Rows are spread over partitions by a function of a column's value, so that a reader can pass
over segments that hold none of the partitions it wants.

* `PartitionStrategy` lists the ways to number a value;
* `PartitionFunction` is a strategy and a positive number of partitions;
  `PartitionFunction.resolve` finds one by name;
* `PartitionFunction.partition` is the partition of a value.

Every partition lies between zero and the number of partitions, which is why the count is
positive by construction.
-/

namespace SegmentCatalog

inductive PartitionStrategy where
  /-- The value itself, which must be a whole number. -/
  | modulo
  /-- The Murmur hash of the UTF-8 bytes, without its sign bit. -/
  | murmur
  /-- The magnitude of the polynomial hash of the UTF-8 bytes. -/
  | byteArray
  /-- The magnitude of the polynomial hash of the UTF-16 units. -/
  | hashCode
  deriving DecidableEq

namespace PartitionStrategy

def all : List PartitionStrategy := [.modulo, .murmur, .byteArray, .hashCode]

def name : PartitionStrategy → String
  | modulo => "Modulo"
  | murmur => "Murmur"
  | byteArray => "ByteArray"
  | hashCode => "HashCode"

/-- The strategy with a name, letter case and surrounding white space apart. -/
def find? (text : String) : Option PartitionStrategy :=
  let word := Text.lower (Text.trim text.toList)
  all.find? fun strategy => Text.lower strategy.name.toList == word

end PartitionStrategy

structure PartitionFunction where
  strategy : PartitionStrategy
  count : Int32
  positive : 0 < count.toInt
  deriving DecidableEq

namespace PartitionFunction

/-- The function with a name and a number of partitions.  The number is looked at first. -/
def resolve (name : String) (count : Int32) : Except DecodeError PartitionFunction :=
  if positive : 0 < count.toInt then
    match PartitionStrategy.find? name with
    | some strategy => .ok { strategy, count, positive }
    | none => .error (.unknownPartitionFunction name)
  else .error (.invalidPartitionCount count)

/-- The number that a strategy takes the remainder of. -/
def number : PartitionStrategy → String → Except DecodeError Int
  | .modulo, value =>
    match Decimal.int64? (Text.trim value.toList) with
    | some n => .ok n.toInt
    | none => .error (.malformedNumber "partition value" value)
  | .murmur, value => .ok (Hash.murmur2 (Text.utf8 value.toList) &&& 0x7fffffff).toInt
  | .byteArray, value => .ok (Hash.bytesHash (Text.utf8 value.toList)).toInt.natAbs
  | .hashCode, value => .ok (Hash.textHash value.toList).toInt.natAbs

/-- The partition that holds `value`. -/
def partition (f : PartitionFunction) (value : String) : Except DecodeError Int :=
  (number f.strategy value).map (· % f.count.toInt)

theorem partition_bounds {f : PartitionFunction} {value : String} {id : Int}
    (h : f.partition value = .ok id) : 0 ≤ id ∧ id < f.count.toInt := by
  unfold partition at h
  cases found : number f.strategy value with
  | error e => rw [found] at h; cases h
  | ok n =>
    rw [found] at h
    cases h
    have := f.positive
    exact ⟨Int.emod_nonneg _ (by omega), Int.emod_lt_of_pos _ this⟩

end PartitionFunction

end SegmentCatalog
