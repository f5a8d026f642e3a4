import SegmentCatalog.DecodeError
import SegmentCatalog.Text.Blank

/-! # Sets of partitions

A segment records which partitions of a column it holds, as a list of entries: single
numbers, and ranges in brackets with both ends included.

* `PartitionEntry.parse` reads one entry;
* `PartitionIds` is a set of partitions, kept as its members in rising order;
* `PartitionIds.parse` is the union of what a list of entries stands for.
-/

namespace SegmentCatalog

/-- What an entry stands for: the numbers from `first` to `last`. -/
structure PartitionEntry where
  first : Int32
  last : Int32
  deriving DecidableEq

namespace PartitionEntry

def bracketed? : List Char → Option (List Char)
  | '[' :: rest => if rest.getLast? = some ']' then some rest.dropLast else none
  | _ => none

/-- The numbers from the first to the second of two words.  The upper end has to be below the
    largest number of 32 bits. -/
def range? (cs : List Char) : Option PartitionEntry :=
  match Text.words cs with
  | [a, b] => do
    let first ← Decimal.int32? a
    let last ← Decimal.int32? b
    if first.toInt ≤ last.toInt ∧ last ≠ Int32.maxValue then some { first, last } else none
  | _ => none

/-- Reads an entry that has no white space around it. -/
def read? (cs : List Char) : Option PartitionEntry :=
  match bracketed? cs with
  | some inner => range? inner
  | none => (Decimal.int32? cs).map fun n => { first := n, last := n }

/-- Reads an entry; an empty one stands for nothing. -/
def parse (text : String) : Except DecodeError (Option PartitionEntry) :=
  let cs := Text.trim text.toList
  if cs.isEmpty then .ok none
  else match read? cs with
    | some entry => .ok (some entry)
    | none => .error (.malformedPartitionValue (.ofList cs))

/-- The numbers of an entry in rising order. -/
def members (entry : PartitionEntry) : List Int32 :=
  (List.range (entry.last.toInt - entry.first.toInt + 1).toNat).map fun (i : Nat) =>
    Int32.ofInt (entry.first.toInt + i)

end PartitionEntry

/-- A set of partitions, in rising order. -/
abbrev PartitionIds := List Int32

namespace PartitionIds

/-- The union of two lists in rising order, in rising order. -/
def union : List Int32 → List Int32 → List Int32
  | [], ids => ids
  | ids, [] => ids
  | a :: as, b :: bs =>
    if a.toInt < b.toInt then a :: union as (b :: bs)
    else if b.toInt < a.toInt then b :: union (a :: as) bs
    else a :: union as bs
termination_by as bs => as.length + bs.length

/-- The partitions that a list of entries stands for, or the error of the first one that is
    refused. -/
def parse (values : List String) : Except DecodeError PartitionIds := do
  let entries ← values.mapM PartitionEntry.parse
  return (entries.filterMap id).foldl (fun ids entry => union ids entry.members) []

end PartitionIds

end SegmentCatalog
