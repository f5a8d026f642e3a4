import SegmentCatalog.Literal
import SegmentCatalog.Partition.Function
import SegmentCatalog.Proofs.Binary.RoundTrip
import SegmentCatalog.Proofs.PartitionSets
import SegmentCatalog.Scalar

/-! # Values that are read back

Every kind of value that a property may hold has a text that is read as that value: whole
numbers, truth values, keywords, typed values, partition functions and sets of partitions.

Typed values come back as equal ones only, for there are many numbers that are no numbers and
one text for them.
-/

namespace SegmentCatalog

/-! ## Words and numbers -/

namespace Literal

theorem int32_text (key : String) (n : Int32) : int32 key (Decimal.text n.toInt) = .ok n := by
  rw [int32, Decimal.toList_text, Decimal.trim_ofInt, Decimal.int32?_ofInt]

theorem boolean_ofBool (key : String) (b : Bool) : boolean key (Text.ofBool b) = .ok b := by
  cases b <;> rfl

theorem member_name {α : Type} [Vocabulary α] (x : α) : member α (Vocabulary.name x) = .ok x := by
  rw [member, Vocabulary.find?_name]

theorem unescaped_spelling (c : Char) :
    unescaped (Text.spelling c) = .ok (String.singleton c) := by
  rw [unescaped, Text.unescape?_spelling]
  rfl

end Literal

/-! ## Typed values -/

namespace Scalar

/-- A value that may be a bound is read back as an equal value. -/
theorem parse_display (column property : String) (x : Scalar) :
    ∃ y, parse x.dataType column property x.display = .ok y ∧ (y == x) = true := by
  cases x with
  | int n =>
    refine ⟨.int n, ?_, beq_self_eq_true n⟩
    simp only [dataType, display, parse, Decimal.toList_text, Decimal.trim_ofInt,
      Decimal.int32?_ofInt]
  | long n =>
    refine ⟨.long n, ?_, beq_self_eq_true n⟩
    simp only [dataType, display, parse, Decimal.toList_text, Decimal.trim_ofInt,
      Decimal.int64?_ofInt]
  | float x =>
    obtain ⟨y, read, same⟩ := Binary.ofText?_displayChars x
    refine ⟨.float y, ?_, same⟩
    simp only [dataType, display, parse, Binary.display, String.toList_ofList,
      Binary.trim_displayChars, read]
  | double x =>
    obtain ⟨y, read, same⟩ := Binary.ofText?_displayChars x
    refine ⟨.double y, ?_, same⟩
    simp only [dataType, display, parse, Binary.display, String.toList_ofList,
      Binary.trim_displayChars, read]
  | string s => exact ⟨.string s, rfl, beq_self_eq_true s⟩
  | bytes b =>
    refine ⟨.bytes b, ?_, beq_self_eq_true b⟩
    simp only [dataType, display, parse, String.toList_ofList, Text.trim_hex, Text.unhex?_hex]

end Scalar

/-! ## Partitionings -/

theorem PartitionStrategy.find?_name (strategy : PartitionStrategy) :
    find? strategy.name = some strategy := by
  cases strategy <;> rfl

theorem PartitionFunction.resolve_name (f : PartitionFunction) :
    resolve f.strategy.name f.count = .ok f := by
  rw [resolve, dif_pos f.positive, PartitionStrategy.find?_name]

namespace PartitionEntry

theorem parse_text (id : Int32) :
    parse (Decimal.text id.toInt) = .ok (some { first := id, last := id }) := by
  -- the text of a number starts with a sign or a digit, never with a bracket
  obtain ⟨c, rest, shape⟩ := List.exists_cons_of_ne_nil (Decimal.ofInt_ne_nil id.toInt)
  have plain : c ≠ '[' := by
    have member : c ∈ Decimal.ofInt id.toInt := by
      rw [shape]
      exact List.mem_cons_self ..
    rintro rfl
    exact absurd (Decimal.mem_ofInt member) (by decide)
  have whole : bracketed? (Decimal.ofInt id.toInt) = none := by
    rw [shape]
    unfold bracketed?
    split
    · cases ‹_ = _›
      exact absurd rfl plain
    · rfl
  have read : read? (Decimal.ofInt id.toInt) = some { first := id, last := id } := by
    rw [read?, whole, Decimal.int32?_ofInt]
    rfl
  have filled : (Decimal.ofInt id.toInt).isEmpty = false := by
    rw [shape]
    rfl
  simp only [parse, Decimal.toList_text, Decimal.trim_ofInt, filled, read]
  rfl

theorem members_singleton (id : Int32) : members { first := id, last := id } = [id] := by
  simp [members]

end PartitionEntry

namespace PartitionIds

/-- The text of a set of partitions: its members, joined by commas. -/
def text (ids : PartitionIds) : String :=
  ",".intercalate (ids.map fun id => Decimal.text id.toInt)

theorem mapM_parse_text (ids : PartitionIds) :
    (ids.map fun id => Decimal.text id.toInt).mapM PartitionEntry.parse =
      .ok (ids.map fun id => some { first := id, last := id }) := by
  induction ids with
  | nil => rfl
  | cons id ids ih =>
    rw [List.map_cons, List.mapM_cons, PartitionEntry.parse_text, ih]
    rfl

theorem parse_texts {ids : PartitionIds} (rising : ids.Ascending) :
    parse (ids.map fun id => Decimal.text id.toInt) = .ok ids := by
  rw [parse, mapM_parse_text]
  change Except.ok _ = _
  rw [List.filterMap_map, List.foldl_filterMap]
  simp only [Function.comp_apply, id_eq, PartitionEntry.members_singleton]
  rw [foldl_union_singletons rising]

/-- The text of a set, cut at its commas, gives back the texts of its members; that of the empty
    set gives one empty part. -/
theorem cutAt_text (ids : PartitionIds) :
    (Text.cutAt (· == ',') ids.text.toList).map (fun part => String.ofList (Text.trim part)) =
      if ids = [] then [""] else ids.map fun id => Decimal.text id.toInt := by
  split
  · subst ids
    rfl
  -- no comma is part of a number
  · have solid : ∀ piece ∈ ids.map fun id => Decimal.ofInt id.toInt, ∀ c ∈ piece,
        (c == ',') = false := by
      intro piece member c inside
      obtain ⟨id, _, rfl⟩ := List.mem_map.1 member
      rcases Decimal.mem_ofInt inside with rfl | digit
      · decide
      · exact beq_false_of_ne fun comma => by subst comma; cases digit
    have chars : ids.text.toList =
        [','].intercalate (ids.map fun id => Decimal.ofInt id.toInt) := by
      rw [text, String.toList_intercalate, List.map_map]
      congr 1
      exact List.map_congr_left fun id _ => Decimal.toList_text _
    rw [chars, Text.cutAt_intercalate (by decide) (by simpa using ‹ids ≠ []›) solid, List.map_map]
    refine List.map_congr_left fun id _ => ?_
    rw [Function.comp_apply, Decimal.trim_ofInt]
    rfl

theorem parse_cutAt_text {ids : PartitionIds} (rising : ids.Ascending) :
    parse ((Text.cutAt (· == ',') ids.text.toList).map fun part =>
      String.ofList (Text.trim part)) = .ok ids := by
  rw [cutAt_text]
  split
  · subst ids
    rfl
  · exact parse_texts rising

end PartitionIds

end SegmentCatalog
