import SegmentCatalog.Config.Keys

/-! # Keys are told apart

The key of a column's property is the column's name, a dot and the name of the property.  Column
names may hold dots as well, names of properties hold none: the property is what stands behind
the last dot of its key, and the column what stands in front of it.

* `Property.key_eq_key_iff`: a key belongs to one property of one column;
* `Property.key_ne_segmentKey`: no column, whatever its name, has a key of the segment.
-/

namespace SegmentCatalog

namespace Property

def all : List Property :=
  [cardinality, totalDocs, dataType, bitsPerElement, dictionaryElementSize, columnType, isSorted,
    hasNullValue, hasDictionary, hasInvertedIndex, hasFSTIndex, isSingleValued,
    maxMultiValueElements, totalNumberOfEntries, isAutoGenerated, defaultNullValue, minValue,
    maxValue, partitionFunction, numPartitions, partitionValues, dateTimeFormat,
    dateTimeGranularity, textIndexType]

theorem mem_all (p : Property) : p ∈ all := by cases p <;> decide

theorem name_injective {p q : Property} (same : p.name = q.name) : p = q := by
  -- the first property of that name is the property itself
  have found : ∀ p : Property, (all.find? fun other => other.name == p.name) = some p := by
    intro p
    cases p <;> rfl
  have first := found p
  rw [same, found q] at first
  exact (Option.some.inj first).symm

theorem key_injective {p q : Property} {column : String} (same : p.key column = q.key column) :
    p = q :=
  name_injective (String.append_right_inj _ |>.1 same)

theorem toList_key (p : Property) (column : String) :
    (p.key column).toList = column.toList ++ '.' :: p.name.toList := by
  simp [key, columnKey]

theorem undotted_name (p : Property) : p.name.toList.all (· != '.') = true := by
  cases p <;> rfl

/-- The name of the property is what stands behind the last dot of its key. -/
theorem takeWhile_reverse_key (p : Property) (column : String) :
    (p.key column).toList.reverse.takeWhile (· != '.') = p.name.toList.reverse := by
  have undotted : ∀ c ∈ p.name.toList.reverse, (c != '.') = true := fun c member =>
    List.all_eq_true.1 p.undotted_name c (List.mem_reverse.1 member)
  rw [toList_key, List.reverse_append, List.reverse_cons, List.append_assoc,
    List.takeWhile_append_of_pos undotted]
  simp

theorem key_ne_segmentKey (p : Property) (column : String) (k : SegmentKey) :
    p.key column ≠ k.name := by
  intro same
  have behind := p.takeWhile_reverse_key column
  rw [same] at behind
  -- what stands behind the last dot of a key of the segment is the name of no property
  have foreign : (all.any fun q => q.name.toList.reverse ==
      k.name.toList.reverse.takeWhile (· != '.')) = false := by
    cases k <;> rfl
  exact List.any_eq_false.1 foreign p (mem_all p) (beq_iff_eq.2 behind.symm)

theorem key_eq_key_iff {p q : Property} {column other : String} :
    p.key column = q.key other ↔ p = q ∧ column = other := by
  constructor
  · intro same
    have behind := p.takeWhile_reverse_key column
    rw [same, takeWhile_reverse_key, List.reverse_inj, String.toList_inj] at behind
    obtain rfl := name_injective behind.symm
    exact ⟨rfl, (String.append_left_inj _).1 ((String.append_left_inj _).1 same)⟩
  · rintro ⟨rfl, rfl⟩
    rfl

end Property

end SegmentCatalog
