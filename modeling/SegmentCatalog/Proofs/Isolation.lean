import SegmentCatalog.Proofs.Decoding
import SegmentCatalog.Proofs.Keys

/-! # Columns do not touch each other

The metadata of a column is read from the keys of that column and from two keys of the segment.
Configurations that agree at these keys give the same outcome (`Column.decode_congr`), and none
of them is a key of another column, however the two columns are called; so whatever becomes of
the other column's properties, the outcome stays (`Column.decode_isolated`).

`Config.AgreeAt` is the agreement at one key.  Each way to read a key respects it, hence each
step of decoding does.
-/

namespace SegmentCatalog

/-! ## Agreement at a key -/

namespace Config

/-- Both configurations hold the same under a key, in every view of its value. -/
structure AgreeAt (first second : Config) (key : String) : Prop where
  raw : first.raw? key = second.raw? key
  text : first.text? key = second.text? key
  list : first.list key = second.list key

namespace AgreeAt

variable {first second : Config} {key : String}

theorem contains (agree : first.AgreeAt second key) : first.contains key = second.contains key := by
  rw [Config.contains, Config.contains, agree.raw]

theorem textOr (agree : first.AgreeAt second key) (default : String) :
    first.textOr key default = second.textOr key default := by
  rw [Config.textOr, Config.textOr, agree.text]

theorem required (agree : first.AgreeAt second key) : first.required key = second.required key := by
  rw [Config.required, Config.required, agree.text]

theorem int (agree : first.AgreeAt second key) : first.int key = second.int key := by
  rw [Config.int, Config.int, agree.required]

theorem boolean (agree : first.AgreeAt second key) : first.boolean key = second.boolean key := by
  rw [Config.boolean, Config.boolean, agree.required]

theorem booleanOr (agree : first.AgreeAt second key) (default : Bool) :
    first.booleanOr key default = second.booleanOr key default := by
  rw [Config.booleanOr, Config.booleanOr, agree.text]

theorem decodeMember (agree : first.AgreeAt second key) (α : Type) [Vocabulary α] :
    Column.decodeMember α first key = Column.decodeMember α second key := by
  rw [Column.decodeMember, Column.decodeMember, agree.required]

end AgreeAt

end Config

namespace PlainMap

variable {m m' : PlainMap} {key : String}

/-- A map of plain texts has one view of a value. -/
theorem agreeAt (same : m.find? key = m'.find? key) : m.config.AgreeAt m'.config key where
  raw := same
  text := same
  list := by
    show m.list key = m'.list key
    rw [list, list, same]

end PlainMap

/-! ## Agreement at the keys of a column -/

namespace Column

variable {first second : Config} {column : String}

theorem decodePadding_congr (agree : first.AgreeAt second SegmentKey.paddingCharacter.name) :
    decodePadding first = decodePadding second := by
  simp only [decodePadding, agree.contains, agree.textOr]

theorem decodeBounds_congr (agree : ∀ p : Property, first.AgreeAt second (p.key column))
    (type : DataType) : decodeBounds first column type = decodeBounds second column type := by
  simp only [decodeBounds, (agree _).raw]

theorem decodePartitioning_congr (agree : ∀ p : Property, first.AgreeAt second (p.key column)) :
    decodePartitioning first column = decodePartitioning second column := by
  simp only [decodePartitioning, (agree _).text, (agree _).int, (agree _).list]

/-- Decoding a column looks at its own properties, at the time unit and at the padding
    character. -/
theorem decode_congr (timeUnit : first.AgreeAt second SegmentKey.timeUnit.name)
    (padding : first.AgreeAt second SegmentKey.paddingCharacter.name)
    (own : ∀ p : Property, first.AgreeAt second (p.key column)) :
    decode first column = decode second column := by
  simp only [decode, (own _).decodeMember, timeUnit.textOr, (own _).int, (own _).boolean,
    (own _).booleanOr, decodePadding_congr padding, decodeBounds_congr own,
    decodePartitioning_congr own, (own _).text, (own _).textOr]

end Column

/-! ## Changes to another column -/

namespace PlainMap

/-- Gives a property of a column a text, or takes away the one it has. -/
def record (m : PlainMap) (column : String) : Property × Option String → PlainMap
  | (p, some text) => m.insert (p.key column) text
  | (p, none) => m.erase (p.key column)

def recordAll (m : PlainMap) (column : String) (changes : List (Property × Option String)) :
    PlainMap :=
  changes.foldl (fun m change => m.record column change) m

/-- The maps are the same apart from the properties of a column. -/
def SameApartFrom (column : String) (m m' : PlainMap) : Prop :=
  ∀ key, (∀ p : Property, key ≠ p.key column) → m.find? key = m'.find? key

variable {column : String}

theorem sameApartFrom_record (m : PlainMap) (column : String)
    (change : Property × Option String) : SameApartFrom column (m.record column change) m := by
  intro key other
  obtain ⟨p, text⟩ := change
  cases text with
  | some text => rw [record, OrderedMap.find?_insert, if_neg (other p)]
  | none => rw [record, OrderedMap.find?_erase, if_neg (other p)]

theorem sameApartFrom_recordAll (m : PlainMap) (column : String)
    (changes : List (Property × Option String)) :
    SameApartFrom column (m.recordAll column changes) m := by
  induction changes generalizing m with
  | nil => exact fun _ _ => rfl
  | cons change changes ih =>
    intro key other
    exact (ih (m.record column change) key other).trans
      (sameApartFrom_record m column change key other)

end PlainMap

namespace Column

/-- No property of another column, and no key of the segment, is a property of this one. -/
theorem decode_eq_of_sameApartFrom {m m' : PlainMap} {column other : String}
    (apart : column ≠ other) (same : PlainMap.SameApartFrom other m m') :
    decode m.config column = decode m'.config column := by
  have foreign : ∀ k : SegmentKey, m.find? k.name = m'.find? k.name := by
    intro k
    apply same
    intro p
    exact (p.key_ne_segmentKey other k).symm
  have own : ∀ p : Property, m.find? (p.key column) = m'.find? (p.key column) := by
    intro p
    apply same
    intro q shared
    exact apart (Property.key_eq_key_iff.1 shared).2
  exact decode_congr (PlainMap.agreeAt (foreign _)) (PlainMap.agreeAt (foreign _))
    fun p => PlainMap.agreeAt (own p)

/-- Two maps that agree at the properties of a column, at the time unit and at the padding
    character give the same outcome for that column, be it metadata or an error.  So do two maps
    that differ in the properties of another column only, and the outcome is the one before,
    whichever properties of another column have been set anew, changed or taken away. -/
theorem decode_isolated (column : String) :
    (∀ m m' : PlainMap,
      m.find? SegmentKey.timeUnit.name = m'.find? SegmentKey.timeUnit.name →
      m.find? SegmentKey.paddingCharacter.name = m'.find? SegmentKey.paddingCharacter.name →
      (∀ p : Property, m.find? (p.key column) = m'.find? (p.key column)) →
      decode m.config column = decode m'.config column) ∧
    ∀ other, column ≠ other →
      (∀ m m' : PlainMap, PlainMap.SameApartFrom other m m' →
        decode m.config column = decode m'.config column) ∧
      ∀ (m : PlainMap) changes,
        decode (m.recordAll other changes).config column = decode m.config column := by
  refine ⟨?_, ?_⟩
  · intro m m' timeUnit padding own
    exact decode_congr (PlainMap.agreeAt timeUnit) (PlainMap.agreeAt padding)
      fun p => PlainMap.agreeAt (own p)
  · intro other apart
    refine ⟨fun m m' => decode_eq_of_sameApartFrom apart, ?_⟩
    intro m changes
    exact decode_eq_of_sameApartFrom apart (PlainMap.sameApartFrom_recordAll m other changes)

/-- One name begins with the other, or is the name of its column with a property behind it. -/
theorem decode_isolated_dotted :
    decode ((sample.recordAll "t" [(.dataType, some "INT"), (.isSorted, none)]).recordAll
      "t.x.dataType" [(.dataType, some "INT"), (.minValue, none)]).config "t.x" =
      .ok sampleColumn := by
  obtain ⟨_, isolated⟩ := decode_isolated "t.x"
  rw [(isolated "t.x.dataType" (by decide)).2, (isolated "t" (by decide)).2, decode_sample]

end Column

end SegmentCatalog
