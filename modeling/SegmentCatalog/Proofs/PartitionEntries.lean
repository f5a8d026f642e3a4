import Mathlib.Data.List.Basic
import SegmentCatalog.Partition.Ids
import SegmentCatalog.Proofs.Decimal.Literals

/-! # Entries of partition lists

Which texts are read as an entry, said without the reader: `PartitionEntry.WellFormed`, about the
text without the white space around it.  These are read (`PartitionEntry.exists_parse_iff`), and
all others are refused (`PartitionEntry.parse_eq_error_iff`).
-/

namespace SegmentCatalog.PartitionEntry

/-- An entry may be empty, a number of 32 bits, or two of them in brackets, in order and with white
    space between them, of which the second is below the largest number of 32 bits. -/
inductive WellFormed : List Char → Prop
  | nothing : WellFormed []
  | single {cs : List Char} {n : Int32} : Decimal.Spells cs n.toInt → WellFormed cs
  | range {inner a b : List Char} {first last : Int32} : Text.words inner = [a, b] →
      Decimal.Spells a first.toInt → Decimal.Spells b last.toInt → first.toInt ≤ last.toInt →
      last ≠ Int32.maxValue → WellFormed ('[' :: inner ++ [']'])

theorem bracketed?_eq_some_iff {cs inner : List Char} :
    bracketed? cs = some inner ↔ cs = '[' :: inner ++ [']'] := by
  constructor
  · intro found
    unfold bracketed? at found
    split at found
    · split at found
      · rename_i last
        cases found
        rw [List.cons_append, List.dropLast_append_getLast? _ last]
      · cases found
    · cases found
  · intro shape
    simp [shape, bracketed?]

/-- A number does not start with a bracket. -/
theorem bracketed?_of_spells {cs : List Char} {n : Int} (spelt : Decimal.Spells cs n) :
    bracketed? cs = none := by
  cases shape : bracketed? cs with
  | none => rfl
  | some inner =>
    rw [bracketed?_eq_some_iff, List.cons_append] at shape
    subst shape
    cases spelt with
    | plain digits => exact absurd digits.head (by decide)

theorem range?_eq_some_iff {cs : List Char} {entry : PartitionEntry} :
    range? cs = some entry ↔ ∃ a b, Text.words cs = [a, b] ∧
      Decimal.Spells a entry.first.toInt ∧ Decimal.Spells b entry.last.toInt ∧
      entry.first.toInt ≤ entry.last.toInt ∧ entry.last ≠ Int32.maxValue := by
  simp only [← Decimal.int32?_eq_some_iff]
  unfold range?
  constructor
  · intro found
    split at found
    · rename_i a b shape
      simp only [Option.bind_eq_bind, Option.bind_eq_some_iff] at found
      obtain ⟨first, isFirst, last, isLast, fits⟩ := found
      split at fits
      · rename_i bounds
        cases fits
        exact ⟨a, b, shape, isFirst, isLast, bounds⟩
      · cases fits
    · cases found
  · intro ⟨a, b, shape, isFirst, isLast, bounds⟩
    simp [shape, isFirst, isLast, bounds]

theorem wellFormed_iff {cs : List Char} :
    WellFormed cs ↔ cs = [] ∨ ∃ entry, read? cs = some entry := by
  constructor
  · intro formed
    cases formed with
    | nothing => exact .inl rfl
    | single spelt =>
      right
      simp [read?, bracketed?_of_spells spelt, Decimal.int32?_eq_some_iff.2 spelt]
    | range words isFirst isLast ordered below =>
      right
      rw [read?, bracketed?_eq_some_iff.2 rfl]
      exact ⟨⟨_, _⟩, range?_eq_some_iff.2 ⟨_, _, words, isFirst, isLast, ordered, below⟩⟩
  · intro read
    cases read with
    | inl empty => exact empty ▸ .nothing
    | inr read =>
      obtain ⟨entry, read⟩ := read
      unfold read? at read
      split at read
      · rename_i inner shape
        obtain ⟨a, b, words, isFirst, isLast, ordered, below⟩ := range?_eq_some_iff.1 read
        rw [bracketed?_eq_some_iff.1 shape]
        exact .range words isFirst isLast ordered below
      · obtain ⟨n, found, _⟩ := Option.map_eq_some_iff.1 read
        exact .single (Decimal.int32?_eq_some_iff.1 found)

theorem parse_cases (text : String) :
    (WellFormed (Text.trim text.toList) ∧ ∃ entry, parse text = .ok entry) ∨
    (¬ WellFormed (Text.trim text.toList) ∧
      parse text = .error (.malformedPartitionValue (Text.trimmed text))) := by
  rw [wellFormed_iff, parse, Text.trimmed]
  cases Text.trim text.toList with
  | nil => simp
  | cons c cs =>
    cases read? (c :: cs) with
    | none => simp
    | some entry => simp

variable {text : String}

theorem exists_parse_iff :
    (∃ entry, parse text = .ok entry) ↔ WellFormed (Text.trim text.toList) := by
  cases parse_cases text with
  | inl accepted => simp [accepted]
  | inr refused => simp [refused]

theorem parse_eq_error_iff {e : DecodeError} : parse text = .error e ↔
    ¬ WellFormed (Text.trim text.toList) ∧ e = .malformedPartitionValue (Text.trimmed text) := by
  cases parse_cases text with
  | inl accepted =>
    obtain ⟨formed, entry, read⟩ := accepted
    simp [read, formed]
  | inr refused => simp [refused, eq_comm]

end SegmentCatalog.PartitionEntry
