import Mathlib.Data.List.Sort
import SegmentCatalog.Proofs.PartitionEntries
import SegmentCatalog.Proofs.Text.Words
import SegmentCatalog.Proofs.Traversal
import SegmentCatalog.Proofs.Values

/-! # Lists of partitions as unions

A list of entries is read as the union of what its entries denote, and refused for the first entry
that denotes nothing and is not empty (`PartitionIds.parse_union`).

`PartitionEntry.Denotes` says what an entry denotes, character by character: a number by itself, or
the numbers from one to another, which stand in brackets with white space between them and maybe
around them.  `PartitionEntry.read?_eq_some_iff` ties it to the reader, `PartitionIds.mem_parse` to
the set that is read.
-/

namespace SegmentCatalog

/-! ## Entries -/

namespace PartitionEntry

/-- The text, without white space around it, denotes the numbers from `first` to `last`.  The last
    number of a range is below the largest of 32 bits. -/
inductive Denotes : List Char → Int32 → Int32 → Prop
  | number {cs : List Char} {n : Int32} : Decimal.Spells cs n.toInt → Denotes cs n n
  | range {before a between b after : List Char} {first last : Int32} :
      Text.Blanks before → Decimal.Spells a first.toInt → Text.Blanks between → between ≠ [] →
      Decimal.Spells b last.toInt → Text.Blanks after → first.toInt ≤ last.toInt →
      last.toInt < 2 ^ 31 - 1 →
      Denotes ('[' :: (before ++ a ++ between ++ b ++ after) ++ [']']) first last

/-- An entry that is not refused. -/
def Accepted (text : String) : Prop :=
  Text.trim text.toList = [] ∨ ∃ first last, Denotes (Text.trim text.toList) first last

/-- Among the numbers that an entry denotes. -/
def Holds (text : String) (id : Int32) : Prop :=
  ∃ first last, Denotes (Text.trim text.toList) first last ∧
    first.toInt ≤ id.toInt ∧ id.toInt ≤ last.toInt

variable {cs : List Char} {entry : PartitionEntry} {text : String}

theorem word_of_spells {n : Int} (spelt : Decimal.Spells cs n) : Text.Word cs := by
  have solid : ∀ {digits : List Char}, Decimal.Digits digits →
      ∀ c ∈ digits, Text.isBlank c = false := fun digits c member =>
    Text.not_blank_of_isDigit (digits.2 c member)
  cases spelt with
  | plain digits => exact ⟨digits.1, solid digits⟩
  | plus digits => exact .cons rfl (solid digits)
  | minus digits => exact .cons rfl (solid digits)

theorem ne_maxValue_iff {n : Int32} : n ≠ Int32.maxValue ↔ n.toInt < 2 ^ 31 - 1 := by
  have bound := n.toInt_lt
  rw [ne_eq, ← Int32.toInt_inj, Int32.toInt_maxValue]
  omega

theorem read?_eq_some_iff : read? cs = some entry ↔ Denotes cs entry.first entry.last := by
  constructor
  · intro found
    unfold read? at found
    split at found
    · rename_i inner shape
      obtain ⟨a, b, pair, isFirst, isLast, ordered, below⟩ := range?_eq_some_iff.1 found
      obtain ⟨before, between, after, rfl, front, _, gap, filled, _, behind⟩ :=
        Text.words_eq_pair_iff.1 pair
      rw [bracketed?_eq_some_iff.1 shape]
      exact .range front isFirst gap filled isLast behind ordered (ne_maxValue_iff.1 below)
    · obtain ⟨n, read, rfl⟩ := Option.map_eq_some_iff.1 found
      exact .number (Decimal.int32?_eq_some_iff.1 read)
  · intro denotes
    obtain ⟨first, last⟩ := entry
    unfold read?
    cases denotes with
    | number spelt =>
      rw [bracketed?_of_spells spelt, Decimal.int32?_eq_some_iff.2 spelt]
      rfl
    | range front isFirst gap filled isLast behind ordered below =>
      rw [bracketed?_eq_some_iff.2 rfl]
      refine range?_eq_some_iff.2 ⟨_, _, ?_, isFirst, isLast, ordered, ne_maxValue_iff.2 below⟩
      exact Text.words_eq_pair_iff.2 ⟨_, _, _, rfl, front, word_of_spells isFirst, gap, filled,
        word_of_spells isLast, behind⟩

/-- The empty text denotes nothing. -/
theorem not_denotes_nil {first last : Int32} : ¬ Denotes [] first last := by
  intro denotes
  cases denotes with
  | number spelt => exact (word_of_spells spelt).filled rfl

theorem parse_eq_ok_some_iff :
    parse text = .ok (some entry) ↔ Denotes (Text.trim text.toList) entry.first entry.last := by
  rw [← read?_eq_some_iff, parse]
  cases shape : Text.trim text.toList with
  | nil =>
    have nothing : read? [] ≠ some entry := fun found => not_denotes_nil (read?_eq_some_iff.1 found)
    simp [nothing]
  | cons c cs => cases read? (c :: cs) <;> simp

theorem wellFormed_iff_accepted : WellFormed (Text.trim text.toList) ↔ Accepted text := by
  rw [wellFormed_iff, Accepted]
  refine or_congr_right ⟨?_, ?_⟩
  · rintro ⟨entry, read⟩
    exact ⟨entry.first, entry.last, read?_eq_some_iff.1 read⟩
  · rintro ⟨first, last, denotes⟩
    exact ⟨⟨first, last⟩, read?_eq_some_iff.2 denotes⟩

theorem mem_members {id : Int32} :
    id ∈ entry.members ↔ entry.first.toInt ≤ id.toInt ∧ id.toInt ≤ entry.last.toInt := by
  have least := entry.first.le_toInt
  have greatest := entry.last.toInt_lt
  simp only [members, List.mem_map, List.mem_range]
  constructor
  · rintro ⟨i, inside, rfl⟩
    rw [Int32.toInt_ofInt_of_le (by omega) (by omega)]
    omega
  · rintro ⟨lower, upper⟩
    refine ⟨(id.toInt - entry.first.toInt).toNat, by omega, ?_⟩
    have place : entry.first.toInt + ((id.toInt - entry.first.toInt).toNat : Int) = id.toInt := by
      omega
    rw [place, Int32.ofInt_toInt]

end PartitionEntry

/-! ## Unions -/

namespace PartitionIds

open PartitionEntry (Accepted Holds)

variable {values : List String} {ids : PartitionIds}

theorem mem_foldl_union {id : Int32} (entries : List PartitionEntry) :
    id ∈ entries.foldl (fun ids entry => union ids entry.members) ids ↔
      id ∈ ids ∨ ∃ entry ∈ entries, id ∈ entry.members := by
  induction entries generalizing ids with
  | nil => simp
  | cons entry entries ih => simp [ih, mem_union, or_assoc]

theorem parse_eq_ok_iff : parse values = .ok ids ↔
    ∃ entries, values.mapM PartitionEntry.parse = .ok entries ∧
      (entries.filterMap id).foldl (fun ids entry => union ids entry.members) [] = ids := by
  simp only [parse, bind_eq_ok, pure, Except.pure, Except.ok.injEq]

theorem parse_eq_error_iff {e : DecodeError} :
    parse values = .error e ↔ values.mapM PartitionEntry.parse = .error e := by
  simp [parse, bind_eq_error, pure, Except.pure]

theorem exists_parse_iff : (∃ ids, parse values = .ok ids) ↔ ∀ text ∈ values, Accepted text := by
  simp only [parse_eq_ok_iff, ← PartitionEntry.wellFormed_iff_accepted,
    ← PartitionEntry.exists_parse_iff, ← exists_mapM_eq_ok_iff]
  rw [exists_comm]
  simp

theorem mem_parse (parsed : parse values = .ok ids) (id : Int32) :
    id ∈ ids ↔ ∃ text ∈ values, Holds text id := by
  obtain ⟨entries, all, rfl⟩ := parse_eq_ok_iff.1 parsed
  simp only [mem_foldl_union, List.not_mem_nil, false_or, List.mem_filterMap, id_eq,
    PartitionEntry.mem_members]
  constructor
  · rintro ⟨entry, ⟨outcome, member, rfl⟩, bounds⟩
    obtain ⟨text, inside, read⟩ := exists_item_of_mapM all member
    exact ⟨text, inside, _, _, PartitionEntry.parse_eq_ok_some_iff.1 read, bounds⟩
  · rintro ⟨text, inside, first, last, denotes, bounds⟩
    have read : PartitionEntry.parse text = .ok (some ⟨first, last⟩) :=
      PartitionEntry.parse_eq_ok_some_iff.2 denotes
    obtain ⟨outcome, member, found⟩ := exists_outcome_of_mapM all inside
    rw [read, Except.ok.injEq] at found
    exact ⟨⟨first, last⟩, ⟨outcome, member, found.symm⟩, bounds⟩

/-- A rising list is known by its members. -/
theorem Ascending.eq_of_mem_iff {ids' : PartitionIds} (rising : ids.Ascending)
    (rising' : ids'.Ascending) (same : ∀ id, id ∈ ids ↔ id ∈ ids') : ids = ids' := by
  have irreflexive : Std.Irrefl fun a b : Int32 => a.toInt < b.toInt := ⟨fun _ => Int.lt_irrefl _⟩
  have antisymmetric : Std.Antisymm fun a b : Int32 => a.toInt < b.toInt :=
    ⟨fun _ _ below above => absurd below (Int.lt_asymm above)⟩
  exact List.Pairwise.eq_of_mem_iff rising rising' same

/-- Of two lists with the same entries, the one is read as what the other is read as. -/
theorem parse_of_same_entries {values' : List String}
    (same : ∀ text, text ∈ values' ↔ text ∈ values) (parsed : parse values = .ok ids) :
    parse values' = .ok ids := by
  have accepted : ∀ text ∈ values', Accepted text := fun text member =>
    exists_parse_iff.1 ⟨ids, parsed⟩ text ((same text).1 member)
  obtain ⟨ids', parsed'⟩ := exists_parse_iff.2 accepted
  have members : ∀ id, id ∈ ids' ↔ id ∈ ids := by
    intro id
    simp only [mem_parse parsed, mem_parse parsed', same]
  rw [parsed', (ascending_of_parse parsed').eq_of_mem_iff (ascending_of_parse parsed) members]

theorem parse_texts_of_any (numbers : List Int32) :
    ∃ ids, parse (numbers.map fun n => Decimal.text n.toInt) = .ok ids ∧
      ∀ id, id ∈ ids ↔ id ∈ numbers := by
  refine ⟨_, parse_eq_ok_iff.2 ⟨_, mapM_parse_text numbers, rfl⟩, fun id => ?_⟩
  simp [mem_foldl_union, PartitionEntry.members_singleton]

theorem parse_eq_error_iff_first {e : DecodeError} : parse values = .error e ↔
    ∃ before text after, values = before ++ text :: after ∧
      (∀ earlier ∈ before, Accepted earlier) ∧ ¬ Accepted text ∧
      e = .malformedPartitionValue (Text.trimmed text) := by
  simp only [parse_eq_error_iff, mapM_eq_error_iff, PartitionEntry.exists_parse_iff,
    PartitionEntry.parse_eq_error_iff, PartitionEntry.wellFormed_iff_accepted]

/-- A list is read if every entry is accepted, and then as the union of what the entries denote, in
    rising order; neither the order of the entries nor their repetition matters, and the texts of
    numbers are read as those numbers.  Otherwise the error shows the first entry that is not
    accepted. -/
theorem parse_union (values : List String) :
    ((∃ ids, parse values = .ok ids) ↔ ∀ text ∈ values, Accepted text) ∧
    (∀ ids, parse values = .ok ids →
      ids.Ascending ∧ ∀ id, id ∈ ids ↔ ∃ text ∈ values, Holds text id) ∧
    (∀ values' ids, (∀ text, text ∈ values' ↔ text ∈ values) →
      (parse values' = .ok ids ↔ parse values = .ok ids)) ∧
    (∀ e, parse values = .error e ↔ ∃ before text after, values = before ++ text :: after ∧
      (∀ earlier ∈ before, Accepted earlier) ∧ ¬ Accepted text ∧
      e = .malformedPartitionValue (Text.trimmed text)) ∧
    ∀ numbers : List Int32, ∃ ids,
      parse (numbers.map fun n => Decimal.text n.toInt) = .ok ids ∧
      ids.Ascending ∧ ∀ id, id ∈ ids ↔ id ∈ numbers := by
  refine ⟨exists_parse_iff, ?_, ?_, fun e => parse_eq_error_iff_first, ?_⟩
  · intro ids parsed
    exact ⟨ascending_of_parse parsed, mem_parse parsed⟩
  · intro values' ids same
    exact ⟨parse_of_same_entries fun text => (same text).symm, parse_of_same_entries same⟩
  · intro numbers
    obtain ⟨ids, parsed, members⟩ := parse_texts_of_any numbers
    exact ⟨ids, parsed, ascending_of_parse parsed, members⟩

/-- A range and a number inside of it, in another order and with a repetition as well. -/
theorem parse_union_overlapping :
    parse ["[ -1 2]", " +2", ""] = .ok [-1, 0, 1, 2] ∧
    parse [" +2", "", " +2", "[ -1 2]"] = .ok [-1, 0, 1, 2] ∧
    ∃ text ∈ ["[ -1 2]", " +2", ""], Holds text 0 := by
  have parsed : parse ["[ -1 2]", " +2", ""] = .ok [-1, 0, 1, 2] := by decide +kernel
  have same : ∀ text : String,
      text ∈ [" +2", "", " +2", "[ -1 2]"] ↔ text ∈ ["[ -1 2]", " +2", ""] := by
    intro text
    simp only [List.mem_cons, List.not_mem_nil, or_false]
    tauto
  obtain ⟨_, union, unordered, _⟩ := parse_union ["[ -1 2]", " +2", ""]
  exact ⟨parsed, (unordered _ _ same).2 parsed, ((union _ parsed).2 0).1 (by simp)⟩

end PartitionIds

end SegmentCatalog
