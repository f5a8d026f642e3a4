import SegmentCatalog.Proofs.Isolation
import SegmentCatalog.Proofs.PropertyFile.PaddingSpellings
import SegmentCatalog.Proofs.Stores.Values
import SegmentCatalog.Proofs.Text.Trimming

/-! # A file with a padding character put in front

A line in front of a file that sets the padding character changes nothing else: where the file has
no padding character and its values have no references, every column is decoded as before, but for
its padding, and this is the character that the line spells (`PropertyStore.decode_padded`).

The new key is no key of a column, and the other keys keep their values (`find?_foldl_add_front`).
What references stand for could change all the same.  It does not, because there are none in the
values, and none in their items either: an item is a part of its value, but for a backslash at its
end (`PropertyFile.item_part`).
-/

namespace SegmentCatalog

/-! ## Items -/

namespace PropertyFile

open Text (Spelt FourCharacters)

variable {value part out line : List Char} {parts : List (List Char)} {d : Definition}
  {item : String}

theorem Cut.part_spelt (cut : Cut value parts) (spelt : Spelt FourCharacters value out)
    (member : part ∈ parts) : ∃ text, Spelt FourCharacters part text ∧ text <:+: out := by
  induction cut generalizing out with
  | last _ =>
    cases List.mem_singleton.1 member
    exact ⟨out, spelt, List.infix_rfl⟩
  | more _ settled _ ih =>
    obtain ⟨cs, ds, rfl, here, behind⟩ := (Text.spelt_append_comma_iff settled).1 spelt
    rcases List.mem_cons.1 member with rfl | later
    · exact ⟨cs, here, (List.prefix_append cs (',' :: ds)).isInfix⟩
    · obtain ⟨text, spelt', inside⟩ := ih behind later
      have ends : ds <:+ cs ++ ',' :: ds := (List.suffix_cons ',' ds).trans (List.suffix_append ..)
      exact ⟨text, spelt', inside.trans ends.isInfix⟩

theorem item_part (read : readLine line = .ok (some d)) (member : item ∈ d.items) :
    item.toList <:+: d.text.toList ∨
      ∃ front, item.toList = front ++ ['\\'] ∧ front <:+: d.text.toList := by
  obtain ⟨_, _, each, whole⟩ := readLine_eq_some_iff.1 read
  obtain ⟨part, isPart, trimmed⟩ := exists_item_of_mapM each member
  rw [Literal.unescaped_eq_ok_iff, String.toList_ofList] at whole trimmed
  obtain ⟨text, spelt, inside⟩ := (cut_splitItems _).part_spelt whole isPart
  rcases spelt.trim_part trimmed with within | ⟨front, same, within⟩
  · exact .inl (within.trans inside)
  · exact .inr ⟨front, same, within.trans inside⟩

theorem opening_of_item (read : readLine line = .ok (some d)) (member : item ∈ d.items)
    (opens : ['$', '{'] <:+: item.toList) : ['$', '{'] <:+: d.text.toList := by
  rcases item_part read member with within | ⟨front, same, within⟩
  · exact opens.trans within
  · rw [same] at opens
    rcases Text.infix_of_infix_append_cons (by decide) opens with before | none
    · exact before.trans within
    · cases List.infix_nil.1 none

/-- What the first line defines comes in front of what the others define. -/
theorem definitions_of_first {text whole : String} {found : List Definition}
    (lines : logicalLines whole.toList = line :: logicalLines text.toList)
    (defines : readLine line = .ok (some d)) (rest : definitions text = .ok found) :
    definitions whole = .ok (d :: found) := by
  obtain ⟨outcomes, each, kept⟩ := bind_eq_ok.1 rest
  cases kept
  rw [definitions, lines, List.mapM_cons, defines]
  exact bind_eq_ok.2 ⟨some d :: outcomes, by rw [each]; rfl, rfl⟩

end PropertyFile

namespace PropertyStore

variable {store : PropertyStore} {key text : String}

theorem opening_of_items (parsed : parse text = .ok store) : store.Everywhere fun value =>
    ∀ item ∈ value.items, ['$', '{'] <:+: item.toList → ['$', '{'] <:+: value.text.toList := by
  refine everywhere_of_parse parsed ?_ ?_
  · intro x y first second item member opens
    have starts : x.text.toList <:+: (x.followedBy y).text.toList := by
      simp only [PropertyValue.followedBy, String.toList_append, List.append_assoc]
      exact (List.prefix_append ..).isInfix
    have ends : y.text.toList <:+: (x.followedBy y).text.toList := by
      simp only [PropertyValue.followedBy, String.toList_append]
      exact (List.suffix_append ..).isInfix
    rcases List.mem_append.1 member with before | behind
    · exact (first item before opens).trans starts
    · exact (second item behind opens).trans ends
  · intro line _ d read item member opens
    exact PropertyFile.opening_of_item read member opens

/-! ## The store with one more value in front -/

/-- A value without references is the same in all its views, whatever the other keys are. -/
theorem agreeAt_of_find? {first second : PropertyStore}
    (same : second.find? key = first.find? key)
    (texts : ∀ value, first.find? key = some value → ¬ ['$', '{'] <:+: value.text.toList)
    (items : ∀ value, first.find? key = some value →
      ∀ item ∈ value.items, ¬ ['$', '{'] <:+: item.toList) :
    first.config.AgreeAt second.config key := by
  cases found : first.find? key with
  | none =>
    rw [found] at same
    constructor <;> simp [config, raw?, text?, list, found, same]
  | some value =>
    rw [found] at same
    have whole := texts value found
    have parts := items value found
    constructor
    · simp [config, raw?, found, same]
    · simp [config, raw?, text?, found, same, Lookup.interpolate_of_no_opening _ _ whole]
    · simp only [config, list, found, same]
      apply List.map_congr_left
      intro item member
      rw [Lookup.interpolate_of_no_opening _ _ (parts item member),
        Lookup.interpolate_of_no_opening _ _ (parts item member)]

/-- Putting a definition in front adds its key, if this is defined nowhere else, and changes no
    other. -/
theorem find?_foldl_add_front {definitions : List PropertyFile.Definition} {value : PropertyValue}
    (built : definitions.foldl (fun store d => add store d.key { text := d.text, items := d.items })
      OrderedMap.empty = store) (absent : store.find? key = none) (other : String) :
    (definitions.foldl (fun store d => add store d.key { text := d.text, items := d.items })
      (add OrderedMap.empty key value)).find? other =
      if other = key then some value else store.find? other := by
  have continues := (Continues.empty (add OrderedMap.empty key value)).foldl_add definitions
  rw [continues.values, built, find?_add]
  by_cases here : other = key
  · rw [if_pos here, if_pos here, here, absent]
    rfl
  · rw [if_neg here, if_neg here, OrderedMap.find?_empty, Option.merge_none_left]

end PropertyStore

namespace Column

variable {first second : Config} {column : String} {m : Column} {c : Char}

/-- A configuration with another padding gives the same column with this padding. -/
theorem Decodes.padded (decodes : Decodes first column m)
    (timeUnit : first.AgreeAt second SegmentKey.timeUnit.name)
    (own : ∀ p : Property, first.AgreeAt second (p.key column))
    (padding : decodePadding second = .ok c) : Decodes second column { m with padding := c } where
  name := decodes.name
  dataType := (own _).decodeMember DataType ▸ decodes.dataType
  fieldType := (own _).decodeMember FieldType ▸ decodes.fieldType
  timeUnit := timeUnit.textOr _ ▸ decodes.timeUnit
  cardinality := (own _).int ▸ decodes.cardinality
  totalDocs := (own _).int ▸ decodes.totalDocs
  bitsPerElement := (own _).int ▸ decodes.bitsPerElement
  maxLength := (own _).int ▸ decodes.maxLength
  isSorted := (own _).boolean ▸ decodes.isSorted
  hasNulls := (own _).boolean ▸ decodes.hasNulls
  hasDictionary := (own _).booleanOr _ ▸ decodes.hasDictionary
  hasInvertedIndex := (own _).boolean ▸ decodes.hasInvertedIndex
  hasFSTIndex := (own _).booleanOr _ ▸ decodes.hasFSTIndex
  isSingleValue := (own _).boolean ▸ decodes.isSingleValue
  maxMultiValues := (own _).int ▸ decodes.maxMultiValues
  totalEntries := (own _).int ▸ decodes.totalEntries
  isAutoGenerated := (own _).booleanOr _ ▸ decodes.isAutoGenerated
  isVirtual := decodes.isVirtual
  defaultNullValue := (own _).text ▸ decodes.defaultNullValue
  padding := padding
  bounds := decodeBounds_congr own _ ▸ decodes.bounds
  partitioning := decodePartitioning_congr own ▸ decodes.partitioning
  dateTimeFormat := (own _).text ▸ decodes.dateTimeFormat
  dateTimeGranularity := (own _).text ▸ decodes.dateTimeGranularity
  textIndexType := (own _).textOr _ ▸ decodes.textIndexType
  fieldSpec := decodes.fieldSpec

end Column

namespace PropertyStore

open PropertyFile (PaddingSpelling Assigns)

/-- What a file is read as with a line in front that sets the padding character. -/
theorem parse_padded {store : PropertyStore} {text line spelling : String} {c : Char}
    (parsed : parse text = .ok store) (absent : store.raw? SegmentKey.paddingCharacter.name = none)
    (spells : PaddingSpelling spelling.toList c)
    (sets : Assigns SegmentKey.paddingCharacter.name.toList spelling.toList line.toList) :
    ∃ out padded, Text.unescape? out = some [c] ∧ ¬ ['$', '{'] <:+: out ∧
      parse (line ++ text) = .ok padded ∧
      ∀ key, padded.find? key = if key = SegmentKey.paddingCharacter.name
        then some { text := .ofList out, items := [.ofList out] } else store.find? key := by
  obtain ⟨out, carries, noReference, read⟩ := spells.stored
  have bare : PropertyFile.Bare SegmentKey.paddingCharacter.name.toList := by decide
  obtain ⟨first, lines, defines⟩ := sets.logicalLines bare spells.distinct carries text.toList
  rw [← String.toList_append] at lines
  rw [String.ofList_toList] at defines
  obtain ⟨definitions, found, built⟩ := bind_eq_ok.1 parsed
  have whole := PropertyFile.definitions_of_first lines defines found
  refine ⟨out, _, read, noReference, bind_eq_ok.2 ⟨_, whole, rfl⟩, ?_⟩
  have built := Except.ok.inj built
  exact find?_foldl_add_front built (Option.map_eq_none_iff.1 absent)

theorem decodePadding_of_stored {padded : PropertyStore} {out : List Char} {c : Char}
    {items : List String} (read : Text.unescape? out = some [c])
    (noReference : ¬ ['$', '{'] <:+: out)
    (found : padded.find? SegmentKey.paddingCharacter.name = some ⟨.ofList out, items⟩) :
    Column.decodePadding padded.config = .ok c := by
  have raw : padded.raw? SegmentKey.paddingCharacter.name = some (.ofList out) := by
    rw [raw?, found, Option.map_some]
  have text : padded.text? SegmentKey.paddingCharacter.name = some (.ofList out) := by
    have free : ¬ ['$', '{'] <:+: (String.ofList out).toList := by
      rwa [String.toList_ofList]
    rw [text?, raw, Option.map_some, Lookup.interpolate_of_no_opening _ _ free]
  have spelt : Literal.unescaped (.ofList out) = .ok (.ofList [c]) := by
    rw [Literal.unescaped, String.toList_ofList, read]
  simp only [Column.decodePadding, Config.contains, Config.textOr, config, raw, text,
    Option.isSome_some, Option.getD_some, if_true, spelt, bind, Except.bind, String.toList_ofList]
  rfl

/-- Where a file is read, has no padding character and no value in which a dollar sign opens a
    brace, a line in front that sets the padding character, by one of its spellings, gives every
    column that is decoded this padding, and leaves it as it is otherwise. -/
theorem decode_padded {store : PropertyStore} {text line spelling column : String} {m : Column}
    {c : Char} (parsed : parse text = .ok store)
    (decoded : Column.decode store.config column = .ok m)
    (absent : store.raw? SegmentKey.paddingCharacter.name = none)
    (free : ∀ key value, store.raw? key = some value → ¬ ['$', '{'] <:+: value.toList)
    (spells : PaddingSpelling spelling.toList c)
    (sets : Assigns SegmentKey.paddingCharacter.name.toList spelling.toList line.toList) :
    ∃ padded, parse (line ++ text) = .ok padded ∧
      Column.decode padded.config column = .ok { m with padding := c } := by
  obtain ⟨out, padded, read, noReference, parsed', found⟩ :=
    parse_padded parsed absent spells sets
  have texts : ∀ key value, store.find? key = some value → ¬ ['$', '{'] <:+: value.text.toList := by
    intro key value stored
    apply free key
    rw [raw?, stored, Option.map_some]
  have agree : ∀ key, key ≠ SegmentKey.paddingCharacter.name →
      store.config.AgreeAt padded.config key := by
    intro key other
    refine agreeAt_of_find? ?_ (texts key) ?_
    · rw [found, if_neg other]
    · intro value stored item member opens
      exact texts key value stored (opening_of_items parsed key value stored item member opens)
  have padding := decodePadding_of_stored read noReference (by rw [found, if_pos rfl])
  refine ⟨padded, parsed', Column.decode_of_decodes ?_⟩
  apply (Column.decodes_of_decode decoded).padded (agree _ (by decide)) _ padding
  intro p
  exact agree _ (p.key_ne_segmentKey column .paddingCharacter)

/-- The properties that a column needs. -/
def metricProperties : List (String × String) :=
  [("x.dataType", "INT"), ("x.columnType", "METRIC"), ("x.cardinality", "4"), ("x.totalDocs", "9"),
    ("x.bitsPerElement", "2"), ("x.dictionaryElementSize", "0"), ("x.isSorted", "no"),
    ("x.hasNullValue", "no"), ("x.hasInvertedIndex", "no"), ("x.isSingleValued", "yes"),
    ("x.maxMultiValueElements", "0"), ("x.totalNumberOfEntries", "9")]

def metricLines : List (List Char) :=
  metricProperties.map fun (key, text) => key.toList ++ '=' :: text.toList

def metricText : String := .ofList (['\n'].intercalate metricLines)

def metricStore : PropertyStore where
  entries := metricProperties.map fun (key, text) => (key, { text, items := [text] })

theorem not_opening_metricStore {key value : String} (stored : metricStore.raw? key = some value) :
    ¬ ['$', '{'] <:+: value.toList := by
  have free : ∀ entry ∈ metricStore.entries, '$' ∉ entry.2.text.toList := by decide
  obtain ⟨entry, found, rfl⟩ := Option.map_eq_some_iff.1 stored
  obtain ⟨before, after, split, _⟩ := List.lookup_eq_some_iff.1 found
  intro inside
  exact free (key, entry) (by simp [split]) (inside.mem (List.mem_cons_self ..))

/-- A backslash, spelt with two backslashes, in a line with blanks and both characters of the line
    end. -/
theorem decode_padded_backslash : ∃ m padded,
    parse metricText = .ok metricStore ∧ Column.decode metricStore.config "x" = .ok m ∧
    parse ("\tsegment.padding.character : \\\\u005C \r\n" ++ metricText) = .ok padded ∧
    Column.decode padded.config "x" = .ok { m with padding := '\\' } := by
  have parsed : parse metricText = .ok metricStore := by
    rw [parse, PropertyFile.definitions, metricText, String.toList_ofList]
    decide +kernel
  have success : (Column.decode metricStore.config "x").isOk = true := by decide +kernel
  obtain ⟨m, decoded⟩ : ∃ m, Column.decode metricStore.config "x" = .ok m := by
    cases outcome : Column.decode metricStore.config "x" with
    | ok m => exact ⟨m, rfl⟩
    | error e =>
      rw [outcome] at success
      cases success
  have spells : PaddingSpelling "\\\\u005C".toList '\\' := .twice (.of_read rfl (by decide))
  have gap : PropertyFile.Gap [' ', ':', ' '] :=
    @PropertyFile.Gap.sign [' '] [' '] ':' (.inr rfl) (by simp [PropertyFile.isInlineBlank])
      (by simp [PropertyFile.isInlineBlank])
  have sets : Assigns SegmentKey.paddingCharacter.name.toList "\\\\u005C".toList
      "\tsegment.padding.character : \\\\u005C \r\n".toList :=
    @Assigns.line _ _ ['\t'] _ [' '] ['\r', '\n'] (by simp [Text.isBlank]) gap
      (by simp [Text.isBlank]) (.inr rfl)
  obtain ⟨padded, parsed', decoded'⟩ := decode_padded parsed decoded (by decide)
    (fun _ _ stored => not_opening_metricStore stored) spells sets
  exact ⟨m, padded, parsed, decoded, parsed', decoded'⟩

end PropertyStore

end SegmentCatalog
