import SegmentCatalog.Config.PropertyStore
import SegmentCatalog.Proofs.PropertyFile.Items
import SegmentCatalog.Proofs.PropertyFile.Lines
import SegmentCatalog.Proofs.Text.Escaped
import SegmentCatalog.Proofs.Traversal

/-! # Files that are written to be read

Any keys and lists of items can be kept in a file: `PropertyFile.written` writes a line for each
key, in which everything but the equals sign and the commas between the items is escaped.

No step of reading finds anything to cut or to drop in such a line but that sign and those
commas (`splitLine_written`, `splitItems_written`), and every line is a line of its own
(`plain_writtenLine`); so what is read is what was written: `PropertyStore.parse_written`.
-/

namespace SegmentCatalog

namespace PropertyFile

variable {hex : Text.HexDigits} {key : String} {items : List String}

def writtenValue (hex : Text.HexDigits) (items : List String) : List Char :=
  [','].intercalate ((items.map String.toList).map (Text.escape hex))

def writtenLine (hex : Text.HexDigits) (key : String) (items : List String) : List Char :=
  Text.escape hex key.toList ++ '=' :: writtenValue hex items

def writtenLines (hex : Text.HexDigits) (pairs : List (String × List String)) :
    List (List Char) :=
  pairs.map fun pair => writtenLine hex pair.1 pair.2

/-- The text of a file that gives each key its items. -/
def written (hex : Text.HexDigits) (pairs : List (String × List String)) : List Char :=
  ended (writtenLines hex pairs)

/-! ## Lines of their own -/

/-- The characters of a written line, backslashes apart. -/
def Sign (c : Char) : Prop := Text.Inert c ∨ c = ',' ∨ c = '='

instance : DecidablePred Sign := fun _ => inferInstanceAs (Decidable (_ ∨ _ ∨ _))

theorem Sign.not_blank {c : Char} (sign : Sign c) : Text.isBlank c = false := by
  rcases sign with inert | rfl | rfl
  · exact inert.not_blank
  · rfl
  · rfl

theorem guarded_escape (cs : List Char) : Text.Guarded Sign (Text.escape hex cs) :=
  (Text.guarded_escape cs).mono fun _ => .inl

theorem guarded_writtenValue : Text.Guarded Sign (writtenValue hex items) := by
  apply Text.Guarded.intercalate (.inr (.inl rfl))
  intro piece member
  obtain ⟨text, _, rfl⟩ := List.mem_map.1 member
  exact guarded_escape text

theorem guarded_writtenLine : Text.Guarded Sign (writtenLine hex key items) :=
  (guarded_escape key.toList).append (.plain (.inr (.inr rfl)) guarded_writtenValue)

theorem not_blank_of_guarded {cs : List Char} (guarded : Text.Guarded Sign cs) {c : Char}
    (member : c ∈ cs) : Text.isBlank c = false := by
  rcases guarded.backslash_or_allowed member with rfl | sign
  · rfl
  · exact sign.not_blank

theorem escape_key_ne_nil (named : key ≠ "") : Text.escape hex key.toList ≠ [] :=
  Text.escape_ne_nil (mt String.toList_eq_nil_iff.1 named)

theorem plain_writtenLine (named : key ≠ "") : Plain (writtenLine hex key items) where
  starts := by
    have filled : Text.escape hex key.toList ≠ [] := escape_key_ne_nil named
    obtain ⟨c, rest, shape⟩ := List.exists_cons_of_ne_nil filled
    have member : c ∈ Text.escape hex key.toList := by simp [shape]
    rw [writtenLine, shape]
    refine ⟨c, _, rfl, ?_⟩
    rcases (Text.guarded_escape key.toList).backslash_or_allowed member with rfl | inert
    · decide
    · exact ⟨inert.not_blank, inert.ne (by decide), inert.ne (by decide)⟩
  whole := by
    intro c member
    have solid := not_blank_of_guarded guarded_writtenLine member
    constructor
    · rintro rfl
      cases solid
    · rintro rfl
      cases solid
  ends := guarded_writtenLine.getLast?_ne (by decide)

/-! ## Keys and values -/

theorem not_separator_of_inert {c : Char} (inert : Text.Inert c) : isSeparator c = false := by
  have equals : c ≠ '=' := inert.ne (by decide)
  have colon : c ≠ ':' := inert.ne (by decide)
  have space : c ≠ ' ' := inert.ne (by decide)
  have tab : c ≠ '\t' := inert.ne (by decide)
  simp [isSeparator, isInlineBlank, equals, colon, space, tab]

theorem splitKey_guarded {allowed : Char → Prop} {front : List Char}
    (plain : ∀ c, allowed c → c ≠ '\\' ∧ isSeparator c = false)
    (guarded : Text.Guarded allowed front) (rest : List Char) :
    splitKey (front ++ '=' :: rest) = (front, '=' :: rest) := by
  induction guarded with
  | nil => rfl
  | @plain c front here _ ih =>
    obtain ⟨other, inside⟩ := plain c here
    simp [splitKey, other, inside, ih]
  | escaped _ _ ih => simp [splitKey, ih]

theorem not_inlineBlank_of_not_blank {c : Char} (solid : Text.isBlank c = false) :
    isInlineBlank c = false := by
  cases inline : isInlineBlank c with
  | false => rfl
  | true =>
    simp only [isInlineBlank, Bool.or_eq_true, beq_iff_eq] at inline
    rcases inline with rfl | rfl
    · cases solid
    · cases solid

theorem valueOf_solid {value : List Char} (solid : ∀ c ∈ value, Text.isBlank c = false) :
    valueOf ('=' :: value) = value := by
  have inline : value.dropWhile isInlineBlank = value :=
    Text.dropWhile_of_solid fun c member => not_inlineBlank_of_not_blank (solid c member)
  show Text.trimEnd (value.dropWhile isInlineBlank) = value
  rw [inline, Text.trimEnd_of_no_blank solid]

theorem splitLine_written : splitLine (writtenLine hex key items) =
    (Text.escape hex key.toList, writtenValue hex items) := by
  have plain : ∀ c, Text.Inert c → c ≠ '\\' ∧ isSeparator c = false := fun _ inert =>
    ⟨inert.ne (by decide), not_separator_of_inert inert⟩
  rw [splitLine, writtenLine, splitKey_guarded plain (Text.guarded_escape key.toList)]
  simp only [valueOf_solid fun c => not_blank_of_guarded guarded_writtenValue]

/-! ## Items -/

theorem splitItems_guarded_append {front rest part : List Char} {parts : List (List Char)}
    (guarded : Text.Guarded Text.Inert front) (behind : splitItems rest = part :: parts) :
    splitItems (front ++ rest) = (front ++ part) :: parts := by
  induction guarded with
  | nil => exact behind
  | @plain c front here _ ih =>
    have other : c ≠ '\\' := here.ne (by decide)
    have inside : c ≠ ',' := here.ne (by decide)
    simp [splitItems, other, ih, onFirst]
  | escaped _ _ ih => simp [splitItems, ih, onFirst]

theorem splitItems_intercalate {pieces : List (List Char)} (filled : pieces ≠ [])
    (guarded : ∀ piece ∈ pieces, Text.Guarded Text.Inert piece) :
    splitItems ([','].intercalate pieces) = pieces := by
  induction pieces with
  | nil => exact absurd rfl filled
  | cons piece pieces ih =>
    obtain ⟨here, later⟩ := List.forall_mem_cons.1 guarded
    cases pieces with
    | nil =>
      have alone : splitItems (piece ++ []) = [piece ++ []] := splitItems_guarded_append here rfl
      simpa using alone
    | cons next pieces =>
      have behind : splitItems (',' :: [','].intercalate (next :: pieces)) =
          [] :: next :: pieces := by
        rw [splitItems, ih (by simp) later]
      rw [List.intercalate_cons_cons, List.append_assoc, List.singleton_append,
        splitItems_guarded_append here behind, List.append_nil]

theorem splitItems_written (filled : items ≠ []) :
    splitItems (writtenValue hex items) = (items.map String.toList).map (Text.escape hex) := by
  apply splitItems_intercalate (by simpa using filled)
  intro piece member
  obtain ⟨text, _, rfl⟩ := List.mem_map.1 member
  exact Text.guarded_escape text

/-! ## Definitions -/

/-- The definition of a key by a list. -/
def Definition.ofItems (key : String) (items : List String) : Definition :=
  { key, text := ",".intercalate items, items }

theorem unescaped_escape (text : String) :
    Literal.unescaped (.ofList (Text.escape hex text.toList)) = .ok text := by
  simp [Literal.unescaped, Text.unescape?_escape]

theorem unescaped_writtenValue :
    Literal.unescaped (.ofList (writtenValue hex items)) = .ok (",".intercalate items) := by
  have comma : ",".toList = [','] := rfl
  have spelt : Text.unescape? (writtenValue hex items) = some (",".intercalate items).toList := by
    rw [writtenValue, Text.unescape?_intercalate (by decide), String.toList_intercalate, comma]
  simp only [Literal.unescaped, String.toList_ofList, spelt, String.ofList_toList]

theorem unescaped_trim_escape (text : String) :
    Literal.unescaped (.ofList (Text.trim (Text.escape hex text.toList))) = .ok text := by
  have solid : ∀ c ∈ Text.escape hex text.toList, Text.isBlank c = false := fun _ member =>
    not_blank_of_guarded (guarded_escape text.toList) member
  rw [Text.trim_of_no_blank solid, unescaped_escape]

theorem readLine_written (named : key ≠ "") (filled : items ≠ []) :
    readLine (writtenLine hex key items) = .ok (some (.ofItems key items)) := by
  have each : ((items.map String.toList).map (Text.escape hex)).mapM
      (fun item => Literal.unescaped (.ofList (Text.trim item))) = .ok items := by
    rw [mapM_eq_ok_iff]
    simp [unescaped_trim_escape]
  rw [readLine_eq_some_iff, splitLine_written, splitItems_written filled]
  exact ⟨escape_key_ne_nil named, unescaped_escape key, each, unescaped_writtenValue⟩

theorem definitions_of_lines {text : String} {pairs : List (String × List String)}
    (lines : logicalLines text.toList = writtenLines hex pairs)
    (named : ∀ pair ∈ pairs, pair.1 ≠ "") (filled : ∀ pair ∈ pairs, pair.2 ≠ []) :
    definitions text = .ok (pairs.map fun pair => .ofItems pair.1 pair.2) := by
  have each : (writtenLines hex pairs).mapM readLine =
      .ok (pairs.map fun pair => some (.ofItems pair.1 pair.2)) := by
    rw [mapM_eq_ok_iff, writtenLines, List.forall₂_map_left_iff, List.forall₂_map_right_iff,
      List.forall₂_same]
    exact fun pair member => readLine_written (named pair member) (filled pair member)
  rw [definitions, lines, each]
  simp [bind, Except.bind, pure, Except.pure]

end PropertyFile

namespace PropertyStore

/-- Sets lists under their keys, one after the other. -/
def setLists (store : PropertyStore) (pairs : List (String × List String)) : PropertyStore :=
  pairs.foldl (fun store pair => store.setList pair.1 pair.2) store

variable {hex : Text.HexDigits} {pairs : List (String × List String)}

theorem add_of_absent {store : PropertyStore} {key : String} (absent : key ∉ store.keys)
    (items : List String) :
    store.add key { text := ",".intercalate items, items } = store.setList key items := by
  apply OrderedMap.extend_congr
  rw [OrderedMap.find?_eq_none_iff.2 absent]

/-- A file that defines each key once only ever adds new keys. -/
theorem foldl_add_eq_setLists {store : PropertyStore}
    (distinct : (store.keys ++ pairs.map Prod.fst).Nodup) :
    (pairs.map fun pair => PropertyFile.Definition.ofItems pair.1 pair.2).foldl
      (fun store d => store.add d.key { text := d.text, items := d.items }) store =
      store.setLists pairs := by
  induction pairs generalizing store with
  | nil => rfl
  | cons pair pairs ih =>
    have absent : pair.1 ∉ store.keys := by
      intro present
      rw [List.nodup_append] at distinct
      exact distinct.2.2 _ present _ (List.mem_cons_self ..) rfl
    have behind : ((store.setList pair.1 pair.2).keys ++ pairs.map Prod.fst).Nodup := by
      rw [setList, OrderedMap.keys_insert, if_neg absent]
      simpa using distinct
    rw [List.map_cons, List.foldl_cons, PropertyFile.Definition.ofItems, add_of_absent absent,
      ih behind]
    rfl

theorem parse_of_lines {text : String}
    (lines : PropertyFile.logicalLines text.toList = PropertyFile.writtenLines hex pairs)
    (distinct : (pairs.map Prod.fst).Nodup) (named : ∀ pair ∈ pairs, pair.1 ≠ "")
    (filled : ∀ pair ∈ pairs, pair.2 ≠ []) :
    parse text = .ok (setLists OrderedMap.empty pairs) := by
  rw [parse, PropertyFile.definitions_of_lines lines named filled]
  exact congrArg Except.ok (foldl_add_eq_setLists distinct)

/-- Whatever the keys and the items are made of, a file in which they are escaped is read as the
    lists that were written, whether or not its last line is ended by a line feed. -/
theorem parse_written (hex : Text.HexDigits) {pairs : List (String × List String)}
    (distinct : (pairs.map Prod.fst).Nodup) (named : ∀ pair ∈ pairs, pair.1 ≠ "")
    (filled : ∀ pair ∈ pairs, pair.2 ≠ []) :
    parse (.ofList (PropertyFile.written hex pairs)) = .ok (setLists OrderedMap.empty pairs) ∧
    parse (.ofList (PropertyFile.written hex pairs).dropLast) =
      .ok (setLists OrderedMap.empty pairs) := by
  have plain : ∀ line ∈ PropertyFile.writtenLines hex pairs, PropertyFile.Plain line := by
    intro line member
    obtain ⟨pair, inside, rfl⟩ := List.mem_map.1 member
    exact PropertyFile.plain_writtenLine (named pair inside)
  have whole : PropertyFile.logicalLines (String.ofList (PropertyFile.written hex pairs)).toList =
      PropertyFile.writtenLines hex pairs := by
    rw [String.toList_ofList, PropertyFile.written, PropertyFile.logicalLines_ended plain]
  have unended :
      PropertyFile.logicalLines (String.ofList (PropertyFile.written hex pairs).dropLast).toList =
        PropertyFile.writtenLines hex pairs := by
    rw [String.toList_ofList, PropertyFile.written, PropertyFile.logicalLines_dropLast plain]
  exact ⟨parse_of_lines whole distinct named filled, parse_of_lines unended distinct named filled⟩

/-- Keys and items that would be cut, trimmed or joined if they were written as they are. -/
def awkward : List (String × List String) :=
  [("#a=", [" ,", "", "\\\n"]), ("😀", ["", "\x00", "é\\"])]

theorem parse_written_awkward :
    parse "\\u0023\\u0061\\u003D=\\u0020\\u002C,,\\u005C\\u000A\n😀=,\\u0000,\\u00E9\\u005C" =
      .ok (setLists OrderedMap.empty awkward) := by
  have shape : String.ofList (PropertyFile.written Text.HexDigits.capital awkward).dropLast =
      "\\u0023\\u0061\\u003D=\\u0020\\u002C,,\\u005C\\u000A\n😀=,\\u0000,\\u00E9\\u005C" := by
    decide
  rw [← shape]
  exact (parse_written Text.HexDigits.capital (by decide) (by decide) (by decide)).2

end PropertyStore

end SegmentCatalog
