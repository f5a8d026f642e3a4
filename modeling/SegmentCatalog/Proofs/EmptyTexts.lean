import SegmentCatalog.Proofs.Stores.Values
import SegmentCatalog.Proofs.Text.Growth
import SegmentCatalog.Proofs.Validity.Decoding

/-! # Where empty texts come from

Resolving escapes never makes a text longer, and makes it empty only if it was (`Text.Measured`).
Two readers rely on this without looking.  A line is taken to have a key if one is written on it,
whatever it spells: no file defines the empty key (`PropertyStore.ne_empty_of_mem_keys`).  And a
padding text that is there spells a character unless it is empty: no other text is reported as
empty (`Column.empty_of_emptyPadding`).
-/

namespace SegmentCatalog

theorem Literal.measured_of_unescaped {raw text : String} (read : unescaped raw = .ok text) :
    Text.Measured raw.toList text.toList := (unescaped_eq_ok_iff.1 read).measured

/-! ## Keys of a file -/

theorem PropertyFile.key_ne_empty {line : List Char} {d : Definition}
    (read : readLine line = .ok (some d)) : d.key ≠ "" := by
  obtain ⟨named, spelt, _⟩ := readLine_eq_some_iff.1 read
  intro unnamed
  rw [unnamed] at spelt
  have empty := (Literal.measured_of_unescaped spelt).nil_iff.1 rfl
  rw [String.toList_ofList] at empty
  exact named empty

namespace PropertyStore

variable {store : PropertyStore} {key : String}

theorem keys_add (store : PropertyStore) (key : String) (value : PropertyValue) :
    (store.add key value).keys = if key ∈ store.keys then store.keys else store.keys ++ [key] :=
  OrderedMap.keys_extend ..

/-- A store has no keys but those it starts with and those that are defined. -/
theorem mem_keys_foldl_add {definitions : List PropertyFile.Definition}
    (member : key ∈ (definitions.foldl
      (fun store d => store.add d.key { text := d.text, items := d.items }) store).keys) :
    key ∈ store.keys ∨ ∃ d ∈ definitions, d.key = key := by
  induction definitions generalizing store with
  | nil => exact .inl member
  | cons d definitions ih =>
    rcases ih member with before | ⟨d', later, named⟩
    · rw [keys_add] at before
      split at before
      · exact .inl before
      · rcases List.mem_append.1 before with before | here
        · exact .inl before
        · exact .inr ⟨d, List.mem_cons_self .., (List.mem_singleton.1 here).symm⟩
    · exact .inr ⟨d', List.mem_cons_of_mem _ later, named⟩

theorem ne_empty_of_mem_keys {text : String} (parsed : parse text = .ok store)
    (member : key ∈ store.keys) : key ≠ "" := by
  obtain ⟨definitions, read, built⟩ := bind_eq_ok.1 parsed
  cases built
  rcases mem_keys_foldl_add member with before | ⟨d, inside, rfl⟩
  · cases before
  · obtain ⟨line, _, outcome⟩ := PropertyFile.exists_line_of_mem read inside
    exact PropertyFile.key_ne_empty outcome

end PropertyStore

/-! ## The padding text -/

theorem FirstViolation.exists_reports {e : DecodeError} {conditions : List Condition}
    (violation : FirstViolation e conditions) :
    ∃ k ∈ conditions, ¬ k.holds ∧ k.reports e := by
  obtain ⟨before, k, after, shape, _, violated, reported⟩ := firstViolation_iff.1 violation
  exact ⟨k, by simp [shape], violated, reported⟩

namespace Kind

variable {kind : Kind} {config : Config} {key raw : String}

/-- No value of this kind is refused as a padding text. -/
def NotPadding (kind : Kind) : Prop := ∀ key text raw, kind.refusal key text ≠ .emptyPadding raw

theorem integer_notPadding : integer.NotPadding := nofun

theorem truth_notPadding : truth.NotPadding := nofun

theorem keyword_notPadding (α : Type) [Vocabulary α] : (keyword α).NotPadding := nofun

theorem NotPadding.required (apart : kind.NotPadding) :
    ¬ (kind.required config key).reports (.emptyPadding raw) := by
  intro reported
  rw [Kind.required] at reported
  dsimp only at reported
  cases found : config.text? key with
  | none =>
    rw [found] at reported
    cases reported
  | some text =>
    rw [found] at reported
    exact apart _ _ _ reported.symm

theorem NotPadding.optional (apart : kind.NotPadding) :
    ¬ (kind.optional config key).reports (.emptyPadding raw) := by
  rintro ⟨text, _, reported⟩
  exact apart _ _ _ reported.symm

end Kind

namespace Column

variable {config : Config} {column raw : String} {k : Condition}

theorem boundReadable_notPadding (side : BoundSide) :
    ¬ (boundReadable config column side).reports (.emptyPadding raw) := by
  rintro ⟨type, _, _, _, reported⟩
  rw [Scalar.refusal] at reported
  split at reported
  · cases reported
  · cases reported

/-- The only condition that reports an empty padding text is the one on the padding text. -/
theorem eq_paddingSpelt_or_notPadding (raw : String) : ∀ k ∈ conditions config column,
    k = paddingSpelt config ∨ ¬ k.reports (.emptyPadding raw) := by
  have integer := Kind.integer_notPadding
  have truth := Kind.truth_notPadding
  simp only [conditions, readConditions, List.cons_append, List.nil_append, List.forall_mem_cons]
  refine ⟨.inr (Kind.keyword_notPadding _).required, .inr (Kind.keyword_notPadding _).required,
    .inr (Kind.keyword_notPadding _).optional, .inr integer.required, .inr integer.required,
    .inr integer.required, .inr integer.required, .inr truth.required, .inr truth.required,
    .inr truth.optional, .inr truth.required, .inr truth.optional, .inr truth.required,
    .inr integer.required, .inr integer.required, .inr truth.optional, .inl trivial, ?bounds⟩
  case bounds =>
    refine ⟨.inr ?paired, .inr ?supported, .inr (boundReadable_notPadding .min),
      .inr (boundReadable_notPadding .max), .inr integer.required, .inr ?positive, .inr ?known,
      .inr ?wellFormed, .inr (Kind.keyword_notPadding _).optional, List.forall_mem_nil _⟩
    case paired =>
      rintro ⟨_, _, _, reported⟩
      cases reported
    case supported =>
      rintro ⟨_, _, reported⟩
      cases reported
    case positive =>
      rintro ⟨_, _, reported⟩
      cases reported
    case known =>
      rintro ⟨_, _, reported⟩
      cases reported
    case wellFormed =>
      rintro ⟨_, _, _, _, _, _, reported⟩
      cases reported

theorem empty_of_emptyPadding (failed : decode config column = .error (.emptyPadding raw)) :
    raw = "" ∧ config.contains SegmentKey.paddingCharacter.name = true ∧
      config.textOr SegmentKey.paddingCharacter.name "" = "" := by
  obtain ⟨k, member, violated, reported⟩ :=
    (((decode_checks config column).error_iff _).1 failed).exists_reports
  rcases eq_paddingSpelt_or_notPadding raw k member with rfl | silent
  swap
  · exact absurd reported silent
  rw [paddingSpelt] at violated reported
  dsimp only at violated reported
  rw [Classical.not_imp] at violated
  obtain ⟨present, unspelt⟩ := violated
  cases read : Text.unescape? (config.textOr SegmentKey.paddingCharacter.name "").toList with
  | none =>
    rw [read] at reported
    cases reported
  | some out =>
    rw [read] at reported
    cases reported
    cases out with
    | cons c cs => exact absurd ⟨c, cs, read⟩ unspelt
    | nil =>
      have empty := (Text.unescape?_eq_some_iff.1 read).measured.nil_iff.1 rfl
      have empty := String.toList_eq_nil_iff.1 empty
      exact ⟨empty, present, empty⟩

end Column

/-- Resolving escapes never gives more characters than there were, gives none only if there were
    none, and leaves a text as it is only if it has no backslash, its last character apart.  So no
    file stores the empty key, and a column is refused for its padding character only if the
    padding text, with its references replaced, is empty. -/
theorem never_emptied :
    (∀ raw text, Literal.unescaped raw = .ok text →
      text.length ≤ raw.length ∧ (text = "" ↔ raw = "") ∧
        (text = raw ↔ '\\' ∉ raw.toList.dropLast)) ∧
    (∀ text store, PropertyStore.parse text = .ok store → "" ∉ store.keys) ∧
    (∀ config column raw, Column.decode config column = .error (.emptyPadding raw) →
      raw = "" ∧ config.contains SegmentKey.paddingCharacter.name = true ∧
        config.textOr SegmentKey.paddingCharacter.name "" = "") ∧
    (∀ (store : PropertyStore) column raw,
      Column.decode store.config column = .error (.emptyPadding raw) →
        store.text? SegmentKey.paddingCharacter.name = some "") ∧
    (∀ (m : PlainMap) column raw, Column.decode m.config column = .error (.emptyPadding raw) →
      m.find? SegmentKey.paddingCharacter.name = some "") := by
  refine ⟨?_, ?_, ?_, ?_, ?_⟩
  · intro raw text read
    obtain ⟨shorter, emptied, same⟩ := Literal.measured_of_unescaped read
    rw [String.toList_eq_nil_iff, String.toList_eq_nil_iff] at emptied
    rw [String.toList_inj] at same
    exact ⟨shorter, emptied, same⟩
  · intro text store parsed member
    exact PropertyStore.ne_empty_of_mem_keys parsed member rfl
  · intro config column raw failed
    exact Column.empty_of_emptyPadding failed
  · intro store column raw failed
    obtain ⟨_, present, empty⟩ := Column.empty_of_emptyPadding failed
    obtain ⟨value, stored⟩ := Option.isSome_iff_exists.1 present
    have stored : store.raw? SegmentKey.paddingCharacter.name = some value := stored
    simp only [Config.textOr, PropertyStore.config, PropertyStore.text?, stored, Option.map_some,
      Option.getD_some] at empty ⊢
    rw [empty]
  · intro m column raw failed
    obtain ⟨_, present, empty⟩ := Column.empty_of_emptyPadding failed
    obtain ⟨value, stored⟩ := Option.isSome_iff_exists.1 present
    have stored : m.find? SegmentKey.paddingCharacter.name = some value := stored
    simp only [Config.textOr, PlainMap.config, stored, Option.getD_some] at empty ⊢
    rw [empty]

/-- The sample, with a padding text that is a reference to an empty one. -/
def blankPadding : PropertyStore :=
  let properties : PropertyStore :=
    ⟨Column.sample.entries.map fun (key, text) => (key, { text, items := [text] })⟩
  (properties.set SegmentKey.paddingCharacter.name "$\x7bblank\x7d").set "blank" ""

/-- What is read from a line without a key and one whose key is an escaped blank. -/
def blankKey : PropertyStore where
  entries := [(" ", { text := "2", items := ["2"] })]

theorem never_emptied_blankPadding :
    (Literal.unescaped "\\u0061b\\" = .ok "ab\\" ∧
      ("ab\\" = "\\u0061b\\" ↔ '\\' ∉ "\\u0061b\\".toList.dropLast)) ∧
    (PropertyStore.parse "= 1\n\\u0020 = 2" = .ok blankKey ∧ "" ∉ blankKey.keys) ∧
    Column.decode blankPadding.config "t.x" = .error (.emptyPadding "") ∧
    blankPadding.text? SegmentKey.paddingCharacter.name = some "" := by
  have read : Literal.unescaped "\\u0061b\\" = .ok "ab\\" := by decide +kernel
  have parsed : PropertyStore.parse "= 1\n\\u0020 = 2" = .ok blankKey := by decide +kernel
  have failed : Column.decode blankPadding.config "t.x" = .error (.emptyPadding "") := by
    have emptyPadding : (Column.decode blankPadding.config "t.x" matches
        .error (.emptyPadding "")) = true := by decide +kernel
    split at emptyPadding
    · assumption
    · cases emptyPadding
  obtain ⟨texts, keys, _, stores, _⟩ := never_emptied
  exact ⟨⟨read, (texts _ _ read).2.2⟩, ⟨parsed, keys _ _ parsed⟩, failed, stores _ _ _ failed⟩

end SegmentCatalog
