import SegmentCatalog.Config.PropertyStore
import SegmentCatalog.Proofs.Text.Capitals
import SegmentCatalog.Proofs.Text.Parts
import SegmentCatalog.Schema.FieldType
import SegmentCatalog.Schema.TextIndexType
import SegmentCatalog.Schema.TimeUnit

/-! # Words that are looked up

Truth values and the members of vocabularies are recorded as words, and both are read without regard
to case and to the white space around them.  Truth values are looked up in small letters, and just
the ten words that stand for one are read, in any case (`Config.boolean_by_words`).

Members are looked up in capitals, and some characters beyond a to z are written in capitals of
ASCII.  So a name is read from any text that has its letters, in either case or as one of these
characters (`Literal.member_by_letters`).
-/

namespace SegmentCatalog

/-! ## Truth values -/

namespace Literal

/-- The text is one of the words, case and surrounding white space apart. -/
def Says (words : List String) (text : String) : Prop :=
  ∃ word ∈ words, Text.SameLetters (Text.trim text.toList) word.toList

instance (words : List String) (text : String) : Decidable (Says words text) :=
  inferInstanceAs (Decidable (∃ word ∈ words, _))

/-- The words for a truth value. -/
def wordsFor : Bool → List String
  | true => trueWords
  | false => falseWords

variable {key text : String} {b : Bool} {e : DecodeError}

theorem boolean?_eq_some_iff : boolean? text = some b ↔ Says (wordsFor b) text := by
  have small : ∀ b, ∀ word ∈ wordsFor b, Text.lower word.toList = word.toList := by decide
  have apart : ∀ word ∈ falseWords, word ∉ trueWords := by decide
  rw [Says, ← Text.lower_mem_iff (small b), boolean?]
  -- the words for `false` come second, and are none of the words for `true`
  cases b with
  | true => simp [wordsFor]
  | false =>
    simp only [wordsFor]
    constructor
    · intro found
      split at found
      · cases found
      · split at found
        · assumption
        · cases found
    · intro member
      rw [if_neg (apart _ member), if_pos member]

theorem boolean_eq_ok_iff : boolean key text = .ok b ↔ Says (wordsFor b) text := by
  rw [← boolean?_eq_some_iff, boolean]
  cases boolean? text with
  | none => simp
  | some other => simp

theorem boolean_eq_error_iff : boolean key text = .error e ↔
    ¬ Says trueWords text ∧ ¬ Says falseWords text ∧ e = .malformedBoolean key text := by
  have isTrue : boolean? text = some true ↔ Says trueWords text := boolean?_eq_some_iff
  have isFalse : boolean? text = some false ↔ Says falseWords text := boolean?_eq_some_iff
  rw [← isTrue, ← isFalse, boolean]
  cases boolean? text with
  | none => simp [eq_comm]
  | some other => cases other <;> simp

end Literal

open Literal (Says)

namespace Config

/-- A truth value is read from ten words and from no others, whatever the case of their letters and
    the white space around them; a required one has to be there, and any other is the default when
    its key is absent, and is read in the same way when it is not.  Absent are the keys that a store
    does not have. -/
theorem boolean_by_words (config : Config) (key : String) :
    (∀ text, config.text? key = some text →
      (config.boolean key = .ok true ↔ Says ["true", "yes", "on", "y", "t"] text) ∧
      (config.boolean key = .ok false ↔ Says ["false", "no", "off", "n", "f"] text) ∧
      (∀ e, config.boolean key = .error e ↔
        ¬ Says ["true", "yes", "on", "y", "t"] text ∧
        ¬ Says ["false", "no", "off", "n", "f"] text ∧ e = .malformedBoolean key text) ∧
      ∀ default, config.booleanOr key default = config.boolean key) ∧
    (config.text? key = none →
      config.boolean key = .error (.missingProperty key) ∧
      ∀ default, config.booleanOr key default = .ok default) ∧
    (∀ store : PropertyStore, store.config.text? key = none ↔ key ∉ store.keys) ∧
    ∀ map : PlainMap, map.config.text? key = none ↔ key ∉ map.keys := by
  refine ⟨?_, ?_, ?_, ?_⟩
  · intro text present
    have optional : ∀ default, config.booleanOr key default = Literal.boolean key text := by
      intro default
      rw [booleanOr, present]
    rw [boolean_of_present present]
    exact ⟨Literal.boolean_eq_ok_iff, Literal.boolean_eq_ok_iff,
      fun e => Literal.boolean_eq_error_iff, optional⟩
  · intro absent
    refine ⟨boolean_of_absent absent, ?_⟩
    intro default
    rw [booleanOr, absent]
  · intro store
    show store.text? key = none ↔ _
    rw [PropertyStore.text?, PropertyStore.raw?, Option.map_eq_none_iff, Option.map_eq_none_iff,
      OrderedMap.find?_eq_none_iff]
  · intro map
    exact OrderedMap.find?_eq_none_iff

/-- A word that is put together of two values, and one that is none. -/
def pieced : PropertyStore :=
  ((PropertyStore.set OrderedMap.empty "k" "\t${half}S\u3000").set "half" "yE").set "m" "${half}?"

theorem boolean_by_words_pieced :
    (pieced.config.text? "k" = some "\tyES\u3000" ∧ pieced.config.boolean "k" = .ok true) ∧
    (pieced.config.text? "m" = some "yE?" ∧
      pieced.config.boolean "m" = .error (.malformedBoolean "m" "yE?")) ∧
    pieced.config.text? "l" = none ∧ pieced.config.booleanOr "l" true = .ok true := by
  have joined : pieced.config.text? "k" = some "\tyES\u3000" := by decide +kernel
  have unknown : pieced.config.text? "m" = some "yE?" := by decide +kernel
  have absent : pieced.config.text? "l" = none := by decide +kernel
  obtain ⟨affirmed, _⟩ := (boolean_by_words pieced.config "k").1 _ joined
  obtain ⟨_, _, refused, _⟩ := (boolean_by_words pieced.config "m").1 _ unknown
  obtain ⟨_, default⟩ := (boolean_by_words pieced.config "l").2.1 absent
  refine ⟨⟨joined, affirmed.2 ?_⟩, ⟨unknown, (refused _).2 ⟨?_, ?_, rfl⟩⟩, absent, default true⟩
  · decide +kernel
  · decide +kernel
  · decide +kernel

/-- A single letter for an answer. -/
def brief : PlainMap := OrderedMap.empty.insert "k" "y"

/-- Whole words are not all that is read. -/
theorem not_boolean_by_wholeWords :
    brief.config.text? "k" = some "y" ∧
    ¬ (brief.config.boolean "k" = .ok true ↔ Says ["true", "yes", "on"] "y") := by
  decide +kernel

end Config

/-! ## Members of vocabularies -/

open Text (ReadsAs SameLetters Unfolded trim)

theorem Vocabulary.inCapitals_name {α : Type} [Vocabulary α] (x : α) :
    Text.InCapitals (name x).toList := by
  rw [← upper_name x]
  exact Text.inCapitals_upper _

namespace Literal

variable {α : Type} [Vocabulary α] {text : String} {x : α} {e : DecodeError}

theorem member_eq_ok_iff_find? : member α text = .ok x ↔ Vocabulary.find? α text = some x := by
  rw [member]
  cases Vocabulary.find? α text with
  | none => simp
  | some y => simp

theorem member_eq_error_iff_find? : member α text = .error e ↔
    Vocabulary.find? α text = none ∧ e = .unrecognized (Vocabulary.kind α) text := by
  rw [member]
  cases Vocabulary.find? α text with
  | none => simp [eq_comm]
  | some y => simp

theorem find?_eq_some_iff_readsAs :
    Vocabulary.find? α text = some x ↔ ReadsAs (trim text.toList) (Vocabulary.name x).toList := by
  rw [Vocabulary.find?_eq_some_iff, eq_comm]
  exact Text.upper_eq_iff (Vocabulary.inCapitals_name x)

theorem member_eq_ok_iff :
    member α text = .ok x ↔ ReadsAs (trim text.toList) (Vocabulary.name x).toList := by
  rw [member_eq_ok_iff_find?, find?_eq_some_iff_readsAs]

theorem member_eq_error_iff : member α text = .error e ↔
    (∀ x : α, ¬ ReadsAs (trim text.toList) (Vocabulary.name x).toList) ∧
      e = .unrecognized (Vocabulary.kind α) text := by
  simp only [member_eq_error_iff_find?, Option.eq_none_iff_forall_ne_some, ne_eq,
    find?_eq_some_iff_readsAs]

/-- A member of a vocabulary is read from the texts that have the letters of its name, each in
    either case or as a character that is written as such letters in capitals, white space around
    the text apart.  Every other text is refused as it is.  If none of these characters is in the
    text, only the case of letters makes no difference. -/
theorem member_by_letters (α : Type) [Vocabulary α] (text : String) :
    (∀ x : α, member α text = .ok x ↔ ReadsAs (trim text.toList) (Vocabulary.name x).toList) ∧
    (∀ e, member α text = .error e ↔
      (∀ x : α, ¬ ReadsAs (trim text.toList) (Vocabulary.name x).toList) ∧
        e = .unrecognized (Vocabulary.kind α) text) ∧
    ((∀ c ∈ text.toList, Unfolded c) → ∀ x : α,
      member α text = .ok x ↔ SameLetters (trim text.toList) (Vocabulary.name x).toList) := by
  refine ⟨fun x => member_eq_ok_iff, fun e => member_eq_error_iff, ?_⟩
  intro plain x
  have inside : ∀ c ∈ trim text.toList, Unfolded c := by
    intro c member
    exact plain c ((Text.trim_part text.toList).subset member)
  rw [member_eq_ok_iff, Text.readsAs_iff_sameLetters inside]

/-- A ligature, a dotless i, a long s, and a text of plain letters. -/
theorem member_by_letters_each :
    member DataType "\ufb02oaT\u3000" = .ok .float ∧
    member FieldType " date_T\u0131me" = .ok .dateTime ∧
    member TextIndexType "lu\u017fene" = .error (.unrecognized "text index type" "lu\u017fene") ∧
    (∀ c ∈ "\tHoUrs".toList, Unfolded c) ∧ member TimeUnit "\tHoUrs" = .ok .hours := by
  have unknown : Vocabulary.find? TextIndexType "lu\u017fene" = none := by decide
  have plain : ∀ c ∈ "\tHoUrs".toList, Unfolded c := by
    intro c member letters listed
    have apart : ∀ pair ∈ Text.folded, pair.1 ∉ "\tHoUrs".toList := by decide
    exact apart _ listed member
  refine ⟨?_, ?_, ?_, plain, ?_⟩
  · exact ((member_by_letters DataType _).1 .float).2 (Text.readsAs_upper "\ufb02oaT".toList)
  · exact ((member_by_letters FieldType _).1 .dateTime).2
      (Text.readsAs_upper "date_T\u0131me".toList)
  · refine ((member_by_letters TextIndexType _).2.1 _).2 ⟨?_, rfl⟩
    intro x reads
    rw [find?_eq_some_iff_readsAs.2 reads] at unknown
    cases unknown
  · exact ((member_by_letters TimeUnit _).2.2 plain .hours).2 (by decide)

/-- Texts that differ in more than the case of letters may name a member, too. -/
theorem not_member_by_sameLetters :
    ¬ (member DataType "\u0131nt" = .ok .int ↔
      SameLetters (trim "\u0131nt".toList) (Vocabulary.name DataType.int).toList) := by
  decide

end Literal

end SegmentCatalog
