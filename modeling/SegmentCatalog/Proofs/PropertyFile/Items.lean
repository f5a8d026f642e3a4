import Mathlib.Data.List.Forall2
import SegmentCatalog.Config.PropertyFile
import SegmentCatalog.Proofs.Text.Protection
import SegmentCatalog.Proofs.Traversal

/-! # A value and its items

The items of a value are its parts between the commas that no backslash protects.  `Cut` says this
without the scanner that finds them (`cut_splitItems`, `Cut.unique`).

The value is read as a whole and item by item.  Both readings accept the same values, and what they
give is the same text, cut or joined at those commas (`unescaped_eq_ok_iff_items`).  Items are
trimmed before they are read, so this is what a file stores only if there is nothing to trim;
`Tight` values are such, and `tight_iff` says that no others are.
-/

namespace SegmentCatalog.PropertyFile

open Text (Settled Shielded Spelt FourCharacters)

variable {value part front rest line : List Char} {parts : List (List Char)} {c : Char}

/-! ## Parts between commas -/

/-- Every comma of the text is protected. -/
def Whole (cs : List Char) : Prop := ∀ front rest, cs = front ++ ',' :: rest → ¬ Settled front

/-- The parts of a text between the commas that are not protected. -/
inductive Cut : List Char → List (List Char) → Prop
  | last {part : List Char} (whole : Whole part) : Cut part [part]
  | more {part rest : List Char} {parts : List (List Char)} (whole : Whole part)
      (settled : Settled part) (later : Cut rest parts) : Cut (part ++ ',' :: rest) (part :: parts)

theorem whole_iff_shielded {cs : List Char} : Whole cs ↔ Shielded (· = ',') cs := by
  constructor
  · rintro whole front _ rest same rfl
    exact whole front rest same
  · intro shielded front rest same
    exact shielded front ',' rest same rfl

theorem whole_nil : Whole [] := whole_iff_shielded.2 Text.shielded_nil

theorem whole_backslash : Whole ['\\'] := by
  intro front rest same
  cases front with
  | nil => cases same
  | cons c front => simp at same

theorem Whole.plain (whole : Whole rest) (other : c ≠ '\\') (inside : c ≠ ',') :
    Whole (c :: rest) :=
  whole_iff_shielded.2 <| (whole_iff_shielded.1 whole).plain other inside

theorem Whole.escaped (whole : Whole rest) : Whole ('\\' :: c :: rest) :=
  whole_iff_shielded.2 <| (whole_iff_shielded.1 whole).escaped (by decide)

/-- The last equation of a scan is about characters other than the backslash. -/
theorem ne_backslash (alone : c = '\\' → rest = [] → False)
    (pair : ∀ d left, c = '\\' → rest = d :: left → False) : c ≠ '\\' := by
  intro same
  cases rest with
  | nil => exact alone same rfl
  | cons d rest => exact pair d rest same rfl

/-- What is put in front of a text goes to the first of its parts. -/
theorem Cut.onFirst (cut : Cut value parts) (settled : Settled front)
    (joins : ∀ part, Whole part → Whole (front ++ part)) :
    Cut (front ++ value) (onFirst front parts) := by
  cases cut with
  | last whole => exact .last (joins _ whole)
  | more whole closed later =>
    rw [← List.append_assoc]
    exact .more (joins _ whole) (settled.append closed) later

theorem cut_splitItems (value : List Char) : Cut value (splitItems value) := by
  fun_induction splitItems value with
  | case1 => exact .last whole_nil
  | case2 => exact .last whole_backslash
  | case3 c rest ih => exact ih.onFirst (.escaped .nil) fun _ whole => whole.escaped
  | case4 rest ih => exact .more whole_nil .nil ih
  | case5 c rest alone pair inside ih =>
    have other := ne_backslash alone pair
    exact ih.onFirst (.plain other .nil) fun _ whole => whole.plain other inside

/-- A comma that is not protected is the first one of the text, or stands behind the first one. -/
theorem Whole.comma_cases {behind : List Char} (whole : Whole part) (settled : Settled part)
    (same : part ++ ',' :: rest = front ++ ',' :: behind) (settled' : Settled front) :
    (front = part ∧ behind = rest) ∨
      ∃ left, front = part ++ ',' :: left ∧ rest = left ++ ',' :: behind ∧ Settled left := by
  cases List.append_eq_append_iff.1 same with
  | inl longer =>
    obtain ⟨left, rfl, start⟩ := longer
    cases left with
    | nil => exact .inl ⟨List.append_nil part, (List.cons.inj start).2.symm⟩
    | cons _ left =>
      obtain ⟨rfl, behind⟩ := List.cons.inj start
      exact .inr ⟨left, rfl, behind, (settled.of_append settled').of_cons (by decide)⟩
  | inr shorter =>
    obtain ⟨left, rfl, start⟩ := shorter
    cases left with
    | nil => exact .inl ⟨(List.append_nil front).symm, (List.cons.inj start).2⟩
    | cons _ left =>
      -- a part has no comma that is not protected
      obtain ⟨rfl, _⟩ := List.cons.inj start
      exact absurd settled' (whole front left rfl)

/-- There is one way to cut a text at the commas that are not protected. -/
theorem Cut.unique {parts' : List (List Char)} (cut : Cut value parts) (cut' : Cut value parts') :
    parts = parts' := by
  induction cut generalizing parts' with
  | last whole =>
    cases cut' with
    | last _ => rfl
    | more _ settled' _ => exact absurd settled' (whole _ _ rfl)
  | @more part rest parts whole settled _ ih =>
    generalize same : part ++ ',' :: rest = value at cut'
    cases cut' with
    | last whole' => exact absurd settled (whole' _ _ same.symm)
    | more whole' settled' later' =>
      cases whole.comma_cases settled same settled' with
      | inl first =>
        obtain ⟨rfl, rfl⟩ := first
        rw [ih later']
      | inr further =>
        obtain ⟨left, rfl, _, _⟩ := further
        exact absurd settled (whole' part left rfl)

theorem Whole.splitItems (whole : Whole value) : splitItems value = [value] :=
  (cut_splitItems value).unique (.last whole)

theorem Cut.ne_nil (cut : Cut value parts) : parts ≠ [] := by
  cases cut with
  | last _ => simp
  | more _ _ _ => simp

/-! ## White space around the parts -/

/-- A text that neither starts nor ends with white space. -/
structure Unpadded (cs : List Char) : Prop where
  first : ∀ c ∈ cs.head?, Text.isBlank c = false
  last : ∀ c ∈ cs.getLast?, Text.isBlank c = false

instance : DecidablePred Unpadded := fun cs =>
  -- tests the two characters themselves; a quantifier over characters may be tested on all of them
  decidable_of_iff (cs.head?.all (! Text.isBlank ·) = true ∧
      cs.getLast?.all (! Text.isBlank ·) = true) <| by
    simp only [Option.all_eq_true, Bool.not_eq_true']
    exact ⟨fun ⟨first, last⟩ => ⟨first, last⟩, fun ⟨first, last⟩ => ⟨first, last⟩⟩

theorem Unpadded.trim (unpadded : Unpadded part) : Text.trim part = part :=
  Text.trim_of_ends unpadded.first unpadded.last

/-- A value without white space at its ends or next to a comma that is not protected. -/
structure Tight (value : List Char) : Prop where
  unpadded : Unpadded value
  commas : ∀ front rest, value = front ++ ',' :: rest → Settled front →
    (∀ c ∈ front.getLast?, Text.isBlank c = false) ∧ ∀ c ∈ rest.head?, Text.isBlank c = false

theorem mem_getLast?_append_cons {d : Char} (last : c ∈ rest.getLast?) :
    c ∈ (front ++ d :: rest).getLast? := by
  obtain ⟨left, rfl⟩ := List.getLast?_eq_some_iff.1 last
  exact List.getLast?_eq_some_iff.2 ⟨front ++ d :: left, by simp⟩

theorem not_blank_of_getLast?_append_comma (last : ∀ c ∈ rest.getLast?, Text.isBlank c = false) :
    ∀ c ∈ (front ++ ',' :: rest).getLast?, Text.isBlank c = false := by
  cases rest with
  | nil => simp [Text.isBlank]
  | cons d rest => simpa using last

theorem Tight.behind (tight : Tight (front ++ ',' :: rest)) (settled : Settled front) :
    Tight rest where
  unpadded := {
    first := (tight.commas front rest rfl settled).2
    last := fun _ last => tight.unpadded.last _ (mem_getLast?_append_cons last) }
  commas := by
    intro front' rest' same settled'
    have comma : Settled (front ++ ',' :: front') := settled.append (.plain (by decide) settled')
    have around := tight.commas (front ++ ',' :: front') rest' (by simp [same]) comma
    exact ⟨fun c last => around.1 c (mem_getLast?_append_cons last), around.2⟩

theorem Cut.unpadded_of_tight (cut : Cut value parts) (tight : Tight value) :
    ∀ part ∈ parts, Unpadded part := by
  induction cut with
  | last _ => simpa using tight.unpadded
  | @more part rest parts _ settled _ ih =>
    have here : Unpadded part := {
      first := by
        intro c first
        apply tight.unpadded.first
        simp [Option.mem_def.1 first]
      last := (tight.commas part rest rfl settled).1 }
    exact List.forall_mem_cons.2 ⟨here, ih (tight.behind settled)⟩

theorem Cut.tight_of_unpadded (cut : Cut value parts) (unpadded : ∀ part ∈ parts, Unpadded part) :
    Tight value := by
  induction cut with
  | last whole =>
    exact ⟨by simpa using unpadded, fun front rest same settled => absurd settled (whole _ _ same)⟩
  | @more part rest parts whole settled _ ih =>
    obtain ⟨here, later⟩ := List.forall_mem_cons.1 unpadded
    have behind : Tight rest := ih later
    constructor
    · constructor
      · intro c first
        cases part with
        | nil =>
          cases first
          rfl
        | cons d part => exact here.first c first
      · exact not_blank_of_getLast?_append_comma behind.unpadded.last
    · intro front' rest' same settled'
      cases whole.comma_cases settled same settled' with
      | inl first =>
        obtain ⟨rfl, rfl⟩ := first
        exact ⟨here.last, behind.unpadded.first⟩
      | inr further =>
        obtain ⟨left, rfl, rfl, inside⟩ := further
        have around := behind.commas left rest' rfl inside
        exact ⟨not_blank_of_getLast?_append_comma around.1, around.2⟩

/-- A value is tight exactly if none of its parts has anything to trim. -/
theorem tight_iff : Tight value ↔ ∀ part ∈ splitItems value, Unpadded part :=
  ⟨(cut_splitItems value).unpadded_of_tight, (cut_splitItems value).tight_of_unpadded⟩

instance : DecidablePred Tight := fun _ => decidable_of_iff _ tight_iff.symm

/-! ## Reading the whole and reading the parts -/

theorem Cut.filled {related : List Char → List Char → Prop} {outs : List (List Char)}
    (cut : Cut value parts) (each : List.Forall₂ related parts outs) : outs ≠ [] := by
  rintro rfl
  exact cut.ne_nil (List.forall₂_nil_right_iff.1 each)

/-- A text is read as what its parts are read as, joined by commas. -/
theorem Cut.spelt_iff (cut : Cut value parts) {out : List Char} :
    Spelt FourCharacters value out ↔
      ∃ outs, List.Forall₂ (Spelt FourCharacters) parts outs ∧ out = [','].intercalate outs := by
  induction cut generalizing out with
  | last _ => simp [List.forall₂_cons_left_iff]
  | more _ settled later ih =>
    rw [Text.spelt_append_comma_iff settled]
    constructor
    · intro ⟨first, others, same, here, behind⟩
      obtain ⟨outs, each, rfl⟩ := ih.1 behind
      refine ⟨first :: outs, .cons here each, ?_⟩
      rw [same, List.intercalate_cons_of_ne_nil (later.filled each), ← List.append_cons]
    · intro ⟨outs, each, joined⟩
      cases each with
      | @cons _ first _ outs here each =>
        rw [List.intercalate_cons_of_ne_nil (later.filled each), ← List.append_cons] at joined
        exact ⟨first, _, joined, here, ih.2 ⟨outs, each, rfl⟩⟩

/-- The items of a value as they are written. -/
def rawItems (raw : String) : List String := (splitItems raw.toList).map String.ofList

theorem eq_intercalate_iff {text : String} {items : List String} :
    text = ",".intercalate items ↔ text.toList = [','].intercalate (items.map String.toList) := by
  have comma : ",".toList = [','] := rfl
  rw [← String.toList_inj, String.toList_intercalate, comma]

theorem unescaped_eq_ok_iff_items {raw text : String} : Literal.unescaped raw = .ok text ↔
    ∃ items, (rawItems raw).mapM Literal.unescaped = .ok items ∧ text = ",".intercalate items := by
  simp only [Literal.unescaped_eq_ok_iff, (cut_splitItems raw.toList).spelt_iff, mapM_eq_ok_iff,
    rawItems, List.forall₂_map_left_iff, String.toList_ofList, eq_intercalate_iff]
  constructor
  · intro ⟨outs, each, joined⟩
    refine ⟨outs.map String.ofList, ?_, ?_⟩
    · simpa using each
    · simpa using joined
  · intro ⟨items, each, joined⟩
    refine ⟨items.map String.toList, ?_, joined⟩
    simpa using each

/-! ## Definitions -/

theorem readLine_of_unnamed (unnamed : (splitLine line).1 = []) : readLine line = .ok none := by
  unfold readLine
  generalize splitLine line = halves at unnamed
  simp [unnamed]

/-- A line defines something if it has a key, and if its key, its items and its value can all be
    read. -/
theorem readLine_eq_some_iff {d : Definition} : readLine line = .ok (some d) ↔
    (splitLine line).1 ≠ [] ∧
      Literal.unescaped (.ofList (splitLine line).1) = .ok d.key ∧
      ((splitItems (splitLine line).2).mapM fun item =>
        Literal.unescaped (.ofList (Text.trim item))) = .ok d.items ∧
      Literal.unescaped (.ofList (splitLine line).2) = .ok d.text := by
  unfold readLine
  generalize splitLine line = halves
  obtain ⟨key, value⟩ := halves
  by_cases unnamed : key = []
  · simp [unnamed]
  · have named : key.isEmpty = false := by simpa using unnamed
    simp only [named, Bool.false_eq_true, if_false, bind_eq_ok, ne_eq, unnamed, not_false_eq_true,
      true_and]
    constructor
    · intro ⟨key, spelt, items, each, text, whole, same⟩
      cases same
      exact ⟨spelt, each, whole⟩
    · intro ⟨spelt, each, whole⟩
      exact ⟨d.key, spelt, d.items, each, d.text, whole, rfl⟩

/-- The items of a tight value are read as they are written. -/
theorem mapM_trim_of_tight (tight : Tight value) :
    ((splitItems value).mapM fun item => Literal.unescaped (.ofList (Text.trim item))) =
      (rawItems (.ofList value)).mapM Literal.unescaped := by
  have trimmed : (splitItems value).map (String.ofList ∘ Text.trim) =
      (splitItems value).map String.ofList :=
    List.map_congr_left fun part member =>
      congrArg String.ofList (tight_iff.1 tight part member).trim
  rw [rawItems, String.toList_ofList, ← trimmed, List.mapM_map]
  rfl

theorem ne_nil_of_mapM_rawItems {raw : String} {items : List String}
    (each : (rawItems raw).mapM Literal.unescaped = .ok items) : items ≠ [] := by
  rintro rfl
  have none := List.forall₂_nil_right_iff.1 (mapM_eq_ok_iff.1 each)
  exact (cut_splitItems raw.toList).ne_nil (List.map_eq_nil_iff.1 none)

/-- What is defined by a line with a tight value has a text that joins its items. -/
theorem text_eq_of_tight {d : Definition} (read : readLine line = .ok (some d))
    (tight : Tight (splitLine line).2) : d.items ≠ [] ∧ d.text = ",".intercalate d.items := by
  obtain ⟨_, _, each, whole⟩ := readLine_eq_some_iff.1 read
  rw [mapM_trim_of_tight tight] at each
  obtain ⟨items, each', joined⟩ := unescaped_eq_ok_iff_items.1 whole
  rw [each, Except.ok.injEq] at each'
  subst each'
  exact ⟨ne_nil_of_mapM_rawItems each, joined⟩

end SegmentCatalog.PropertyFile
