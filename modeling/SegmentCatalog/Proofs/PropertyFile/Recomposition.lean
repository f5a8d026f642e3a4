import SegmentCatalog.Proofs.PropertyFile.Assignments
import SegmentCatalog.Proofs.PropertyFile.Grouping
import SegmentCatalog.Proofs.PropertyFile.Verbatim
import SegmentCatalog.Proofs.Text.Parts

/-! # Lines and values put together again

A line is taken apart into a key and a value, and a value into items.  Nothing is lost.  A line is a
key, a gap, a value and white space, where the key and the gap are as long as they can be (`Parted`).
This tells what the key and the value are, for every line that does not end in an unpaired backslash:
`splitLine_parted`.  A value is its items with commas between them, one more of them than it has
commas that no backslash protects: `splitItems_rejoined`.

Both scans skip the character behind each backslash.  Whether this leaves a backslash over at the end
of a text can be seen from the backslashes that it ends in (`settled_iff_evenEnd`).
-/

namespace SegmentCatalog.PropertyFile

open Text (Settled Shielded)

variable {c : Char} {cs line text piece key gap value trail part front rest : List Char}
  {parts : List (List Char)}

/-! ## The end of a scan -/

theorem settled_of_continues : ∀ {cs : List Char}, continues cs = false → Settled cs
  | [], _ => .nil
  | c :: cs, finished => by
    by_cases backslash : c = '\\'
    · subst backslash
      cases cs with
      | nil => cases finished
      | cons d cs =>
        rw [continues_escaped] at finished
        exact .escaped (settled_of_continues finished)
    · rw [continues_cons_of_ne backslash] at finished
      exact .plain backslash (settled_of_continues finished)

theorem settled_iff_evenEnd : Settled cs ↔ EvenEnd cs := by
  rw [← continues_eq_false_iff]
  exact ⟨continues_of_settled, settled_of_continues⟩

/-! ## Items -/

/-- How many commas a scan of the text meets, where each backslash protects the character behind
    it. -/
def openCommas : List Char → Nat
  | [] => 0
  | ['\\'] => 0
  | '\\' :: _ :: rest => openCommas rest
  | ',' :: rest => openCommas rest + 1
  | _ :: rest => openCommas rest

theorem openCommas_append (settled : Settled front) (rest : List Char) :
    openCommas (front ++ rest) = openCommas front + openCommas rest := by
  induction settled with
  | nil => simp [openCommas]
  | @plain c cs other _ ih =>
    by_cases comma : c = ','
    · simp only [comma, List.cons_append, openCommas, ih]
      omega
    · simp [openCommas, other, ih]
  | escaped _ ih => simp [openCommas, ih]

theorem openCommas_of_whole (whole : Whole part) : openCommas part = 0 := by
  rw [whole_iff_shielded] at whole
  fun_induction openCommas part with
  | case1 => rfl
  | case2 => rfl
  | case3 c rest ih => exact ih (Shielded.behind (.escaped .nil) whole)
  | case4 rest _ => exact absurd .nil (whole [] ',' rest rfl rfl)
  | case5 c rest alone pair _ ih =>
    exact ih (Shielded.behind (.plain (ne_backslash alone pair) .nil) whole)

theorem Cut.whole (cut : Cut value parts) : ∀ part ∈ parts, Whole part := by
  induction cut with
  | last whole => exact List.forall_mem_singleton.2 whole
  | more whole _ _ ih => exact List.forall_mem_cons.2 ⟨whole, ih⟩

theorem Cut.intercalate (cut : Cut value parts) : [','].intercalate parts = value := by
  induction cut with
  | last _ => exact List.intercalate_singleton
  | more _ _ later ih =>
    rw [List.intercalate_cons_of_ne_nil later.ne_nil, ih, List.append_assoc]
    rfl

theorem Cut.length (cut : Cut value parts) : parts.length = openCommas value + 1 := by
  induction cut with
  | last whole => simp [openCommas_of_whole whole]
  | more whole settled _ ih =>
    rw [openCommas_append settled, openCommas_of_whole whole, List.length_cons, ih, openCommas]
    omega

theorem Cut.append {parts' : List (List Char)} (cut : Cut front parts) (settled : Settled front)
    (behind : Cut rest parts') : Cut (front ++ ',' :: rest) (parts ++ parts') := by
  induction cut with
  | last whole => exact .more whole settled behind
  | more whole closed _ ih =>
    rw [List.append_assoc]
    exact .more whole closed (ih ((closed.of_append settled).of_cons (by decide)))

/-- A value is its items with commas between them.  No item has a comma that is not protected, and
    there is one item more than the value has such commas.  Where two values are joined with a comma,
    and the first does not end in an unpaired backslash, the items of the first come in front of
    those of the second. -/
theorem splitItems_rejoined (value : List Char) :
    [','].intercalate (splitItems value) = value ∧
    (∀ part ∈ splitItems value, openCommas part = 0) ∧
    (splitItems value).length = openCommas value + 1 ∧
    (EvenEnd value →
      ∀ rest, splitItems (value ++ ',' :: rest) = splitItems value ++ splitItems rest) := by
  have cut := cut_splitItems value
  refine ⟨cut.intercalate, fun part member => openCommas_of_whole (cut.whole part member),
    cut.length, fun even rest => ?_⟩
  have joined := cut.append (settled_iff_evenEnd.2 even) (cut_splitItems rest)
  exact (cut_splitItems _).unique joined

/-- A protected comma, and a comma behind an escaped backslash. -/
def protectedCommas : List Char := "a\\,b,c\\\\,d".toList

theorem splitItems_rejoined_protected :
    EvenEnd protectedCommas ∧
    [','].intercalate (splitItems protectedCommas) = protectedCommas ∧
    openCommas "a\\,b".toList = 0 ∧
    (splitItems protectedCommas).length = 3 ∧
    splitItems (protectedCommas ++ ',' :: [',', '\\']) =
      splitItems protectedCommas ++ splitItems [',', '\\'] := by
  have even : EvenEnd protectedCommas := continues_eq_false_iff.1 (by decide)
  have first : "a\\,b".toList ∈ splitItems protectedCommas := by decide
  have two : openCommas protectedCommas = 2 := by decide
  obtain ⟨joined, solid, count, append⟩ := splitItems_rejoined protectedCommas
  exact ⟨even, joined, solid _ first, by rw [count, two], append even _⟩

/-! ## Keys -/

/-- The longest piece with a property that the text starts with. -/
structure Longest (p : List Char → Prop) (text piece : List Char) : Prop where
  starts : piece <+: text
  holds : p piece
  longest : ∀ other, other <+: text → p other → other.length ≤ piece.length

theorem Longest.unique {p : List Char → Prop} {piece' : List Char} (first : Longest p text piece)
    (second : Longest p text piece') : piece = piece' := by
  have shorter := second.longest piece first.starts first.holds
  have longer := first.longest piece' second.starts second.holds
  have isPrefix := List.prefix_of_prefix_length_le first.starts second.starts shorter
  exact isPrefix.eq_of_length (Nat.le_antisymm shorter longer)

def separators : List Char := ['=', ':', ' ', '\t']

theorem isSeparator_iff : isSeparator c = true ↔ c ∈ separators := by
  simp [isSeparator, isInlineBlank, separators, or_assoc]

/-- Every separator of the text is protected. -/
def Unseparated (cs : List Char) : Prop := Shielded (· ∈ separators) cs

/-- A key ends where it does because of what stands behind it: a separator that is not protected, or
    nothing. -/
structure KeyEnds (key rest : List Char) : Prop where
  settled : Settled key
  unseparated : Unseparated key
  stops : ∀ c ∈ rest.head?, c ∈ separators

theorem keyEnds_splitKey (line : List Char) : KeyEnds (splitKey line).1 (splitKey line).2 := by
  fun_induction splitKey line with
  | case1 => exact ⟨.nil, Text.shielded_nil, by simp⟩
  | case2 => exact ⟨.nil, Text.shielded_nil, by simp⟩
  | case3 c rest key left split ih =>
    rw [split] at ih
    exact ⟨ih.settled.escaped, ih.unseparated.escaped (by decide), ih.stops⟩
  | case4 c rest _ _ separates =>
    exact ⟨.nil, Text.shielded_nil, by simpa using isSeparator_iff.1 separates⟩
  | case5 c rest alone pair inside key left split ih =>
    rw [split] at ih
    have other := ne_backslash alone pair
    have solid : c ∉ separators := mt isSeparator_iff.2 inside
    exact ⟨ih.settled.plain other, ih.unseparated.plain other solid, ih.stops⟩

theorem KeyEnds.longest (ends : KeyEnds key rest) : Longest Unseparated (key ++ rest) key where
  starts := List.prefix_append key rest
  holds := ends.unseparated
  longest := by
    intro other starts unseparated
    by_contra! longer
    -- what is longer than the key has the separator behind it
    obtain ⟨more, rfl⟩ :=
      List.prefix_of_prefix_length_le (List.prefix_append key rest) starts (Nat.le_of_lt longer)
    rw [List.prefix_append_right_inj] at starts
    cases more with
    | nil => simp at longer
    | cons c more =>
      obtain ⟨behind, rfl⟩ := starts
      exact unseparated key c more rfl (ends.stops c rfl) ends.settled

theorem splitKey_fst_eq_nil_iff (settled : Settled line) :
    (splitKey line).1 = [] ↔ line = [] ∨ ∃ c ∈ line.head?, c ∈ separators := by
  have ends := keyEnds_splitKey line
  have whole := splitKey_append settled
  generalize splitKey line = halves at ends whole
  obtain ⟨key, rest⟩ := halves
  subst whole
  cases key with
  | nil =>
    cases rest with
    | nil => simp
    | cons c rest => simpa using ends.stops c rfl
  | cons c key =>
    -- the first character of a key has nothing in front of it to protect it
    have solid : c ∉ separators := fun member => ends.unseparated [] c key rfl member .nil
    simp [solid]

/-! ## Gaps -/

/-- Blanks, at most one equals sign or colon, and blanks. -/
def Spacing (cs : List Char) : Prop := cs = [] ∨ Gap cs

theorem dropSign_cases (cs : List Char) :
    (∃ sign rest, (sign = '=' ∨ sign = ':') ∧ cs = sign :: rest ∧ dropSign cs = rest) ∨
      dropSign cs = cs := by
  unfold dropSign
  split
  · exact .inl ⟨'=', _, .inl rfl, rfl, rfl⟩
  · exact .inl ⟨':', _, .inr rfl, rfl, rfl⟩
  · exact .inr rfl

/-- Of a gap in front of a text nothing is left. -/
theorem behindGap_append (spacing : Spacing gap) (rest : List Char) :
    behindGap (gap ++ rest) <:+ rest := by
  cases spacing with
  | inl empty =>
    subst empty
    exact behindGap_suffix rest
  | inr separates =>
    cases separates.behindGap_append rest with
    | inl same =>
      rw [same]
      exact behindGap_suffix rest
    | inr same =>
      rw [same]
      exact List.dropWhile_suffix _

theorem exists_spacing (cs : List Char) : ∃ gap, gap ++ behindGap cs = cs ∧ Spacing gap := by
  have blanks : ∀ cs : List Char, ∀ c ∈ cs.takeWhile isInlineBlank, isInlineBlank c = true :=
    fun _ _ => List.mem_takeWhile_imp
  have whole := List.takeWhile_append_dropWhile (p := isInlineBlank) (l := cs)
  obtain ⟨sign, rest, isSign, shape, dropped⟩ | kept := dropSign_cases (cs.dropWhile isInlineBlank)
  · refine ⟨cs.takeWhile isInlineBlank ++ sign :: rest.takeWhile isInlineBlank, ?_,
      .inr (.sign isSign (blanks cs) (blanks rest))⟩
    rw [behindGap, dropped, List.append_assoc, List.cons_append, List.takeWhile_append_dropWhile,
      ← shape, whole]
  · refine ⟨cs.takeWhile isInlineBlank, ?_, ?_⟩
    · rw [behindGap, kept, List.dropWhile_idempotent, whole]
    · by_cases empty : cs.takeWhile isInlineBlank = []
      · exact .inl empty
      · exact .inr (.blanks empty (blanks cs))

theorem longest_gap {gap : List Char} (whole : gap ++ behindGap cs = cs) (spacing : Spacing gap) :
    Longest Spacing cs gap where
  starts := ⟨_, whole⟩
  holds := spacing
  longest := by
    rintro other ⟨more, same⟩ spacing'
    have left := (behindGap_append spacing' more).length_le
    have lengths := congrArg List.length (whole.trans same.symm)
    rw [same] at left
    simp only [List.length_append] at lengths
    omega

/-! ## Lines -/

/-- The line is a key, a gap, a value and white space. -/
structure Parted (line key gap value trail : List Char) : Prop where
  whole : line = key ++ gap ++ value ++ trail
  key : Longest Unseparated line key
  gap : Longest Spacing (gap ++ value ++ trail) gap
  value : ∀ c ∈ value.getLast?, Text.isBlank c = false
  trail : ∀ c ∈ trail, Text.isBlank c = true

theorem exists_parted (settled : Settled line) :
    ∃ gap trail, Parted line (splitLine line).1 gap (splitLine line).2 trail := by
  have key := (keyEnds_splitKey line).longest
  have whole := splitKey_append settled
  obtain ⟨gap, between, spacing⟩ := exists_spacing (splitKey line).2
  obtain ⟨trail, ends, blank⟩ := Text.exists_trimEnd_append (behindGap (splitKey line).2)
  have rest : gap ++ valueOf (splitKey line).2 ++ trail = (splitKey line).2 := by
    rw [valueOf_eq, List.append_assoc, ends, between]
  refine ⟨gap, trail, ?_, ?_, ?_, Text.not_blank_of_getLast?_trimEnd _, blank⟩
  · show line = (splitKey line).1 ++ gap ++ valueOf (splitKey line).2 ++ trail
    rw [List.append_assoc, List.append_assoc, ← List.append_assoc gap, rest, whole]
  · rwa [whole] at key
  · show Longest Spacing (gap ++ valueOf (splitKey line).2 ++ trail) gap
    rw [rest]
    exact longest_gap between spacing

theorem Parted.splitLine_eq (parted : Parted line key gap value trail) (settled : Settled line) :
    splitLine line = (key, value) := by
  -- the key first, then the gap, each as the longest of its kind; the white space is trimmed off
  have own := (keyEnds_splitKey line).longest
  have whole := splitKey_append settled
  rw [whole] at own
  have sameKey := own.unique parted.key
  have rest : (splitKey line).2 = gap ++ (value ++ trail) := by
    have same := whole.trans parted.whole
    rw [sameKey, List.append_assoc, List.append_assoc] at same
    exact List.append_cancel_left same
  obtain ⟨gap', between, spacing⟩ := exists_spacing (splitKey line).2
  have sameGap : gap' = gap := by
    have gap := parted.gap
    rw [List.append_assoc, ← rest] at gap
    exact (longest_gap between spacing).unique gap
  have behind : behindGap (splitKey line).2 = value ++ trail := by
    rw [sameGap] at between
    exact List.append_cancel_left (between.trans rest)
  show ((splitKey line).1, valueOf (splitKey line).2) = (key, value)
  rw [valueOf_eq, sameKey, behind, Text.trimEnd_append parted.trail,
    Text.trimEnd_of_last parted.value]

/-- A line that does not end in an unpaired backslash is the key it is split into, a gap, the value it
    is split into and white space, and there is no other way to see it so.  The key is empty if the
    line is, or starts with a separator.  No logical line ends in an unpaired backslash. -/
theorem splitLine_parted :
    (∀ line, EvenEnd line →
      (∀ key value, splitLine line = (key, value) ↔ ∃ gap trail, Parted line key gap value trail) ∧
      ((splitLine line).1 = [] ↔ line = [] ∨ ∃ c ∈ line.head?, c ∈ separators)) ∧
    ∀ text, ∀ line ∈ logicalLines text, EvenEnd line := by
  constructor
  · intro line even
    have settled := settled_iff_evenEnd.2 even
    refine ⟨fun key value => ⟨?_, ?_⟩, splitKey_fst_eq_nil_iff settled⟩
    · intro split
      simpa [split] using exists_parted settled
    · rintro ⟨gap, trail, parted⟩
      exact parted.splitLine_eq settled
  · exact fun text => (grouped_join ((physicalLines text).map Text.trimStart)).evenEnd

/-- The key has protected separators and ends in an escaped backslash; the second sign belongs to
    the value. -/
def protectedSeparators : List Char := "\\ a\\=\\\\\t= : b \u00a0".toList

theorem splitLine_parted_protected :
    EvenEnd protectedSeparators ∧
    splitLine protectedSeparators = ("\\ a\\=\\\\".toList, ": b".toList) ∧
    ∃ gap trail, Parted protectedSeparators "\\ a\\=\\\\".toList gap ": b".toList trail := by
  have even : EvenEnd protectedSeparators := continues_eq_false_iff.1 (by decide)
  have split : splitLine protectedSeparators = ("\\ a\\=\\\\".toList, ": b".toList) := by decide
  exact ⟨even, split, ((splitLine_parted.1 protectedSeparators even).1 _ _).1 split⟩

end SegmentCatalog.PropertyFile
