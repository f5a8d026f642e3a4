import SegmentCatalog.Proofs.PropertyFile.Protected

/-! # Lines that give a key a value

Between a key and its value there are blanks, a sign, or a sign among blanks (`Gap`); white space
stands at the start of the line and at its end, and then comes one of the two line ends.
`Assigns key value physical` says that the text is such a line.

If there is nothing to cut or to trim in the value, all these lines are read as the same definition,
whatever is behind them in the file: `Assigns.logicalLines`.
-/

namespace SegmentCatalog.PropertyFile

/-- What separates a key from its value. -/
inductive Gap : List Char → Prop
  | blanks {gap : List Char} (filled : gap ≠ []) (inline : ∀ c ∈ gap, isInlineBlank c = true) :
      Gap gap
  | sign {before after : List Char} {sign : Char} (isSign : sign = '=' ∨ sign = ':')
      (inBefore : ∀ c ∈ before, isInlineBlank c = true)
      (inAfter : ∀ c ∈ after, isInlineBlank c = true) : Gap (before ++ sign :: after)

/-- The text is one line, and gives the key the value. -/
inductive Assigns (key value : List Char) : List Char → Prop
  | line {lead gap trail ending : List Char}
      (leads : ∀ c ∈ lead, Text.isBlank c = true ∧ c ≠ '\n') (separates : Gap gap)
      (trails : ∀ c ∈ trail, Text.isBlank c = true ∧ c ≠ '\n' ∧ c ≠ '\r')
      (ends : ending = ['\n'] ∨ ending = ['\r', '\n']) :
      Assigns key value (lead ++ (key ++ gap ++ value ++ trail) ++ ending)

/-- A key that is written as it is. -/
structure Bare (key : List Char) : Prop where
  filled : key ≠ []
  plain : ∀ c ∈ key, c ≠ '\\' ∧ isSeparator c = false ∧ Text.isBlank c = false
  noRemark : ∀ c ∈ key.head?, c ≠ '#' ∧ c ≠ '!'

instance : DecidablePred Bare := fun key =>
  -- tests the characters of the key; a quantifier over characters may be tested on all of them
  decidable_of_iff (key ≠ [] ∧
      key.all (fun c => c != '\\' && !isSeparator c && !Text.isBlank c) = true ∧
      key.head?.all (fun c => c != '#' && c != '!') = true) <| by
    simp only [List.all_eq_true, Option.all_eq_true, Bool.and_eq_true, bne_iff_ne,
      Bool.not_eq_true', and_assoc]
    exact ⟨fun ⟨filled, plain, noRemark⟩ => ⟨filled, plain, noRemark⟩,
      fun ⟨filled, plain, noRemark⟩ => ⟨filled, plain, noRemark⟩⟩

/-- A value that is not mistaken for the gap in front of it or for a line that goes on. -/
structure Distinct (value : List Char) : Prop where
  filled : value ≠ []
  solid : '\n' ∉ value
  noSign : ∀ c ∈ value.head?, c ≠ '=' ∧ c ≠ ':'
  noBackslash : ∀ c ∈ value.getLast?, c ≠ '\\'

variable {key value out gap trail rest physical : List Char}

/-! ## Gaps -/

theorem Gap.mem {c : Char} (separates : Gap gap) (member : c ∈ gap) : isSeparator c = true := by
  cases separates with
  | blanks _ inline => simp [isSeparator, inline c member]
  | @sign before after sign isSign inBefore inAfter =>
    rcases List.mem_append.1 member with before | behind
    · simp [isSeparator, inBefore c before]
    · rcases List.mem_cons.1 behind with rfl | after
      · rcases isSign with rfl | rfl <;> rfl
      · simp [isSeparator, inAfter c after]

theorem Gap.filled (separates : Gap gap) : gap ≠ [] := by
  cases separates with
  | blanks filled _ => exact filled
  | sign _ _ _ => simp

theorem splitKey_gap (separates : Gap gap) (rest : List Char) :
    splitKey (gap ++ rest) = ([], gap ++ rest) := by
  obtain ⟨c, more, rfl⟩ := List.exists_cons_of_ne_nil separates.filled
  have separator := separates.mem (List.mem_cons_self ..)
  have other : c ≠ '\\' := by
    rintro rfl
    cases separator
  simp [splitKey, other, separator]

theorem splitKey_bare (bare : Bare key) (separates : Gap gap) (rest : List Char) :
    splitKey (key ++ (gap ++ rest)) = (key, gap ++ rest) := by
  have plain := bare.plain
  clear bare
  induction key with
  | nil => exact splitKey_gap separates rest
  | cons c key ih =>
    obtain ⟨⟨other, inside, _⟩, later⟩ := List.forall_mem_cons.1 plain
    simp [splitKey, other, inside, ih later]

/-- Behind a sign blanks are dropped, behind blanks alone there may still be a sign. -/
theorem Gap.behindGap_append (separates : Gap gap) (rest : List Char) :
    behindGap (gap ++ rest) = behindGap rest ∨
      behindGap (gap ++ rest) = rest.dropWhile isInlineBlank := by
  cases separates with
  | blanks _ inline =>
    left
    rw [behindGap, List.dropWhile_append_of_pos inline, ← behindGap]
  | @sign before after sign isSign inBefore inAfter =>
    have dropped : dropSign (sign :: (after ++ rest)) = after ++ rest := by
      rcases isSign with rfl | rfl <;> rfl
    have stops : isInlineBlank sign = false := by
      rcases isSign with rfl | rfl <;> rfl
    right
    rw [behindGap, List.append_assoc, List.dropWhile_append_of_pos inBefore, List.cons_append,
      List.dropWhile_cons_of_neg (by simp [stops]), dropped, List.dropWhile_append_of_pos inAfter]

/-- The gap goes, and nothing that is behind it. -/
theorem valueOf_gap (separates : Gap gap) (distinct : Distinct value) (unpadded : Unpadded value)
    (trails : ∀ c ∈ trail, Text.isBlank c = true) : valueOf (gap ++ (value ++ trail)) = value := by
  obtain ⟨c, more, rfl⟩ := List.exists_cons_of_ne_nil distinct.filled
  obtain ⟨noEquals, noColon⟩ := distinct.noSign c rfl
  have solid := not_inlineBlank_of_not_blank (unpadded.first c rfl)
  have inline : (c :: more ++ trail).dropWhile isInlineBlank = c :: more ++ trail := by
    simp [solid]
  have noSign : dropSign (c :: more ++ trail) = c :: more ++ trail := by
    rw [List.cons_append]
    unfold dropSign
    split <;> simp_all
  have kept : behindGap (c :: more ++ trail) = c :: more ++ trail := by
    rw [behindGap, inline, noSign, inline]
  have behind : behindGap (gap ++ (c :: more ++ trail)) = c :: more ++ trail := by
    cases separates.behindGap_append (c :: more ++ trail) with
    | inl same => rw [same, kept]
    | inr same => rw [same, inline]
  rw [valueOf_eq, behind, Text.trimEnd_append trails, Text.trimEnd_of_last unpadded.last]

/-! ## Lines -/

theorem splitLine_assignment (bare : Bare key) (separates : Gap gap) (distinct : Distinct value)
    (unpadded : Unpadded value) (trails : ∀ c ∈ trail, Text.isBlank c = true) :
    splitLine (key ++ gap ++ value ++ trail) = (key, value) := by
  rw [List.append_assoc, List.append_assoc, splitLine, splitKey_bare bare separates]
  simp only [valueOf_gap separates distinct unpadded trails]

theorem Bare.no_lineFeed (bare : Bare key) : '\n' ∉ key := by
  intro member
  have solid := (bare.plain '\n' member).2.2
  cases solid

theorem Gap.no_lineFeed (separates : Gap gap) : '\n' ∉ gap := by
  intro member
  have separator := separates.mem member
  cases separator

/-- The last character of the line belongs to the value or is white space, and no line end. -/
theorem separate_assignment {lead : List Char}
    (leads : ∀ c ∈ lead, Text.isBlank c = true ∧ c ≠ '\n') (bare : Bare key)
    (separates : Gap gap) (distinct : Distinct value) (unpadded : Unpadded value)
    (trails : ∀ c ∈ trail, Text.isBlank c = true ∧ c ≠ '\n' ∧ c ≠ '\r') :
    Separate (lead ++ (key ++ gap ++ value ++ trail)) := by
  have last : ∀ c ∈ (lead ++ (key ++ gap ++ value ++ trail)).getLast?, c ≠ '\r' ∧ c ≠ '\\' := by
    intro c last
    rw [← List.append_assoc] at last
    cases List.eq_nil_or_concat trail with
    | inl empty =>
      rw [empty, List.append_nil, ← List.append_assoc,
        List.getLast?_append_of_ne_nil _ distinct.filled] at last
      refine ⟨?_, distinct.noBackslash c last⟩
      rintro rfl
      have solid := unpadded.last _ last
      cases solid
    | inr filled =>
      obtain ⟨front, d, rfl⟩ := filled
      rw [List.concat_eq_append, ← List.append_assoc, List.getLast?_concat] at last
      cases last
      obtain ⟨blank, _, noReturn⟩ := trails c (by simp)
      refine ⟨noReturn, ?_⟩
      rintro rfl
      cases blank
  refine ⟨?_, fun ends => (last _ ends).1 rfl, fun _ ends => (last _ ends).2 rfl⟩
  simp only [List.mem_append, not_or]
  exact ⟨fun member => (leads _ member).2 rfl, ⟨⟨bare.no_lineFeed, separates.no_lineFeed⟩,
    distinct.solid⟩, fun member => (trails _ member).2.1 rfl⟩

theorem trimStart_assignment {lead : List Char} (leads : ∀ c ∈ lead, Text.isBlank c = true)
    (bare : Bare key) (rest : List Char) :
    Text.trimStart (lead ++ (key ++ rest)) = key ++ rest := by
  obtain ⟨c, more, rfl⟩ := List.exists_cons_of_ne_nil bare.filled
  rw [Text.trimStart, List.dropWhile_append_of_pos leads]
  exact Text.trimStart_of_not_blank _ (bare.plain c (List.mem_cons_self ..)).2.2

theorem Bare.not_remark (bare : Bare key) (rest : List Char) : isRemark (key ++ rest) = false := by
  obtain ⟨c, more, rfl⟩ := List.exists_cons_of_ne_nil bare.filled
  obtain ⟨noHash, noMark⟩ := bare.noRemark c rfl
  simp [isRemark, noHash, noMark]

/-- Both line ends are taken off. -/
theorem logicalLines_ending {line ending : List Char} {lines : List (List Char)}
    (separate : Separate line) (ends : ending = ['\n'] ∨ ending = ['\r', '\n'])
    (alone : [Text.trimStart line].filter (fun line => !isRemark line) = lines)
    (text : List Char) : logicalLines (line ++ ending ++ text) = lines ++ logicalLines text := by
  rcases ends with rfl | rfl
  · have shape : line ++ ['\n'] ++ text = line ++ '\n' :: text := by simp
    rw [shape, logicalLines_feed separate.solid (dropReturn_of_bare separate.bare) separate, alone]
  · have shape : line ++ ['\r', '\n'] ++ text = line ++ '\r' :: '\n' :: text := by simp
    rw [shape, logicalLines_returnFeed separate, alone]

/-- The first line of a file is the line of a key and its value, and the others are as before. -/
theorem Assigns.logicalLines (assigns : Assigns key value physical) (bare : Bare key)
    (distinct : Distinct value) (carries : Carries value out) (text : List Char) :
    ∃ line, logicalLines (physical ++ text) = line :: PropertyFile.logicalLines text ∧
      readLine line = .ok (some ⟨.ofList key, .ofList out, [.ofList out]⟩) := by
  cases assigns with
  | @line lead gap trail ending leads separates trails ends =>
    have blanks : ∀ c ∈ trail, Text.isBlank c = true := fun c member => (trails c member).1
    have separate := separate_assignment leads bare separates distinct carries.unpadded trails
    refine ⟨key ++ gap ++ value ++ trail, ?_, ?_⟩
    · have stripped : Text.trimStart (lead ++ (key ++ gap ++ value ++ trail)) =
          key ++ gap ++ value ++ trail := by
        rw [List.append_assoc, List.append_assoc]
        exact trimStart_assignment (fun c member => (leads c member).1) bare _
      have kept : isRemark (key ++ gap ++ value ++ trail) = false := by
        rw [List.append_assoc, List.append_assoc]
        exact bare.not_remark _
      have alone : [Text.trimStart (lead ++ (key ++ gap ++ value ++ trail))].filter
          (fun line => !isRemark line) = [key ++ gap ++ value ++ trail] := by
        rw [stripped, List.filter_cons_of_pos (by rw [kept]; rfl), List.filter_nil]
      exact logicalLines_ending separate ends alone text
    · have split := splitLine_assignment bare separates distinct carries.unpadded blanks
      exact carries.readLine split bare.filled fun member => (bare.plain _ member).1 rfl

end SegmentCatalog.PropertyFile
