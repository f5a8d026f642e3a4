import SegmentCatalog.Proofs.PropertyFile.Items
import SegmentCatalog.Proofs.PropertyFile.Lines
import SegmentCatalog.Proofs.Text.Parts
import SegmentCatalog.Proofs.Traversal

/-! # Files that are taken as they stand

Without backslashes no line goes on with the next one, no separator is protected and no escape
has to be read: every step of reading only cuts and trims.  What comes out is therefore a part of
the text, and has neither escapes nor references if the text has none (`Verbatim`).

`definitions_of_verbatim` says that such a file is always read, and that the items of every value
are the parts between its commas, without white space around them.
-/

namespace SegmentCatalog.PropertyFile

/-- A text with neither escapes nor references. -/
structure Verbatim (cs : List Char) : Prop where
  noEscape : '\\' ∉ cs
  noReference : ¬ ['$', '{'] <:+: cs

variable {cs piece line text : List Char}

theorem Verbatim.part (verbatim : Verbatim cs) (part : piece <:+: cs) : Verbatim piece where
  noEscape member := verbatim.noEscape (part.mem member)
  noReference inside := verbatim.noReference (inside.trans part)

theorem Verbatim.join {front rest : List Char} (first : Verbatim front) (second : Verbatim rest) :
    Verbatim (front ++ ',' :: rest) where
  noEscape := by simp [first.noEscape, second.noEscape]
  noReference inside :=
    (Text.infix_of_infix_append_cons (by decide) inside).elim first.noReference second.noReference

/-- The parts of a text between its commas, without white space around them. -/
def commaParts (text : String) : List String :=
  (Text.cutAt (· == ',') text.toList).map fun part => .ofList (Text.trim part)

/-- A verbatim text with its comma parts as items. -/
structure Listed (text : String) (items : List String) : Prop where
  verbatim : Verbatim text.toList
  items : items = commaParts text

/-- An item of a verbatim text is a part of it. -/
theorem Listed.item {text item : String} {items : List String} (listed : Listed text items)
    (member : item ∈ items) : Verbatim item.toList := by
  rw [listed.items] at member
  obtain ⟨part, inside, rfl⟩ := List.mem_map.1 member
  rw [String.toList_ofList]
  exact listed.verbatim.part ((Text.trim_part part).trans (Text.infix_of_mem_cutAt inside))

theorem Listed.join {text text' : String} {items items' : List String} (first : Listed text items)
    (second : Listed text' items') : Listed (text ++ "," ++ text') (items ++ items') where
  verbatim := by simpa using first.verbatim.join second.verbatim
  items := by
    have whole : (text ++ "," ++ text').toList = text.toList ++ ',' :: text'.toList := by simp
    rw [first.items, second.items, commaParts, commaParts, commaParts, whole,
      Text.cutAt_append_cons rfl, List.map_append]

/-! ## Lines -/

theorem dropReturn_part (line : List Char) : dropReturn line <:+: line := by
  rw [dropReturn]
  split
  · exact List.IsPrefix.isInfix <| List.dropLast_prefix line
  · exact List.infix_rfl

theorem infix_of_mem_physicalLines (member : line ∈ physicalLines text) : line <:+: text := by
  rw [physicalLines, List.mem_append, List.mem_map] at member
  cases member with
  | inl ended =>
    obtain ⟨piece, inside, rfl⟩ := ended
    exact (dropReturn_part piece).trans (Text.infix_of_mem_cutAt (List.dropLast_subset _ inside))
  | inr unended =>
    split at unended
    · cases unended
    · cases unended
    · rename_i last _ found
      rw [List.mem_singleton.1 unended]
      exact Text.infix_of_mem_cutAt (List.mem_of_getLast? found)

theorem continues_of_no_backslash (free : '\\' ∉ line) : continues line = false :=
  continues_of_getLast? fun last => free (List.mem_of_getLast? last)

theorem infix_of_mem_logicalLines (free : '\\' ∉ text) (member : line ∈ logicalLines text) :
    line <:+: text := by
  have parts : ∀ line ∈ (physicalLines text).map Text.trimStart, line <:+: text := by
    intro line member
    obtain ⟨physical, inside, rfl⟩ := List.mem_map.1 member
    exact (Text.trimStart_part physical).trans (infix_of_mem_physicalLines inside)
  have finished : ∀ line ∈ (physicalLines text).map Text.trimStart, continues line = false :=
    fun line member => continues_of_no_backslash fun inside => free ((parts line member).mem inside)
  rw [logicalLines, join_of_finished finished] at member
  exact parts line (List.mem_filter.1 member).1

/-! ## Keys, values and items -/

/-- A line without a backslash left over at its end is its key and what is behind it. -/
theorem splitKey_append (settled : Text.Settled line) :
    (splitKey line).1 ++ (splitKey line).2 = line := by
  fun_induction splitKey line with
  | case1 => rfl
  | case2 =>
    obtain ⟨_, _, same, _⟩ := settled.of_backslash
    cases same
  | case3 c rest key left split ih =>
    obtain ⟨_, _, same, later⟩ := settled.of_backslash
    cases same
    rw [split] at ih
    simpa using ih later
  | case4 => rfl
  | case5 c rest alone pair _ key left split ih =>
    have other := ne_backslash alone pair
    rw [split] at ih
    simpa using ih (settled.of_cons other)

/-- What is left of a text without the blanks, the sign and the blanks that it starts with. -/
def behindGap (cs : List Char) : List Char :=
  (dropSign (cs.dropWhile isInlineBlank)).dropWhile isInlineBlank

theorem valueOf_eq (cs : List Char) : valueOf cs = Text.trimEnd (behindGap cs) := rfl

theorem dropSign_suffix (cs : List Char) : dropSign cs <:+ cs := by
  unfold dropSign
  split
  · exact List.suffix_cons ..
  · exact List.suffix_cons ..
  · exact List.suffix_rfl

theorem behindGap_suffix (cs : List Char) : behindGap cs <:+ cs :=
  (List.dropWhile_suffix _).trans ((dropSign_suffix _).trans (List.dropWhile_suffix _))

theorem valueOf_part (cs : List Char) : valueOf cs <:+: cs :=
  (Text.trimEnd_part _).trans (behindGap_suffix cs).isInfix

theorem splitItems_of_no_backslash (free : '\\' ∉ cs) :
    splitItems cs = Text.cutAt (· == ',') cs := by
  induction cs with
  | nil => rfl
  | cons c cs ih =>
    rw [List.mem_cons, not_or] at free
    obtain ⟨other, later⟩ := free
    obtain ⟨first, others, shape, _⟩ := Text.cutAt_shape (· == ',') cs
    by_cases comma : c = ','
    · simp [comma, splitItems, Text.cutAt, ih later]
    · simp [splitItems, Text.cutAt, Ne.symm other, comma, ih later, shape, onFirst]

/-! ## Definitions -/

theorem unescaped_of_no_backslash (free : '\\' ∉ cs) :
    Literal.unescaped (.ofList cs) = .ok (.ofList cs) := by
  simp [Literal.unescaped, Text.unescape?_of_no_backslash free]

theorem mapM_trim_of_verbatim (verbatim : Verbatim cs) :
    ((splitItems cs).mapM fun item => Literal.unescaped (.ofList (Text.trim item))) =
      .ok (commaParts (.ofList cs)) := by
  rw [mapM_eq_ok_iff, splitItems_of_no_backslash verbatim.noEscape, commaParts,
    String.toList_ofList, List.forall₂_map_right_iff, List.forall₂_same]
  intro item member
  have part := (Text.trim_part item).trans (Text.infix_of_mem_cutAt member)
  exact unescaped_of_no_backslash (verbatim.part part).noEscape

theorem readLine_of_verbatim (verbatim : Verbatim line) :
    ∃ outcome, readLine line = .ok outcome ∧ ∀ d ∈ outcome, Listed d.text d.items := by
  have whole := splitKey_append (Text.settled_of_no_backslash verbatim.noEscape)
  have key : Verbatim (splitKey line).1 := verbatim.part ⟨[], _, by simpa using whole⟩
  have rest : (splitKey line).2 <:+: line := ⟨(splitKey line).1, [], by simpa using whole⟩
  have value : Verbatim (valueOf (splitKey line).2) :=
    verbatim.part ((valueOf_part _).trans rest)
  have halves : splitLine line = ((splitKey line).1, valueOf (splitKey line).2) := rfl
  generalize valueOf (splitKey line).2 = raw at value halves
  by_cases unnamed : (splitKey line).1 = []
  · exact ⟨none, readLine_of_unnamed (by rw [halves, unnamed]), by simp⟩
  · refine ⟨some ⟨.ofList (splitKey line).1, .ofList raw, commaParts (.ofList raw)⟩, ?_, ?_⟩
    · rw [readLine_eq_some_iff, halves]
      exact ⟨unnamed, unescaped_of_no_backslash key.noEscape, mapM_trim_of_verbatim value,
        unescaped_of_no_backslash value.noEscape⟩
    · intro d same
      cases same
      exact ⟨by simpa using value, rfl⟩

theorem definitions_of_verbatim {text : String} (verbatim : Verbatim text.toList) :
    ∃ definitions, PropertyFile.definitions text = .ok definitions ∧
      ∀ d ∈ definitions, Listed d.text d.items := by
  have each : ∀ line ∈ logicalLines text.toList,
      ∃ outcome, readLine line = .ok outcome ∧ ∀ d ∈ outcome, Listed d.text d.items := by
    intro line member
    have part := infix_of_mem_logicalLines verbatim.noEscape member
    exact readLine_of_verbatim (verbatim.part part)
  have some : ∀ line ∈ logicalLines text.toList, ∃ outcome, readLine line = .ok outcome := by
    intro line member
    obtain ⟨outcome, read, _⟩ := each line member
    exact ⟨outcome, read⟩
  obtain ⟨outcomes, all⟩ := exists_mapM_eq_ok_iff.2 some
  refine ⟨outcomes.filterMap id, bind_eq_ok.2 ⟨outcomes, all, rfl⟩, ?_⟩
  intro d member
  obtain ⟨outcome, inside, found⟩ := List.mem_filterMap.1 member
  obtain ⟨line, isLine, read⟩ := exists_item_of_mapM all inside
  obtain ⟨outcome', read', listed⟩ := each line isLine
  rw [read, Except.ok.injEq] at read'
  exact listed d (read' ▸ found)

end SegmentCatalog.PropertyFile
