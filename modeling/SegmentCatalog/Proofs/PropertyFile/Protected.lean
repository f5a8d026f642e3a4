import SegmentCatalog.Proofs.PropertyFile.Items
import SegmentCatalog.Proofs.PropertyFile.Layout
import SegmentCatalog.Proofs.PropertyFile.Verbatim
import SegmentCatalog.Proofs.PropertyFile.Written
import SegmentCatalog.Proofs.References.Shielding
import SegmentCatalog.Proofs.Text.Spellings

/-! # Values written with backslashes

A value keeps its commas and its white space if a backslash is put in front of each of them, and
in front of each backslash: `protect` does so.  Nothing is then cut or dropped at the start of the
value or inside of it, for whatever is looked for there has a backslash in front of it.

The end of the value is different.  White space is dropped there without a look at what stands in
front of it, so that a blank at the very end is lost and its backslash is left over
(`PropertyStore.not_readsBack`).  The value is read back if its last character is not white space:
`PropertyStore.parse_protectedLine`.
-/

namespace SegmentCatalog

namespace PropertyFile

open Text (Settled Spelling Spelt FourCharacters)

variable {cs key line rest value out : List Char} {c : Char}

/-- The characters that reading cuts at or drops, and the backslash. -/
def Special (c : Char) : Prop := c = '\\' ∨ c = ',' ∨ Text.isBlank c = true

instance : DecidablePred Special := fun _ => inferInstanceAs (Decidable (_ ∨ _ ∨ _))

def protectChar (c : Char) : List Char := if Special c then ['\\', c] else [c]

/-- A text with a backslash in front of every backslash, comma and white-space character. -/
def protect (cs : List Char) : List Char := cs.flatMap protectChar

/-- The line that gives a key a text in which the special characters are protected. -/
def protectedLine (key text : String) : String :=
  .ofList (key.toList ++ '=' :: protect text.toList)

/-- A text beside what it is with its special characters protected. -/
inductive Protects : List Char → List Char → Prop
  | nil : Protects [] []
  | plain {c : Char} {cs value : List Char} (other : c ≠ '\\') (inside : c ≠ ',')
      (solid : Text.isBlank c = false) (later : Protects cs value) :
      Protects (c :: cs) (c :: value)
  | special {c : Char} {cs value : List Char} (special : Special c) (later : Protects cs value) :
      Protects (c :: cs) ('\\' :: c :: value)

theorem protects_protect (cs : List Char) : Protects cs (protect cs) := by
  induction cs with
  | nil => exact .nil
  | cons c cs ih =>
    rw [protect, List.flatMap_cons, protectChar]
    by_cases special : Special c
    · rw [if_pos special]
      exact .special special ih
    · rw [if_neg special]
      simp only [Special, not_or, Bool.not_eq_true] at special
      exact .plain special.1 special.2.1 special.2.2 ih

/-! ## Protected texts -/

/-- No escape starts with a special character behind its backslash. -/
theorem Special.spelling (special : Special c) : Spelling ['\\', c] c := by
  have signs : ∀ d ∈ ['t', 'n', 'r', 'b', 'f', 'u'], ¬ Special d := by
    simp [Special, Text.isBlank]
  have digits : ∀ n < 8, ¬ Special (Nat.digitChar n) := by decide
  apply Spelling.escaped
  · exact fun member => signs c member special
  · intro octal
    obtain ⟨n, small, same⟩ := octal
    exact digits n small (same ▸ special)

namespace Protects

theorem spelt (protects : Protects cs value) : Spelt FourCharacters value cs := by
  induction protects with
  | nil => exact .nil
  | plain other _ _ _ ih => exact .cons ((Spelling.plain other).token _) ih
  | special special _ ih => exact .cons (special.spelling.token _) ih

theorem settled (protects : Protects cs value) : Settled value := by
  induction protects with
  | nil => exact .nil
  | plain other _ _ _ ih => exact .plain other ih
  | special _ _ ih => exact .escaped ih

theorem whole_append (protects : Protects cs value) (whole : Whole rest) :
    Whole (value ++ rest) := by
  induction protects with
  | nil => exact whole
  | plain other inside _ _ ih => exact ih.plain other inside
  | special _ _ ih => exact ih.escaped

theorem mem (protects : Protects cs value) (member : c ∈ value) (other : c ≠ '\\') : c ∈ cs := by
  induction protects with
  | nil => cases member
  | plain _ _ _ _ ih =>
    cases member with
    | head => exact List.mem_cons_self ..
    | tail _ later => exact List.mem_cons_of_mem _ (ih later)
  | special _ _ ih =>
    cases member with
    | head => exact absurd rfl other
    | tail _ behind =>
      cases behind with
      | head => exact List.mem_cons_self ..
      | tail _ later => exact List.mem_cons_of_mem _ (ih later)

/-- There is a backslash in front of the first character, if this is white space. -/
theorem not_blank_of_head? (protects : Protects cs value)
    (behind : ∀ c ∈ rest.head?, Text.isBlank c = false) :
    ∀ c ∈ (value ++ rest).head?, Text.isBlank c = false := by
  cases protects with
  | nil => exact behind
  | plain _ _ solid _ =>
    intro c first
    cases first
    exact solid
  | special _ _ =>
    intro c first
    cases first
    rfl

theorem getLast?_eq (protects : Protects cs value) : value.getLast? = cs.getLast? := by
  induction protects with
  | nil => rfl
  | plain _ _ _ _ ih => rw [List.getLast?_cons, List.getLast?_cons, ih]
  | special _ _ ih => rw [List.getLast?_cons_cons, List.getLast?_cons, List.getLast?_cons, ih]

end Protects

/-- A value that is a single item and is read as `out`, with nothing to trim. -/
structure Carries (value out : List Char) : Prop where
  unpadded : Unpadded value
  whole : Whole value
  spelt : Spelt FourCharacters value out

theorem carries_protect (solid : ∀ c ∈ cs.getLast?, Text.isBlank c = false) :
    Carries (protect cs) cs where
  unpadded := {
    first := by
      have nothing : ∀ c ∈ ([] : List Char).head?, Text.isBlank c = false := by simp
      simpa using (protects_protect cs).not_blank_of_head? nothing
    last := by rwa [(protects_protect cs).getLast?_eq] }
  whole := by simpa using (protects_protect cs).whole_append whole_nil
  spelt := (protects_protect cs).spelt

theorem carries_protect_backslash (cs : List Char) :
    Carries (protect cs ++ ['\\']) (cs ++ ['\\']) where
  unpadded := {
    first := (protects_protect cs).not_blank_of_head? fun _ first => by
      cases first
      rfl
    last := by simp [Text.isBlank] }
  whole := (protects_protect cs).whole_append whole_backslash
  spelt := by
    apply (protects_protect cs).spelt.append (protects_protect cs).settled
    · exact Text.not_octal_head (by decide)
    · exact .cons .dangling .nil

/-- A blank at the end goes, and the backslash in front of it stays. -/
theorem trimEnd_protect_of_blank (blank : Text.isBlank c = true) :
    Text.trimEnd (protect (cs ++ [c])) = protect cs ++ ['\\'] := by
  have special : Special c := .inr (.inr blank)
  have shape : protect (cs ++ [c]) = protect cs ++ ['\\'] ++ [c] := by
    simp [protect, protectChar, special]
  have behind : Text.trimEnd (protect cs ++ ['\\'] ++ [c]) =
      Text.trimEnd (protect cs ++ ['\\']) := by
    simp [Text.trimEnd, blank]
  rw [shape, behind, Text.trimEnd_of_not_blank _ (by decide)]

/-- What is left of a protected text when it is trimmed can always be read. -/
theorem exists_carries (cs : List Char) :
    ∃ out, Carries (Text.trimEnd (protect cs)) out ∧
      ((∀ c ∈ cs.getLast?, Text.isBlank c = false) → out = cs) := by
  by_cases solid : ∀ c ∈ cs.getLast?, Text.isBlank c = false
  · rw [Text.trimEnd_of_last (by rwa [(protects_protect cs).getLast?_eq])]
    exact ⟨cs, carries_protect solid, fun _ => rfl⟩
  · have ends := solid
    simp only [not_forall, Bool.not_eq_false] at ends
    obtain ⟨c, last, blank⟩ := ends
    obtain ⟨front, rfl⟩ := List.getLast?_eq_some_iff.1 last
    rw [trimEnd_protect_of_blank blank]
    exact ⟨front ++ ['\\'], carries_protect_backslash front, fun solid' => absurd solid' solid⟩

/-! ## Lines with a protected value -/

theorem continues_of_settled (settled : Settled line) : continues line = false := by
  induction settled with
  | nil => rfl
  | plain other _ ih => rw [continues_cons_of_ne other, ih]
  | escaped _ ih => rw [continues_escaped, ih]

/-- A line by itself is one logical line if no backslash is left over at its end. -/
theorem logicalLines_of_settled (solid : '\n' ∉ line) (settled : Settled line)
    (starts : ∀ c ∈ line.head?, Text.isBlank c = false ∧ c ≠ '#' ∧ c ≠ '!') (filled : line ≠ []) :
    logicalLines line = [line] := by
  obtain ⟨c, rest, rfl⟩ := List.exists_cons_of_ne_nil filled
  obtain ⟨here, noHash, noMark⟩ := starts c rfl
  have kept : isRemark (c :: rest) = false := by simp [isRemark, noHash, noMark]
  rw [logicalLines, physicalLines_unended solid filled, List.map_singleton,
    Text.trimStart_of_not_blank rest here, join, kept, continues_of_settled settled]
  rfl

theorem valueOf_protect (cs : List Char) :
    valueOf ('=' :: protect cs) = Text.trimEnd (protect cs) := by
  have first := (carries_protect_backslash cs).unpadded.first
  have inline : (protect cs).dropWhile isInlineBlank = protect cs := by
    cases shape : protect cs with
    | nil => rfl
    | cons c rest =>
      have here := not_inlineBlank_of_not_blank (first c (by simp [shape]))
      simp [here]
  show Text.trimEnd ((protect cs).dropWhile isInlineBlank) = _
  rw [inline]

theorem Carries.readLine (carries : Carries value out) (split : splitLine line = (key, value))
    (filled : key ≠ []) (free : '\\' ∉ key) :
    readLine line = .ok (some ⟨.ofList key, .ofList out, [.ofList out]⟩) := by
  have whole : Literal.unescaped (.ofList value) = .ok (.ofList out) := by
    rw [Literal.unescaped_eq_ok_iff, String.toList_ofList, String.toList_ofList]
    exact carries.spelt
  rw [readLine_eq_some_iff, split]
  refine ⟨filled, unescaped_of_no_backslash free, ?_, whole⟩
  rw [carries.whole.splitItems, mapM_eq_ok_iff, List.forall₂_cons, carries.unpadded.trim]
  exact ⟨whole, .nil⟩

/-! ## Keys of letters -/

theorem not_separator_of_isAlpha (letter : c.isAlpha = true) : isSeparator c = false := by
  have equals : c ≠ '=' := Text.ne_of_isAlpha letter (by decide)
  have colon : c ≠ ':' := Text.ne_of_isAlpha letter (by decide)
  have inline := not_inlineBlank_of_not_blank (Text.not_blank_of_isAlpha letter)
  simp [isSeparator, equals, colon, inline]

theorem not_mem_of_letters (letters : ∀ c ∈ key, c.isAlpha = true) (other : c.isAlpha = false) :
    c ∉ key := fun member => Text.ne_of_isAlpha (letters c member) other rfl

variable {name text : String}

theorem splitLine_protectedLine (letters : ∀ c ∈ name.toList, c.isAlpha = true) :
    splitLine (protectedLine name text).toList =
      (name.toList, Text.trimEnd (protect text.toList)) := by
  have plain : ∀ c, c.isAlpha = true → c ≠ '\\' ∧ isSeparator c = false := fun c letter =>
    ⟨Text.ne_of_isAlpha letter (by decide), not_separator_of_isAlpha letter⟩
  rw [splitLine, protectedLine, String.toList_ofList, splitKey_guarded plain (.of_forall letters)]
  simp only [valueOf_protect]

theorem logicalLines_protectedLine (named : name ≠ "")
    (letters : ∀ c ∈ name.toList, c.isAlpha = true) (solid : '\n' ∉ text.toList) :
    logicalLines (protectedLine name text).toList = [(protectedLine name text).toList] := by
  have filled : name.toList ≠ [] := fun empty => named (String.toList_eq_nil_iff.1 empty)
  have protects := protects_protect text.toList
  rw [protectedLine, String.toList_ofList]
  apply logicalLines_of_settled
  · simp only [List.mem_append, List.mem_cons, not_or]
    exact ⟨not_mem_of_letters letters (by decide), by decide,
      fun member => solid (protects.mem member (by decide))⟩
  · have front := Text.settled_of_no_backslash (not_mem_of_letters letters (by decide))
    exact front.append (.plain (by decide) protects.settled)
  · intro c first
    have letter : c.isAlpha = true := by
      rw [List.head?_append_of_ne_nil _ filled] at first
      exact letters c (List.mem_of_mem_head? first)
    exact ⟨Text.not_blank_of_isAlpha letter, Text.ne_of_isAlpha letter (by decide),
      Text.ne_of_isAlpha letter (by decide)⟩
  · simp

theorem definitions_protectedLine (named : name ≠ "")
    (letters : ∀ c ∈ name.toList, c.isAlpha = true) (solid : '\n' ∉ text.toList) :
    ∃ out, definitions (protectedLine name text) = .ok [⟨name, out, [out]⟩] ∧
      ((∀ c ∈ text.toList.getLast?, Text.isBlank c = false) → out = text) := by
  obtain ⟨out, carries, same⟩ := exists_carries text.toList
  have filled : name.toList ≠ [] := fun empty => named (String.toList_eq_nil_iff.1 empty)
  have free : '\\' ∉ name.toList := not_mem_of_letters letters (by decide)
  have read := carries.readLine (splitLine_protectedLine letters) filled free
  rw [String.ofList_toList] at read
  refine ⟨.ofList out, ?_, fun ends => by rw [same ends, String.ofList_toList]⟩
  rw [definitions, logicalLines_protectedLine named letters solid, List.mapM_cons, read]
  rfl

end PropertyFile

namespace PropertyStore

open PropertyFile (protectedLine)

/-- The text and the one item that the line of a text is read as are the text. -/
def ReadsBack (key text : String) : Prop :=
  ∃ store, parse (protectedLine key text) = .ok store ∧ store.raw? key = some text ∧
    store.list key = [text]

/-- A blank at the end goes although it is protected, and the items of a list have their references
    replaced, which takes a dollar sign from those that are not to be followed. -/
theorem not_readsBack : ¬ ReadsBack "k" "a " ∧ ¬ ReadsBack "k" "$$\x7ba\x7d" := by
  have blank : parse (protectedLine "k" "a ") = .ok (set OrderedMap.empty "k" "a\\") := by
    decide +kernel
  have escaped : parse (protectedLine "k" "$$\x7ba\x7d") =
      .ok (set OrderedMap.empty "k" "$$\x7ba\x7d") := by
    decide +kernel
  constructor
  · intro ⟨store, parsed, raw, _⟩
    rw [blank, Except.ok.injEq] at parsed
    rw [← parsed] at raw
    exact absurd raw (by decide)
  · intro ⟨store, parsed, _, items⟩
    rw [escaped, Except.ok.injEq] at parsed
    rw [← parsed] at items
    exact absurd items (by decide +kernel)

/-- Where a key is alone, its references have nothing to lead to. -/
theorem list_set_empty (key text : String) :
    (set OrderedMap.empty key text).list key = [.ofList (Piece.unshield text.toList)] := by
  have alone : ∀ name, name ≠ key → (set OrderedMap.empty key text).raw? name = none := by
    intro name other
    rw [raw?_set, if_neg other]
    rfl
  rw [list, set, OrderedMap.find?_insert, if_pos rfl]
  exact congrArg (fun item => [item]) (Lookup.interpolate_of_alone alone text)

/-- The line of a text is never refused.  If the last character of the text is not white space, the
    text is read back under the key, and its one item is the text with one dollar sign less in every
    reference that is not to be followed: no other key is there for a reference to stand for. -/
theorem parse_protectedLine {key text : String} (named : key ≠ "")
    (letters : ∀ c ∈ key.toList, c.isAlpha = true) (solid : '\n' ∉ text.toList) :
    (∃ store, parse (protectedLine key text) = .ok store ∧
      ((∀ c ∈ text.toList.getLast?, Text.isBlank c = false) →
        store.raw? key = some text ∧
        store.list key = [.ofList (Piece.unshield text.toList)])) ∧
    ((∀ c ∈ text.toList.getLast?, Text.isBlank c = false) → ¬ ['$', '$', '{'] <:+: text.toList →
      ReadsBack key text) := by
  obtain ⟨out, read, same⟩ := PropertyFile.definitions_protectedLine named letters solid
  have parsed : parse (protectedLine key text) = .ok (set OrderedMap.empty key out) := by
    rw [parse, read]
    rfl
  have raw : (set OrderedMap.empty key text).raw? key = some text := by
    rw [raw?_set, if_pos rfl]
  constructor
  · refine ⟨_, parsed, fun ends => ?_⟩
    rw [same ends]
    exact ⟨raw, list_set_empty key text⟩
  · intro ends free
    rw [same ends] at parsed
    have items := list_set_empty key text
    rw [Piece.unshield_of_free free, String.ofList_toList] at items
    exact ⟨_, parsed, raw, items⟩

theorem parse_protectedLine_spaced :
    protectedLine "k" " a,\t\\b" = "k=\\ a\\,\\\t\\\\b" ∧ ReadsBack "k" " a,\t\\b" ∧
    ∃ store, parse (protectedLine "k" ", $$\x7ba\x7d") = .ok store ∧
      store.raw? "k" = some ", $$\x7ba\x7d" ∧ store.list "k" = [", $\x7ba\x7d"] := by
  have named : "k" ≠ "" := by decide
  have letters : ∀ c ∈ "k".toList, c.isAlpha = true := by
    show ∀ c ∈ ['k'], c.isAlpha = true
    simp
  obtain ⟨_, plain⟩ := @parse_protectedLine "k" " a,\t\\b" named letters (by decide)
  have noDollar : '$' ∉ " a,\t\\b".toList := by decide
  have back := plain (by simp [Text.isBlank]) fun inside =>
    noDollar (inside.mem (List.mem_cons_self ..))
  refine ⟨by decide, back, ?_⟩
  obtain ⟨⟨store, parsed, read⟩, _⟩ :=
    @parse_protectedLine "k" ", $$\x7ba\x7d" named letters (by decide)
  obtain ⟨raw, items⟩ := read (by simp [Text.isBlank])
  exact ⟨store, parsed, raw, items.trans (by decide +kernel)⟩

end PropertyStore

end SegmentCatalog
