import Mathlib.Data.List.Infix
import Mathlib.Data.List.TakeWhile
import SegmentCatalog.Json

/-! # JSON texts that can be told apart

From the text of a value the value can be told, whatever stands behind it: the first character tells
what kind of value it is (`Json.kindOf`), a string ends at the first quote that is not escaped, a
number at the first character that is none of a number's, and lists at their brackets.

`Json.Unambiguous` says so of a way of writing.  Strings are told from their texts, since no escape
begins another one (`quoted_append_inj`), and so are lists in brackets whose items are
(`enclosed_append_inj`); hence, by induction on the value, is every value whose numbers are numbers
(`unambiguous_write`).  Different values have therefore different texts (`pretty_injective`).
-/

namespace SegmentCatalog.Json

variable {α : Type}

/-! ## Texts with something behind them -/

/-- The characters that numbers are made of. -/
def isNumeric (c : Char) : Bool := c.isDigit || c == '-' || c == '+' || c == '.' || c == 'e'

/-- The text of a number: it starts with a digit or a minus sign. -/
structure Numeric (text : List Char) : Prop where
  starts : ∃ c rest, text = c :: rest ∧ (c.isDigit = true ∨ c = '-')
  numeric : ∀ c ∈ text, isNumeric c = true

/-- What does not go on with a number. -/
def Stops (rest : List Char) : Prop := ∀ c ∈ rest.head?, isNumeric c = false

/-- Two things that are written are told apart, whatever stands behind them. -/
def Unambiguous (write : α → List Char) (x y : α) : Prop :=
  ∀ ⦃rest rest' : List Char⦄, Stops rest → Stops rest' →
    write x ++ rest = write y ++ rest' → x = y ∧ rest = rest'

/-- A text of characters of one class ends where the first other character stands. -/
theorem append_inj_of_class {p : Char → Bool} {word word' rest rest' : List Char}
    (within : ∀ c ∈ word, p c = true) (within' : ∀ c ∈ word', p c = true)
    (ends : ∀ c ∈ rest.head?, p c = false) (ends' : ∀ c ∈ rest'.head?, p c = false)
    (same : word ++ rest = word' ++ rest') : word = word' ∧ rest = rest' := by
  have front : ∀ {word rest : List Char}, (∀ c ∈ word, p c = true) →
      (∀ c ∈ rest.head?, p c = false) → (word ++ rest).takeWhile p = word := by
    intro word rest within ends
    rw [List.takeWhile_append_of_pos within]
    cases rest with
    | nil => simp
    | cons c rest => simp [ends c rfl]
  have words : word = word' := by rw [← front within ends, same, front within' ends']
  subst words
  exact ⟨rfl, List.append_cancel_left same⟩

/-! ## Strings -/

/-- The characters that are not written as they are. -/
def escapedChars : List Char := '\x22' :: '\\' :: (List.range 0x20).map Char.ofNat

theorem escapeChar_cases (c : Char) :
    (escapeChar c = [c] ∧ c ≠ '\x22' ∧ c ≠ '\\') ∨ c ∈ escapedChars := by
  by_cases escaped : c = '\x22' ∨ c = '\\' ∨ c.toNat < 0x20
  · right
    rcases escaped with rfl | rfl | low
    · decide
    · decide
    · have member : c ∈ (List.range 0x20).map Char.ofNat :=
        List.mem_map.2 ⟨c.toNat, List.mem_range.2 low, Char.ofNat_toNat c⟩
      exact List.mem_cons_of_mem _ (List.mem_cons_of_mem _ member)
  · left
    obtain ⟨quote, escaped⟩ := not_or.1 escaped
    obtain ⟨backslash, high⟩ := not_or.1 escaped
    refine ⟨?_, quote, backslash⟩
    unfold escapeChar
    split
    all_goals first
      | exact absurd rfl quote
      | exact absurd rfl backslash
      | exact absurd (by decide) high
      | rw [if_neg high]

theorem head?_escapeChar_of_mem {c : Char} (escaped : c ∈ escapedChars) :
    (escapeChar c).head? = some '\\' := by
  have all : escapedChars.all (fun c => (escapeChar c).head? == some '\\') = true := by decide
  exact beq_iff_eq.1 (List.all_eq_true.1 all c escaped)

/-- No escape begins another one. -/
theorem escapeChar_prefix_free {c d : Char} (escaped : c ∈ escapedChars)
    (escaped' : d ∈ escapedChars) (short : escapeChar c <+: escapeChar d) : c = d := by
  have all : escapedChars.all (fun c => escapedChars.all fun d =>
      !(escapeChar c).isPrefixOf (escapeChar d) || c == d) = true := by
    decide +kernel
  have pair := List.all_eq_true.1 (List.all_eq_true.1 all c escaped) d escaped'
  rwa [List.isPrefixOf_iff_prefix.2 short, Bool.not_true, Bool.false_or, beq_iff_eq] at pair

theorem exists_escapeChar (c : Char) : ∃ d rest, escapeChar c = d :: rest ∧ d ≠ '\x22' := by
  rcases escapeChar_cases c with ⟨plain, noQuote, _⟩ | escaped
  · exact ⟨c, [], plain, noQuote⟩
  · obtain ⟨rest, shape⟩ := List.head?_eq_some_iff.1 (head?_escapeChar_of_mem escaped)
    exact ⟨'\\', rest, shape, by decide⟩

theorem escapeChar_append_inj {c d : Char} {rest rest' : List Char}
    (same : escapeChar c ++ rest = escapeChar d ++ rest') : c = d ∧ rest = rest' := by
  have heads := congrArg List.head? same
  rw [List.head?_append, List.head?_append] at heads
  have equal : c = d := by
    rcases escapeChar_cases c with ⟨plain, _, other⟩ | escaped <;>
      rcases escapeChar_cases d with ⟨plain', _, other'⟩ | escaped'
    · rw [plain, plain'] at same
      exact (List.cons.inj same).1
    · rw [plain, head?_escapeChar_of_mem escaped'] at heads
      exact absurd (Option.some.inj heads) other
    · rw [plain', head?_escapeChar_of_mem escaped] at heads
      exact absurd (Option.some.inj heads).symm other'
    · have first : escapeChar c <+: escapeChar d ++ rest' := same ▸ List.prefix_append ..
      rcases List.prefix_or_prefix_of_prefix first (List.prefix_append ..) with short | short
      · exact escapeChar_prefix_free escaped escaped' short
      · exact (escapeChar_prefix_free escaped' escaped short).symm
  subst equal
  exact ⟨rfl, List.append_cancel_left same⟩

/-- A string ends at the first quote that does not belong to an escape. -/
theorem flatMap_escapeChar_inj {cs ds rest rest' : List Char}
    (same : cs.flatMap escapeChar ++ '\x22' :: rest = ds.flatMap escapeChar ++ '\x22' :: rest') :
    cs = ds ∧ rest = rest' := by
  induction cs generalizing ds with
  | nil =>
    cases ds with
    | nil => exact ⟨rfl, (List.cons.inj same).2⟩
    | cons d ds =>
      obtain ⟨e, more, shape, other⟩ := exists_escapeChar d
      rw [List.flatMap_cons, shape] at same
      exact absurd (List.cons.inj same).1.symm other
  | cons c cs ih =>
    cases ds with
    | nil =>
      obtain ⟨e, more, shape, other⟩ := exists_escapeChar c
      rw [List.flatMap_cons, shape] at same
      exact absurd (List.cons.inj same).1 other
    | cons d ds =>
      rw [List.flatMap_cons, List.flatMap_cons, List.append_assoc, List.append_assoc] at same
      obtain ⟨rfl, behind⟩ := escapeChar_append_inj same
      obtain ⟨rfl, left⟩ := ih behind
      exact ⟨rfl, left⟩

theorem quoted_append_inj {s t : String} {rest rest' : List Char}
    (same : quoted s ++ rest = quoted t ++ rest') : s = t ∧ rest = rest' := by
  simp only [quoted, List.cons_append, List.append_assoc] at same
  obtain ⟨chars, left⟩ := flatMap_escapeChar_inj (List.cons.inj same).2
  exact ⟨String.toList_injective chars, left⟩

/-! ## Lists -/

/-- Further items of a list, each behind a comma, and its end. -/
def further (write : α → List Char) (close : List Char) : List α → List Char
  | [] => close
  | x :: items => ',' :: write x ++ further write close items

/-- A list behind its opening bracket; there is a gap in front of the closing one if there are
    items. -/
def enclosed (write : α → List Char) (gap : List Char) (bracket : Char) : List α → List Char
  | [] => [bracket]
  | x :: items => write x ++ further write (gap ++ [bracket]) items

/-- The end of a list is not taken for a comma or for the rest of a number. -/
def Closing (close : List Char) : Prop :=
  ∃ c rest, close = c :: rest ∧ isNumeric c = false ∧ c ≠ ','

section Lists

variable {write : α → List Char} {close gap : List Char} {bracket : Char} {items items' : List α}

theorem stops_further (closing : Closing close) (items : List α) (rest : List Char) :
    Stops (further write close items ++ rest) := by
  intro c first
  cases items with
  | nil =>
    obtain ⟨d, more, rfl, other, _⟩ := closing
    cases first
    exact other
  | cons x items =>
    cases first
    decide

theorem further_append_inj (closing : Closing close)
    (each : ∀ x ∈ items, ∀ y ∈ items', Unambiguous write x y) {rest rest' : List Char}
    (same : further write close items ++ rest = further write close items' ++ rest') :
    items = items' ∧ rest = rest' := by
  have stops : ∀ items rest, Stops (further write close items ++ rest) := stops_further closing
  obtain ⟨c, more, rfl, _, noComma⟩ := closing
  induction items generalizing items' with
  | nil =>
    cases items' with
    | nil => exact ⟨rfl, List.append_cancel_left same⟩
    | cons y items' => exact absurd (List.cons.inj same).1 noComma
  | cons x items ih =>
    cases items' with
    | nil => exact absurd (List.cons.inj same).1.symm noComma
    | cons y items' =>
      simp only [further, List.cons_append, List.append_assoc] at same
      obtain ⟨rfl, left⟩ := each x (List.mem_cons_self ..) y (List.mem_cons_self ..)
        (stops _ _) (stops _ _) (List.cons.inj same).2
      have later : ∀ x ∈ items, ∀ y ∈ items', Unambiguous write x y := fun x member y member' =>
        each x (List.mem_cons_of_mem _ member) y (List.mem_cons_of_mem _ member')
      obtain ⟨rfl, behind⟩ := ih later left
      exact ⟨rfl, behind⟩

/-- A list is told from its text if its items are, and do not start with its bracket. -/
theorem enclosed_append_inj (closing : Closing (gap ++ [bracket]))
    (starts : ∀ x, x ∈ items ∨ x ∈ items' → ∃ c rest, write x = c :: rest ∧ c ≠ bracket)
    (each : ∀ x ∈ items, ∀ y ∈ items', Unambiguous write x y) {rest rest' : List Char}
    (same : enclosed write gap bracket items ++ rest =
      enclosed write gap bracket items' ++ rest') : items = items' ∧ rest = rest' := by
  cases items with
  | nil =>
    cases items' with
    | nil => exact ⟨rfl, (List.cons.inj same).2⟩
    | cons y items' =>
      obtain ⟨c, more, shape, other⟩ := starts y (.inr (List.mem_cons_self ..))
      rw [enclosed, enclosed, shape] at same
      exact absurd (List.cons.inj same).1.symm other
  | cons x items =>
    cases items' with
    | nil =>
      obtain ⟨c, more, shape, other⟩ := starts x (.inl (List.mem_cons_self ..))
      rw [enclosed, enclosed, shape] at same
      exact absurd (List.cons.inj same).1 other
    | cons y items' =>
      -- behind a comma, the items are further items
      exact further_append_inj closing each (congrArg (',' :: ·) same)

end Lists

/-! ## Values -/

section Values

variable {depth : Option Nat}

def writeItem (depth : Option Nat) (x : Json) : List Char := lineBreak depth ++ write depth x

def writeField (depth : Option Nat) (field : String × Json) : List Char :=
  lineBreak depth ++ quoted field.1 ++ colon depth ++ write depth field.2

theorem writeItems_append (x : Json) (items : List Json) (close : List Char) :
    writeItems depth (x :: items) ++ close =
      writeItem depth x ++ further (writeItem depth) close items := by
  induction items generalizing x with
  | nil => simp [writeItems, further, writeItem]
  | cons y items ih => simp [writeItems, further, writeItem, ih]

theorem writeFields_append (field : String × Json) (fields : List (String × Json))
    (close : List Char) : writeFields depth (field :: fields) ++ close =
      writeField depth field ++ further (writeField depth) close fields := by
  induction fields generalizing field with
  | nil => simp [writeFields, further, writeField]
  | cons next fields ih => simp [writeFields, further, writeField, ih]

theorem write_array (items : List Json) : write depth (.array items) =
    '[' :: enclosed (writeItem (depth.map (· + 1))) (lineBreak depth) ']' items := by
  cases items with
  | nil => simp [write, enclosed]
  | cons x items =>
    rw [write, enclosed, ← writeItems_append]
    simp

theorem write_object (fields : List (String × Json)) : write depth (.object fields) =
    '{' :: enclosed (writeField (depth.map (· + 1))) (lineBreak depth) '}' fields := by
  cases fields with
  | nil => simp [write, enclosed]
  | cons field fields =>
    rw [write, enclosed, ← writeFields_append]
    simp

/-- A value whose numbers are written as numbers. -/
inductive Plain : Json → Prop
  | null : Plain .null
  | bool (b : Bool) : Plain (.bool b)
  | number {text : List Char} (numeric : Numeric text) : Plain (.number text)
  | string (s : String) : Plain (.string s)
  | array {items : List Json} (each : ∀ x ∈ items, Plain x) : Plain (.array items)
  | object {fields : List (String × Json)} (each : ∀ field ∈ fields, Plain field.2) :
      Plain (.object fields)

attribute [simp] Plain.null Plain.bool Plain.string

@[simp] theorem plain_array_iff {items : List Json} :
    Plain (.array items) ↔ ∀ x ∈ items, Plain x := by
  refine ⟨fun plain => ?_, .array⟩
  cases plain with
  | array each => exact each

@[simp] theorem plain_object_iff {fields : List (String × Json)} :
    Plain (.object fields) ↔ ∀ field ∈ fields, Plain field.2 := by
  refine ⟨fun plain => ?_, .object⟩
  cases plain with
  | object each => exact each

inductive Kind where
  | null
  | bool
  | number
  | string
  | array
  | object

def kind : Json → Kind
  | .null => .null
  | .bool _ => .bool
  | .number _ => .number
  | .string _ => .string
  | .array _ => .array
  | .object _ => .object

/-- The kind of value that a character begins. -/
def kindOf (c : Char) : Option Kind :=
  if c.isDigit = true ∨ c = '-' then some .number
  else match c with
    | 'n' => some .null
    | 't' | 'f' => some .bool
    | '\x22' => some .string
    | '[' => some .array
    | '{' => some .object
    | _ => none

theorem exists_write {x : Json} (plain : Plain x) (depth : Option Nat) :
    ∃ c rest, write depth x = c :: rest ∧ kindOf c = some x.kind := by
  cases plain with
  | null => exact ⟨'n', _, by rw [write], rfl⟩
  | bool b =>
    cases b with
    | true => exact ⟨'t', _, by rw [write], rfl⟩
    | false => exact ⟨'f', _, by rw [write], rfl⟩
  | number numeric =>
    obtain ⟨c, rest, rfl, first⟩ := numeric.starts
    exact ⟨c, rest, by rw [write], if_pos first⟩
  | string s => exact ⟨'\x22', _, by rw [write, quoted]; rfl, rfl⟩
  | array _ => exact ⟨'[', _, write_array _, rfl⟩
  | object _ => exact ⟨'{', _, write_object _, rfl⟩

/-- It is enough to tell values of one kind apart. -/
theorem unambiguous_of_kind {x y : Json} (plain : Plain x) (plain' : Plain y)
    (told : x.kind = y.kind → Unambiguous (write depth) x y) : Unambiguous (write depth) x y := by
  intro rest rest' stops stops' same
  obtain ⟨c, more, shape, kind⟩ := exists_write plain depth
  obtain ⟨c', more', shape', kind'⟩ := exists_write plain' depth
  have first : c = c' := by
    rw [shape, shape'] at same
    exact (List.cons.inj same).1
  have kinds : some x.kind = some y.kind := by rw [← kind, first, kind']
  exact told (Option.some.inj kinds) stops stops' same

theorem closing_lineBreak {bracket : Char} (other : isNumeric bracket = false ∧ bracket ≠ ',') :
    Closing (lineBreak depth ++ [bracket]) := by
  cases depth with
  | none => exact ⟨bracket, [], rfl, other⟩
  | some _ => exact ⟨'\n', _, rfl, by decide⟩

theorem exists_writeItem {x : Json} (plain : Plain x) (depth : Option Nat) :
    ∃ c rest, writeItem depth x = c :: rest ∧ c ≠ ']' := by
  cases depth with
  | none =>
    obtain ⟨c, rest, shape, kind⟩ := exists_write plain none
    refine ⟨c, rest, shape, ?_⟩
    rintro rfl
    cases kind
  | some _ => exact ⟨'\n', _, rfl, by decide⟩

theorem exists_writeField (field : String × Json) (depth : Option Nat) :
    ∃ c rest, writeField depth field = c :: rest ∧ c ≠ '}' := by
  cases depth with
  | none => exact ⟨'\x22', _, rfl, by decide⟩
  | some _ => exact ⟨'\n', _, rfl, by decide⟩

theorem unambiguous_writeItem {x y : Json} (told : Unambiguous (write depth) x y) :
    Unambiguous (writeItem depth) x y := by
  intro rest rest' stops stops' same
  rw [writeItem, writeItem, List.append_assoc, List.append_assoc] at same
  exact told stops stops' (List.append_cancel_left same)

theorem unambiguous_writeField {field field' : String × Json}
    (told : Unambiguous (write depth) field.2 field'.2) :
    Unambiguous (writeField depth) field field' := by
  intro rest rest' stops stops' same
  simp only [writeField, List.append_assoc] at same
  obtain ⟨names, behind⟩ := quoted_append_inj (List.append_cancel_left same)
  obtain ⟨values, left⟩ := told stops stops' (List.append_cancel_left behind)
  exact ⟨Prod.ext names values, left⟩

theorem unambiguous_write {x y : Json} (plain : Plain x) (plain' : Plain y) (depth : Option Nat) :
    Unambiguous (write depth) x y := by
  induction plain generalizing depth y with
  | null =>
    refine unambiguous_of_kind .null plain' fun kinds => ?_
    cases plain' with
    | null => exact fun _ _ _ _ same => ⟨rfl, List.append_cancel_left same⟩
    | _ => cases kinds
  | bool b =>
    refine unambiguous_of_kind (.bool b) plain' fun kinds => ?_
    cases plain' with
    | bool b' =>
      intro rest rest' _ _ same
      cases b <;> cases b' <;> simp [write] at same ⊢
      · exact same
      · exact same
    | _ => cases kinds
  | number numeric =>
    refine unambiguous_of_kind (.number numeric) plain' fun kinds => ?_
    cases plain' with
    | number numeric' =>
      intro rest rest' stops stops' same
      rw [write, write] at same
      obtain ⟨rfl, left⟩ :=
        append_inj_of_class numeric.numeric numeric'.numeric stops stops' same
      exact ⟨rfl, left⟩
    | _ => cases kinds
  | string s =>
    refine unambiguous_of_kind (.string s) plain' fun kinds => ?_
    cases plain' with
    | string s' =>
      intro rest rest' _ _ same
      rw [write, write] at same
      obtain ⟨rfl, left⟩ := quoted_append_inj same
      exact ⟨rfl, left⟩
    | _ => cases kinds
  | array each ih =>
    refine unambiguous_of_kind (.array each) plain' fun kinds => ?_
    cases plain' with
    | array each' =>
      intro rest rest' _ _ same
      rw [write_array, write_array] at same
      obtain ⟨rfl, left⟩ := enclosed_append_inj (closing_lineBreak (by decide))
        (fun x member => exists_writeItem (member.elim (each x) (each' x)) _)
        (fun x member y member' => unambiguous_writeItem (ih x member (each' y member') _))
        (List.cons.inj same).2
      exact ⟨rfl, left⟩
    | _ => cases kinds
  | object each ih =>
    refine unambiguous_of_kind (.object each) plain' fun kinds => ?_
    cases plain' with
    | object each' =>
      intro rest rest' _ _ same
      rw [write_object, write_object] at same
      obtain ⟨rfl, left⟩ := enclosed_append_inj (closing_lineBreak (by decide))
        (fun field _ => exists_writeField field _)
        (fun field member field' member' =>
          unambiguous_writeField (ih field member (each' field' member') _))
        (List.cons.inj same).2
      exact ⟨rfl, left⟩
    | _ => cases kinds

/-- A value is told from its text. -/
theorem pretty_injective {x y : Json} (plain : Plain x) (plain' : Plain y)
    (same : x.pretty = y.pretty) : x = y := by
  have stops : Stops [] := nofun
  have texts : write (some 0) x ++ [] = write (some 0) y ++ [] := by
    rw [List.append_nil, List.append_nil]
    exact String.ofList_injective same
  exact (unambiguous_write plain plain' _ stops stops texts).1

end Values

end SegmentCatalog.Json
