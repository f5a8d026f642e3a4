import SegmentCatalog.Text.Blank
import SegmentCatalog.Text.Case

/-! # Closed vocabularies

Data types, field types, time units and kinds of text index are stored as keywords in
capitals.  A `Vocabulary` lists the members of such a type with their keywords, and
`Vocabulary.find?` reads one from text in any case and with white space around it.

`find?_eq_some_iff` says exactly which texts are read as a member: those whose upper-case
form, once trimmed, is its keyword.  Every keyword is one of them (`find?_name`).
-/

namespace SegmentCatalog

/-- A type whose members are written as keywords, no two alike. -/
class Vocabulary (α : Type) where
  /-- What a member is called in an error: "data type", "time unit", … -/
  kind : String
  all : List α
  /-- The keyword, in capitals. -/
  name : α → String
  /-- The name used in diagnostics, in mixed case. -/
  label : α → String
  mem_all : ∀ x, x ∈ all
  name_injective : ∀ x y, name x = name y → x = y
  upper_name : ∀ x, Text.upper (Text.trim (name x).toList) = (name x).toList

namespace Vocabulary

variable {α : Type} [Vocabulary α]

/-- The member whose keyword `text` is, letter case and surrounding white space apart. -/
def find? (α : Type) [Vocabulary α] (text : String) : Option α :=
  let word := Text.upper (Text.trim text.toList)
  (all (α := α)).find? fun x => (name x).toList == word

theorem name_of_find? {text : String} {x : α} (h : find? α text = some x) :
    (name x).toList = Text.upper (Text.trim text.toList) := by
  simpa using List.find?_some h

theorem find?_eq_some_iff {text : String} {x : α} :
    find? α text = some x ↔ (name x).toList = Text.upper (Text.trim text.toList) := by
  refine ⟨name_of_find?, fun h => ?_⟩
  cases found : find? α text with
  | none => exact absurd h (by simpa using List.find?_eq_none.1 found x (mem_all x))
  | some y =>
    rw [← name_of_find? found] at h
    rw [name_injective x y (String.toList_injective h)]

@[simp] theorem find?_name (x : α) : find? α (name x) = some x :=
  find?_eq_some_iff.2 (upper_name x).symm

end Vocabulary

end SegmentCatalog
