import SegmentCatalog.Schema.Vocabulary

/-! # Kinds of text index

The text index attached to a column, if any.
-/

namespace SegmentCatalog

inductive TextIndexType where
  | none | lucene
  deriving DecidableEq

namespace TextIndexType

/-- A column has no text index unless it says so. -/
protected def default : TextIndexType := .none

instance : Inhabited TextIndexType := ⟨TextIndexType.default⟩

def all : List TextIndexType := [.none, .lucene]

def name : TextIndexType → String
  | .none => "NONE"
  | .lucene => "LUCENE"

def label : TextIndexType → String
  | .none => "None"
  | .lucene => "Lucene"

instance : Vocabulary TextIndexType where
  kind := "text index type"
  all := all
  name := name
  label := label
  mem_all := fun t => by cases t <;> decide
  name_injective := fun s t h => by cases s <;> cases t <;> first | rfl | exact absurd h (by decide)
  upper_name := fun t => by cases t <;> rfl

end TextIndexType

end SegmentCatalog
