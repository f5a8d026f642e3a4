/-! # White space and cutting text

Text is worked on as a list of characters.  White space is Unicode's property
`White_Space`, wider than `Char.isWhitespace`, which knows four ASCII characters.

* `isBlank` decides white space;
* `trimStart`, `trimEnd`, `trim` drop it from one end or from both;
* `cutAt` cuts a text at every character of a class, `words` at runs of white space.

`trim` never looks inside a text: `trim_of_ends` says that a text whose ends are not blank
stays as it is.
-/

namespace SegmentCatalog.Text

/-- White space: tab to carriage return, the spaces, and the line and paragraph separators. -/
def isBlank (c : Char) : Bool :=
  let n := c.toNat
  (0x9 ≤ n && n ≤ 0xd) || n == 0x20 || n == 0x85 || n == 0xa0 || n == 0x1680 ||
    (0x2000 ≤ n && n ≤ 0x200a) || n == 0x2028 || n == 0x2029 || n == 0x202f || n == 0x205f ||
    n == 0x3000

/-! ## Trimming -/

def trimStart (cs : List Char) : List Char := cs.dropWhile isBlank

def trimEnd (cs : List Char) : List Char := (cs.reverse.dropWhile isBlank).reverse

def trim (cs : List Char) : List Char := trimEnd (trimStart cs)

/-- `text` without the white space around it. -/
def trimmed (text : String) : String := .ofList (trim text.toList)

@[simp] theorem trimStart_nil : trimStart [] = [] := rfl
@[simp] theorem trimEnd_nil : trimEnd [] = [] := rfl
@[simp] theorem trim_nil : trim [] = [] := rfl

theorem trimStart_of_not_blank {c : Char} (rest : List Char) (h : isBlank c = false) :
    trimStart (c :: rest) = c :: rest := by
  simp [trimStart, h]

theorem trimEnd_of_not_blank {c : Char} (front : List Char) (h : isBlank c = false) :
    trimEnd (front ++ [c]) = front ++ [c] := by
  simp [trimEnd, h]

/-- A text that neither starts nor ends with white space is left alone. -/
theorem trim_of_ends {cs : List Char} (first : ∀ c ∈ cs.head?, isBlank c = false)
    (last : ∀ c ∈ cs.getLast?, isBlank c = false) : trim cs = cs := by
  cases cs with
  | nil => rfl
  | cons c rest =>
    rw [trim, trimStart_of_not_blank rest (first c rfl)]
    rcases List.eq_nil_or_concat (c :: rest) with h | ⟨front, d, h⟩
    · cases h
    · rw [h] at last ⊢
      rw [List.concat_eq_append] at last ⊢
      exact trimEnd_of_not_blank front (last d (by simp))

/-! ## Cutting -/

/-- The pieces between the characters that satisfy `cut`: one more than there are such
    characters. -/
def cutAt (cut : Char → Bool) : List Char → List (List Char)
  | [] => [[]]
  | c :: rest =>
    if cut c then [] :: cutAt cut rest
    else match cutAt cut rest with
      | [] => [[c]]
      | piece :: pieces => (c :: piece) :: pieces

/-- The maximal runs of characters that are not white space. -/
def words (cs : List Char) : List (List Char) := (cutAt isBlank cs).filter (!·.isEmpty)

theorem cutAt_ne_nil (cut : Char → Bool) (cs : List Char) : cutAt cut cs ≠ [] := by
  cases cs with
  | nil => simp [cutAt]
  | cons c rest =>
    rw [cutAt]
    split
    · simp
    · split <;> simp

end SegmentCatalog.Text
