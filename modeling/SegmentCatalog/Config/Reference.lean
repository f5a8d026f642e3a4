/-! # References between values

A value may refer to another key by a dollar sign and the key's name in braces.  One more
dollar sign in front keeps the reference from being followed, and is dropped.

* `Piece` is a character, a reference, or a reference that is not to be followed;
  `Piece.ofText` splits a text into its pieces, `Piece.written` writes one back, and nothing
  is lost in between (`flatMap_written_ofText`);
* `Lookup.writeOut` writes pieces out, with every reference replaced by its text;
* `Lookup.resolve` gives the text of a reference: the value of its key, written out in turn;
* `Lookup.interpolate` writes out the value of a key.

A reference stays as it is written if its key is absent, is being expanded already, or is
nested too deep.  Each key is expanded once in an interpolation: `Memo` holds the results.
-/

namespace SegmentCatalog

/-! ## Splitting a text -/

inductive Piece where
  | char (c : Char)
  | reference (name : List Char)
  /-- A reference to `name` that is not followed. -/
  | escaped (name : List Char)
  deriving DecidableEq

namespace Piece

/-- Reads what follows an opening brace: a name of at least one character, up to the next
    closing brace, and the text behind it. -/
def name? (cs : List Char) : Option (List Char × List Char) :=
  match cs.takeWhile (· != '}'), cs.dropWhile (· != '}') with
  | [], _ => none
  | _, [] => none
  | name, _ :: rest => some (name, rest)

/-- Reads the reference or escaped reference that a text starts with. -/
def reference? : List Char → Option (Piece × List Char)
  | '$' :: '$' :: '{' :: rest => (name? rest).map fun (name, rest) => (escaped name, rest)
  | '$' :: '{' :: rest => (name? rest).map fun (name, rest) => (reference name, rest)
  | _ => none

theorem append_of_name? {cs name rest : List Char} (h : name? cs = some (name, rest)) :
    cs = name ++ '}' :: rest := by
  have whole := List.takeWhile_append_dropWhile (p := (· != '}')) (l := cs)
  have stop := List.head?_dropWhile_not (· != '}') cs
  rw [name?] at h
  split at h
  · cases h
  · cases h
  · rename_i found _
    rw [found] at whole stop
    cases h
    simp only [List.head?_cons, bne_eq_false_iff_eq] at stop
    subst stop
    exact whole.symm

theorem name?_length {cs name rest : List Char} (h : name? cs = some (name, rest)) :
    rest.length < cs.length := by
  have shorter := (List.dropWhile_sublist (l := cs) (· != '}')).length_le
  rw [name?] at h
  split at h
  · cases h
  · cases h
  · rename_i shape _
    rw [shape] at shorter
    cases h
    simp only [List.length_cons] at shorter
    omega

theorem reference?_length {cs rest : List Char} {piece : Piece}
    (h : reference? cs = some (piece, rest)) : rest.length < cs.length := by
  unfold reference? at h
  split at h
  · obtain ⟨⟨name, rest⟩, found, same⟩ := Option.map_eq_some_iff.1 h
    have := name?_length found
    cases same
    simp only [List.length_cons]
    omega
  · obtain ⟨⟨name, rest⟩, found, same⟩ := Option.map_eq_some_iff.1 h
    have := name?_length found
    cases same
    simp only [List.length_cons]
    omega
  · cases h

/-- The pieces of a text, references being taken from the left. -/
def ofText : List Char → List Piece
  | [] => []
  | c :: cs =>
    match _found : reference? (c :: cs) with
    | some (piece, rest) => piece :: ofText rest
    | none => char c :: ofText cs
termination_by cs => cs.length
decreasing_by
  · exact reference?_length _found
  · simp

/-- A piece as it stands in the text. -/
def written : Piece → List Char
  | char c => [c]
  | reference name => '$' :: '{' :: name ++ ['}']
  | escaped name => '$' :: '$' :: '{' :: name ++ ['}']

theorem written_append_of_reference? {cs rest : List Char} {piece : Piece}
    (h : reference? cs = some (piece, rest)) : cs = piece.written ++ rest := by
  unfold reference? at h
  split at h
  · obtain ⟨_, found, same⟩ := Option.map_eq_some_iff.1 h
    cases same
    simp [written, append_of_name? found]
  · obtain ⟨_, found, same⟩ := Option.map_eq_some_iff.1 h
    cases same
    simp [written, append_of_name? found]
  · cases h

/-- The pieces of a text, written one after the other, are the text. -/
theorem flatMap_written_ofText (cs : List Char) : (ofText cs).flatMap written = cs := by
  fun_induction ofText cs with
  | case1 => rfl
  | case2 c cs piece rest found ih =>
    rw [List.flatMap_cons, ih, ← written_append_of_reference? found]
  | case3 c cs _ ih =>
    rw [List.flatMap_cons, ih]
    rfl

/-- What an escaped reference stands for: itself with one dollar sign less. -/
def unescaped (name : List Char) : List Char := written (reference name)

@[simp] theorem ofText_nil : ofText [] = [] := by rw [ofText]

end Piece

/-! ## Following references -/

/-- The values of the keys that references lead to. -/
abbrev Lookup := String → Option String

/-- The expanded values of the keys expanded so far. -/
abbrev Memo := List (String × List Char)

namespace Lookup

/-- Writes pieces out, asking `resolve` for the text of each reference in turn. -/
def writeOut (resolve : String → Memo → List Char × Memo) :
    List Piece → Memo → List Char × Memo
  | [], memo => ([], memo)
  | .char c :: pieces, memo =>
    let (text, memo) := writeOut resolve pieces memo
    (c :: text, memo)
  | .escaped name :: pieces, memo =>
    let (text, memo) := writeOut resolve pieces memo
    (Piece.unescaped name ++ text, memo)
  | .reference name :: pieces, memo =>
    let (front, memo) := resolve (.ofList name) memo
    let (text, memo) := writeOut resolve pieces memo
    (front ++ text, memo)

/-- The text of a reference to `name`.  `pending` are the keys being expanded, the innermost
    first; `levels` is how many more may be. -/
def resolve (lookup : Lookup) : Nat → List String → String → Memo → List Char × Memo
  | levels, pending, name, memo =>
    match memo.lookup name with
    | some text => (text, memo)
    | none =>
      match lookup name, levels with
      | some value, levels + 1 =>
        -- a key that is being expanded is left alone, or expansion would not end
        if name ∈ pending then (Piece.written (.reference name.toList), memo)
        else
          let (text, memo) :=
            writeOut (resolve lookup levels (name :: pending)) (Piece.ofText value.toList) memo
          (text, (name, text) :: memo)
      -- an absent key, or too deep a nest; nothing is remembered of either
      | _, _ => (Piece.written (.reference name.toList), memo)

/-- How many keys may be in expansion at a time. -/
def maxPending : Nat := 16

/-- `text`, which belongs to `key`, with its references replaced. -/
def interpolate (lookup : Lookup) (key text : String) : String :=
  let (text, _) :=
    writeOut (resolve lookup (maxPending - 1) [key]) (Piece.ofText text.toList) []
  .ofList text

end Lookup

end SegmentCatalog
