import Mathlib.Data.List.Basic
import SegmentCatalog.Config.PropertyStore
import SegmentCatalog.Proofs.References.Memo

/-! # Texts that are meant literally

A reference is not followed if one more dollar sign stands in front of it.  `Piece.shield` puts one
in front of every dollar sign that a name in braces follows, taking these from the left, as they
are read.

Expansion takes those dollar signs away again and changes nothing else
(`Piece.writeOut_shield`), so that any text can be stored under a key and be read back, directly or
through a reference (`PropertyStore.text?_set_shielded`).

`Piece.unshield` is what expansion makes of a text if there is no other key to refer to
(`Lookup.interpolate_of_alone`).
-/

namespace SegmentCatalog

namespace Piece

/-- Reads a dollar sign and a name in braces off the front of a text. -/
def braced? : List Char → Option (List Char × List Char)
  | '$' :: '{' :: rest => name? rest
  | _ => none

variable {c : Char} {cs name rest : List Char}

theorem braced?_eq_some_iff :
    braced? cs = some (name, rest) ↔ name ≠ [] ∧ '}' ∉ name ∧
      cs = (reference name).written ++ rest := by
  constructor
  · intro found
    unfold braced? at found
    split at found
    · obtain ⟨filled, solid, rfl⟩ := name?_eq_some_iff.1 found
      exact ⟨filled, solid, by simp [written]⟩
    · cases found
  · rintro ⟨filled, solid, rfl⟩
    have named : name? (name ++ '}' :: rest) = some (name, rest) :=
      name?_eq_some_iff.2 ⟨filled, solid, rfl⟩
    simp [written, braced?, named]

theorem braced?_length (found : braced? cs = some (name, rest)) : rest.length < cs.length := by
  obtain ⟨_, _, rfl⟩ := braced?_eq_some_iff.1 found
  simp only [written, List.length_append, List.length_cons]
  omega

/-- The text with one more dollar sign in front of each dollar sign that a name in braces
    follows. -/
def shield : List Char → List Char
  | [] => []
  | c :: cs =>
    match _found : braced? (c :: cs) with
    | some (name, rest) => '$' :: (reference name).written ++ shield rest
    | none => c :: shield cs
termination_by cs => cs.length
decreasing_by
  · exact braced?_length _found
  · simp

theorem shield_of_braced? (found : braced? (c :: cs) = some (name, rest)) :
    shield (c :: cs) = (escaped name).written ++ shield rest := by
  rw [shield]
  split
  · rename_i again
    rw [found] at again
    cases again
    rfl
  · rename_i missed
    rw [found] at missed
    cases missed

theorem shield_of_not_braced (missed : braced? (c :: cs) = none) :
    shield (c :: cs) = c :: shield cs := by
  rw [shield]
  split
  · rename_i found
    rw [missed] at found
    cases found
  · rfl

/-! ## What is read off a shielded text -/

/-- What is put in front of a dollar sign is a dollar sign. -/
theorem head?_shield (cs : List Char) : (shield cs).head? = cs.head? := by
  cases cs with
  | nil => rw [shield]
  | cons c cs =>
    cases found : braced? (c :: cs) with
    | some outcome =>
      obtain ⟨_, _, whole⟩ := braced?_eq_some_iff.1 found
      rw [shield_of_braced? found, whole]
      rfl
    | none =>
      rw [shield_of_not_braced found]
      rfl

theorem mem_shield_iff (other : c ≠ '$') : c ∈ shield cs ↔ c ∈ cs := by
  fun_induction shield cs with
  | case1 => rfl
  | case2 d ds name rest found ih =>
    obtain ⟨_, _, whole⟩ := braced?_eq_some_iff.1 found
    rw [whole, List.cons_append, List.mem_cons, List.mem_append, List.mem_append, ih]
    simp [other]
  | case3 d ds _ ih => rw [List.mem_cons, List.mem_cons, ih]

/-- No name is read off the front of a text if it starts with a closing brace or has none. -/
theorem name?_eq_none_iff : name? cs = none ↔ cs.head? = some '}' ∨ '}' ∉ cs := by
  constructor
  · intro missed
    by_cases closed : '}' ∈ cs
    · obtain ⟨name, rest, rfl, solid⟩ := List.eq_append_cons_of_mem closed
      cases name with
      | nil => exact .inl rfl
      | cons d name =>
        have found : name? (d :: name ++ '}' :: rest) = some (d :: name, rest) :=
          name?_eq_some_iff.2 ⟨List.cons_ne_nil d name, solid, rfl⟩
        rw [missed] at found
        cases found
    · exact .inr closed
  · intro shape
    cases found : name? cs with
    | none => rfl
    | some outcome =>
      obtain ⟨filled, solid, rfl⟩ := name?_eq_some_iff.1 found
      rcases shape with starts | open_
      · obtain ⟨d, name, whole⟩ := List.exists_cons_of_ne_nil filled
        rw [whole] at starts solid
        cases starts
        exact absurd (List.mem_cons_self ..) solid
      · exact absurd (by simp) open_

theorem name?_shield (missed : name? cs = none) : name? (shield cs) = none := by
  rw [name?_eq_none_iff] at missed ⊢
  rwa [head?_shield, mem_shield_iff (by decide)]

/-- Behind a dollar sign that opens no name in braces, the shielded text does not open one. -/
theorem shield_ne_opening (missed : braced? ('$' :: cs) = none) (filled : name ≠ [])
    (solid : '}' ∉ name) : shield cs ≠ '{' :: name ++ ['}'] ++ rest := by
  intro same
  rw [List.append_assoc, List.singleton_append, List.cons_append] at same
  have starts := head?_shield cs
  rw [same, List.head?_cons] at starts
  obtain ⟨ds, rfl⟩ := List.head?_eq_some_iff.1 starts.symm
  have missed' : name? ds = none := missed
  rw [shield_of_not_braced rfl] at same
  have named := name?_eq_some_iff.2 ⟨filled, solid, (List.cons.inj same).2⟩
  rw [name?_shield missed'] at named
  cases named

/-- Where the text has no name in braces, the shielded text has nothing that is read as a
    reference. -/
theorem reference?_cons_shield (missed : braced? (c :: cs) = none) :
    reference? (c :: shield cs) = none := by
  cases found : reference? (c :: shield cs) with
  | none => rfl
  | some outcome =>
    obtain ⟨name, filled, solid, shape, whole⟩ := reference?_eq_some_iff.1 found
    rcases shape with isReference | isEscaped
    · rw [isReference] at whole
      obtain ⟨rfl, behind⟩ := List.cons.inj whole
      exact absurd behind (shield_ne_opening missed filled solid)
    -- one more dollar sign: it stands in the text, and then it opens no name in braces either
    · rw [isEscaped] at whole
      obtain ⟨rfl, behind⟩ := List.cons.inj whole
      have starts := head?_shield cs
      rw [behind] at starts
      obtain ⟨ds, rfl⟩ := List.head?_eq_some_iff.1 starts.symm
      cases again : braced? ('$' :: ds) with
      | some inner =>
        rw [shield_of_braced? again] at behind
        exact absurd (List.cons.inj (List.cons.inj behind).2).1 (by decide)
      | none =>
        rw [shield_of_not_braced again] at behind
        exact absurd (List.cons.inj behind).2 (shield_ne_opening again filled solid)

/-- A shielded text is written out as it was before, whatever the keys stand for. -/
theorem writeOut_shield (resolve : String → Memo → List Char × Memo) (cs : List Char)
    (memo : Memo) : Lookup.writeOut resolve (ofText (shield cs)) memo = (cs, memo) := by
  fun_induction shield cs with
  | case1 =>
    rw [ofText_nil]
    rfl
  | case2 c cs name rest found ih =>
    obtain ⟨filled, solid, whole⟩ := braced?_eq_some_iff.1 found
    have pieces := ofText_written_append filled solid (.inr rfl) (shield rest)
    change Lookup.writeOut resolve (ofText ((escaped name).written ++ shield rest)) memo = _
    rw [pieces, Lookup.writeOut, ih, whole]
    rfl
  | case3 c cs missed ih =>
    rw [ofText_of_not_reference (reference?_cons_shield missed), Lookup.writeOut, ih]

/-- The text with one dollar sign less in front of each name in braces that two of them precede,
    references being taken from the left. -/
def unshield (cs : List Char) : List Char := (ofText cs).flatMap (substituted Lookup.leftAlone)

theorem written_infix_of_mem_ofText {piece : Piece} (member : piece ∈ ofText cs) :
    piece.written <:+: cs := by
  obtain ⟨front, rest, split⟩ := List.append_of_mem member
  have whole := flatMap_written_ofText cs
  rw [split, List.flatMap_append, List.flatMap_cons, ← List.append_assoc] at whole
  exact ⟨_, _, whole⟩

/-- Where no reference is escaped there is nothing to take away. -/
theorem unshield_of_free (free : ¬ ['$', '$', '{'] <:+: cs) : unshield cs = cs := by
  have same : ∀ piece ∈ ofText cs, substituted Lookup.leftAlone piece = piece.written := by
    intro piece member
    cases piece with
    | char _ => rfl
    | reference name => rw [substituted, Lookup.leftAlone, String.toList_ofList]
    | escaped name =>
      have inside := written_infix_of_mem_ofText member
      exact absurd (List.IsInfix.trans ⟨[], name ++ ['}'], by simp [written]⟩ inside) free
  rw [unshield, List.flatMap_congr same, flatMap_written_ofText]

end Piece

namespace Lookup

/-- Where no other key has a value, all that expansion does is to take away the dollar signs of
    escaped references. -/
theorem interpolate_of_alone {lookup : Lookup} {key : String}
    (alone : ∀ name, name ≠ key → lookup name = none) (text : String) :
    lookup.interpolate key text = .ofList (Piece.unshield text.toList) := by
  have resolved : ∀ name, lookup.resolve (maxPending - 1) [key] name [] = (leftAlone name, []) := by
    intro name
    apply resolve_leftAlone rfl
    by_cases itself : name = key
    · exact .inr (.inl (itself ▸ List.mem_singleton_self name))
    · exact .inl (alone name itself)
  have same : writeOut (lookup.resolve (maxPending - 1) [key]) (Piece.ofText text.toList) [] =
      (Piece.unshield text.toList, []) :=
    writeOut_pure resolved
  rw [interpolate, same]

/-- A shielded text stands for the text itself, whichever key it belongs to. -/
theorem interpolate_shield (lookup : Lookup) (key : String) (cs : List Char) :
    lookup.interpolate key (.ofList (Piece.shield cs)) = .ofList cs := by
  rw [interpolate, String.toList_ofList, Piece.writeOut_shield]

/-- A key that has a shielded text, and is not pending, is resolved to the text itself. -/
theorem resolve_shield {lookup : Lookup} {levels : Nat} {pending : List String} {name : String}
    {cs : List Char} {memo : Memo} (unknown : memo.lookup name = none)
    (present : lookup name = some (.ofList (Piece.shield cs))) (free : name ∉ pending) :
    (lookup.resolve (levels + 1) pending name memo).1 = cs := by
  rw [resolve_anew unknown present free, String.toList_ofList, Piece.writeOut_shield]

end Lookup

namespace PropertyStore

open Lookup

/-- A text that, stored under a key, is read back as `text`. -/
def shielded (text : String) : String := .ofList (Piece.shield text.toList)

/-- Once `shielded text` is stored under a key, `text` is the text of the key and its one item, and
    the text of any other key that has nothing but a reference to it. -/
theorem text?_set_shielded (store : PropertyStore) (key text : String) :
    (store.set key (shielded text)).text? key = some text ∧
    (store.set key (shielded text)).list key = [text] ∧
    ∀ other, key ≠ "" → '}' ∉ key.toList → other ≠ key →
      (store.set key (shielded text)).raw? other = some (.ofList (leftAlone key)) →
      (store.set key (shielded text)).text? other = some text := by
  have raw : (store.set key (shielded text)).raw? key = some (shielded text) := by
    rw [raw?_set, if_pos rfl]
  have itself : ∀ lookup : Lookup, lookup.interpolate key (shielded text) = text := by
    intro lookup
    rw [shielded, interpolate_shield, String.ofList_toList]
  refine ⟨?_, ?_, ?_⟩
  · rw [text?, raw, Option.map_some, itself]
  · rw [list, set, OrderedMap.find?_insert, if_pos rfl]
    exact congrArg (fun item => [item]) (itself _)
  · intro other filled solid apart refers
    have behind : (resolve (store.set key (shielded text)).raw? (maxPending - 1) [other] key []).1 =
        text.toList :=
      resolve_shield rfl raw (by simpa using apart.symm)
    rw [text?, refers, Option.map_some, interpolate_leftAlone filled solid, behind,
      String.ofList_toList]

/-- An escaped reference, empty braces, a brace inside a name, and a brace that is left open. -/
def entangled : String := "$$\x7ba\x7d$\x7b\x7d$\x7bb$\x7bk\x7d$\x7b"

/-- A key that refers to `k`, which `entangled` mentions. -/
def pointing : PropertyStore :=
  (PropertyStore.set OrderedMap.empty "a" "1").set "j" (.ofList (leftAlone "k"))

theorem text?_set_shielded_entangled :
    shielded entangled = "$$$\x7ba\x7d$\x7b\x7d$$\x7bb$\x7bk\x7d$\x7b" ∧
    ("k" ≠ "" ∧ '}' ∉ "k".toList ∧ "j" ≠ "k" ∧
      (pointing.set "k" (shielded entangled)).raw? "j" = some (.ofList (leftAlone "k"))) ∧
    (pointing.set "k" (shielded entangled)).text? "j" = some entangled := by
  have refers : (pointing.set "k" (shielded entangled)).raw? "j" =
      some (.ofList (leftAlone "k")) := by
    rw [raw?_set, if_neg (by decide)]
    rfl
  obtain ⟨_, _, others⟩ := text?_set_shielded pointing "k" entangled
  refine ⟨by decide +kernel, ⟨by decide, by decide, by decide, refers⟩, ?_⟩
  exact others "j" (by decide) (by decide) (by decide) refers

end PropertyStore

end SegmentCatalog
