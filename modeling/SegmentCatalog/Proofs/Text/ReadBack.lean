import SegmentCatalog.Text.Blank
import SegmentCatalog.Text.Hex

/-! # Texts that are read back

What is written without white space is not trimmed, what is joined with a separator can be cut
at it again, and every character has a spelling that is read as that character.

* `trim_of_no_blank` is about trimming;
* `cutAt_intercalate` about cutting;
* `unescape?_spelling` about backslash escapes.
-/

namespace SegmentCatalog.Text

/-! ## White space -/

theorem trim_of_no_blank {cs : List Char} (solid : ∀ c ∈ cs, isBlank c = false) : trim cs = cs :=
  trim_of_ends (fun c first => solid c (List.mem_of_mem_head? first))
    (fun c last => solid c (List.mem_of_mem_getLast? last))

theorem dropWhile_of_solid {p : Char → Bool} {cs : List Char} (solid : ∀ c ∈ cs, p c = false) :
    cs.dropWhile p = cs := by
  cases cs with
  | nil => rfl
  | cons c rest => simp [solid c (List.mem_cons_self ..)]

theorem trimEnd_of_last {cs : List Char} (solid : ∀ c ∈ cs.getLast?, isBlank c = false) :
    trimEnd cs = cs := by
  cases List.eq_nil_or_concat cs with
  | inl empty =>
    rw [empty]
    rfl
  | inr split =>
    obtain ⟨front, c, rfl⟩ := split
    rw [List.concat_eq_append] at solid ⊢
    exact trimEnd_of_not_blank front (solid c List.getLast?_concat)

theorem trimEnd_of_no_blank {cs : List Char} (solid : ∀ c ∈ cs, isBlank c = false) :
    trimEnd cs = cs :=
  trimEnd_of_last fun c last => solid c (List.mem_of_mem_getLast? last)

/-- White space at the end does not matter to what is in front of it. -/
theorem trimEnd_append {cs tail : List Char} (tails : ∀ c ∈ tail, isBlank c = true) :
    trimEnd (cs ++ tail) = trimEnd cs := by
  rw [trimEnd, List.reverse_append, List.dropWhile_append_of_pos (by simpa using tails), trimEnd]

/-- White space around a text that has none in it is dropped. -/
theorem trim_surrounded {lead cs tail : List Char} (leads : ∀ c ∈ lead, isBlank c = true)
    (solid : ∀ c ∈ cs, isBlank c = false) (tails : ∀ c ∈ tail, isBlank c = true) :
    trim (lead ++ cs ++ tail) = cs := by
  have front : trimStart (lead ++ (cs ++ tail)) = trimStart (cs ++ tail) :=
    List.dropWhile_append_of_pos leads
  rw [List.append_assoc, trim, front]
  cases cs with
  | nil =>
    have nothing : trimStart tail = [] := by
      rw [← List.append_nil tail]
      exact List.dropWhile_append_of_pos tails
    rw [List.nil_append, nothing, trimEnd_nil]
  | cons c rest =>
    rw [List.cons_append, trimStart_of_not_blank _ (solid c (List.mem_cons_self ..)),
      ← List.cons_append, trimEnd_append tails, trimEnd_of_no_blank solid]

theorem not_blank_of_bounds {c : Char} (above : 0x21 ≤ c.toNat) (below : c.toNat ≤ 0x7e) :
    isBlank c = false := by
  simp [isBlank]
  omega

theorem not_blank_of_isDigit {c : Char} (digit : c.isDigit = true) : isBlank c = false := by
  simp only [Char.isDigit, ge_iff_le, Bool.and_eq_true, decide_eq_true_eq] at digit
  obtain ⟨above, below⟩ := digit
  have above : 48 ≤ c.toNat := above
  have below : c.toNat ≤ 57 := below
  exact not_blank_of_bounds (by omega) (by omega)

theorem ne_of_isAlpha {c d : Char} (letter : c.isAlpha = true) (other : d.isAlpha = false) :
    c ≠ d := by
  rintro rfl
  rw [letter] at other
  cases other

theorem not_blank_of_isAlpha {c : Char} (letter : c.isAlpha = true) : isBlank c = false := by
  have either : c.isUpper = true ∨ c.isLower = true := Bool.or_eq_true_iff.1 letter
  cases either with
  | inl capital =>
    have bounds : 65 ≤ c.toNat ∧ c.toNat ≤ 90 := of_decide_eq_true capital
    exact not_blank_of_bounds (by omega) (by omega)
  | inr small =>
    have both : decide (97 ≤ c.toNat) = true ∧ decide (c.toNat ≤ 122) = true :=
      Bool.and_eq_true_iff.1 small
    simp only [decide_eq_true_eq] at both
    exact not_blank_of_bounds (by omega) (by omega)

theorem not_blank_of_mem_hex {bytes : List UInt8} {c : Char} (member : c ∈ hex bytes) :
    isBlank c = false := by
  have digits : ∀ n, n < 16 → isBlank (Nat.digitChar n) = false := by decide
  obtain ⟨b, _, inByte⟩ := List.mem_flatMap.1 member
  have small := b.toNat_lt
  simp only [hexByte, List.mem_cons, List.not_mem_nil, or_false] at inByte
  rcases inByte with rfl | rfl
  · exact digits _ (by omega)
  · exact digits _ (by omega)

@[simp] theorem trim_hex (bytes : List UInt8) : trim (hex bytes) = hex bytes :=
  trim_of_no_blank fun _ => not_blank_of_mem_hex

/-! ## Cutting -/

theorem cutAt_append_cons {cut : Char → Bool} {sep : Char} (cuts : cut sep = true)
    (front rest : List Char) :
    cutAt cut (front ++ sep :: rest) = cutAt cut front ++ cutAt cut rest := by
  induction front with
  | nil => simp [cutAt, cuts]
  | cons c front ih =>
    rw [List.cons_append, cutAt, cutAt, ih]
    cases cut c with
    | true => simp
    | false =>
      cases shape : cutAt cut front with
      | nil => exact absurd shape (cutAt_ne_nil cut front)
      | cons piece pieces => simp

theorem cutAt_of_solid {cut : Char → Bool} {piece : List Char}
    (solid : ∀ c ∈ piece, cut c = false) : cutAt cut piece = [piece] := by
  induction piece with
  | nil => rfl
  | cons c piece ih =>
    obtain ⟨here, later⟩ := List.forall_mem_cons.1 solid
    rw [cutAt, if_neg (by simp [here]), ih later]

theorem cutAt_append {cut : Char → Bool} {piece : List Char} (solid : ∀ c ∈ piece, cut c = false)
    {sep : Char} (cuts : cut sep = true) (rest : List Char) :
    cutAt cut (piece ++ sep :: rest) = piece :: cutAt cut rest := by
  rw [cutAt_append_cons cuts, cutAt_of_solid solid, List.singleton_append]

/-- Cutting at a separator gives back the pieces that were joined with it. -/
theorem cutAt_intercalate {cut : Char → Bool} {sep : Char} (cuts : cut sep = true)
    {pieces : List (List Char)} (filled : pieces ≠ [])
    (solid : ∀ piece ∈ pieces, ∀ c ∈ piece, cut c = false) :
    cutAt cut ([sep].intercalate pieces) = pieces := by
  induction pieces with
  | nil => exact absurd rfl filled
  | cons piece pieces ih =>
    obtain ⟨here, later⟩ := List.forall_mem_cons.1 solid
    -- the last piece has no separator behind it
    cases pieces with
    | nil =>
      rw [List.intercalate_singleton]
      exact cutAt_of_solid here
    | cons next pieces =>
      rw [List.intercalate_cons_cons, List.append_assoc, List.singleton_append,
        cutAt_append here cuts, ih (by simp) later]

/-! ## Escapes -/

/-- A text without backslashes spells itself. -/
theorem unescape?_of_no_backslash {cs : List Char} (free : '\\' ∉ cs) : unescape? cs = some cs := by
  induction cs with
  | nil => exact unescape?_nil
  | cons c cs ih =>
    rw [List.mem_cons, not_or] at free
    rw [unescape?_cons_of_ne cs (Ne.symm free.1), ih free.2, Option.map_some]

/-- The text that spells a character where escapes are read. -/
def spelling (c : Char) : String := if c = '\\' then "\\\\" else String.singleton c

theorem unescape?_spelling (c : Char) : unescape? (spelling c).toList = some [c] := by
  by_cases backslash : c = '\\'
  · subst backslash
    rw [spelling, if_pos rfl]
    simp [unescape?_cons, readChar, readEscape, octalDigit?, named]
  · rw [spelling, if_neg backslash, String.toList_singleton, unescape?_cons_of_ne _ backslash]
    simp

end SegmentCatalog.Text
