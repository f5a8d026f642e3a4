import SegmentCatalog.Proofs.Text.ReadBack

/-! # Texts written in escapes

Every text can be written without a character that means anything to a reader of properties:
a character up to U+FFFF by its code of four hexadecimal digits, a character above as itself.

* `escape` writes a text this way, with the digits of a `HexDigits`;
* `unescape?_escape` says that reading the escapes gives the text back;
* `guarded_escape` says which characters it consists of: letters, digits, characters above U+FFFF
  and a backslash in front of some of them.
-/

namespace SegmentCatalog.Text

/-- Digits to write a hexadecimal number in: small letters, capitals or some of each. -/
structure HexDigits where
  digit : Nat → Char
  read : ∀ n < 16, hexDigit? (digit n) = some n

namespace HexDigits

def capital : HexDigits where
  digit n := (Nat.digitChar n).toUpper
  read := by decide

/-- The last four digits of a number. -/
def four (hex : HexDigits) (n : Nat) : List Char :=
  [hex.digit (n / 4096 % 16), hex.digit (n / 256 % 16), hex.digit (n / 16 % 16),
    hex.digit (n % 16)]

end HexDigits

variable {hex : HexDigits}

def escapeChar (hex : HexDigits) (c : Char) : List Char :=
  if c.toNat < 0x10000 then '\\' :: 'u' :: hex.four c.toNat else [c]

def escape (hex : HexDigits) (cs : List Char) : List Char := cs.flatMap (escapeChar hex)

@[simp] theorem escape_nil : escape hex [] = [] := rfl

@[simp] theorem escape_cons (c : Char) (cs : List Char) :
    escape hex (c :: cs) = escapeChar hex c ++ escape hex cs := rfl

theorem escape_ne_nil {cs : List Char} (filled : cs ≠ []) : escape hex cs ≠ [] := by
  obtain ⟨c, rest, rfl⟩ := List.exists_cons_of_ne_nil filled
  rw [escape_cons, escapeChar]
  split <;> simp

/-! ## Reading escapes -/

theorem ne_of_hexDigit? {c d : Char} {n : Nat} (digit : hexDigit? c = some n)
    (other : hexDigit? d = none) : c ≠ d := by
  rintro rfl
  rw [digit] at other
  cases other

theorem hexNumber?_four (hex : HexDigits) {n : Nat} (small : n < 0x10000) :
    hexNumber? (hex.four n) = some n := by
  have whole : 16 * (16 * (16 * (n / 4096 % 16) + n / 256 % 16) + n / 16 % 16) + n % 16 = n := by
    omega
  simp [hexNumber?, HexDigits.four, hex.read, Nat.mod_lt, whole]

theorem hexCode?_four (hex : HexDigits) {n : Nat} (small : n < 0x10000) :
    hexCode? (hex.four n) = some n := by
  have plain : hex.digit (n / 4096 % 16) ≠ '+' :=
    ne_of_hexDigit? (hex.read _ (Nat.mod_lt _ (by decide))) (by decide)
  have read := hexNumber?_four hex small
  rw [HexDigits.four] at read ⊢
  unfold hexCode?
  split
  · rename_i same
    exact absurd (List.cons.inj same).1 plain
  · exact read

theorem charOfCode?_toNat (c : Char) : charOfCode? c.toNat = some c := by
  have valid : c.toNat.isValidChar := c.valid
  rw [charOfCode?, dif_pos valid]
  rfl

theorem readCode_four {c : Char} (small : c.toNat < 0x10000) (rest : List Char) :
    readCode (hex.four c.toNat ++ rest) = some (c, rest) := by
  have plain : hex.digit (c.toNat / 4096 % 16) ≠ 'u' :=
    ne_of_hexDigit? (hex.read _ (Nat.mod_lt _ (by decide))) (by decide)
  have code := hexCode?_four hex small
  rw [HexDigits.four] at code
  simp [readCode, HexDigits.four, plain, code, charOfCode?_toNat]

theorem unescape?_escapeChar (c : Char) (rest : List Char) :
    unescape? (escapeChar hex c ++ rest) = (unescape? rest).map (c :: ·) := by
  rw [escapeChar]
  split
  · rename_i small
    rw [List.cons_append, List.cons_append, unescape?_cons, readChar, readEscape, if_pos rfl,
      readCode_four small]
    rfl
  · rename_i large
    have plain : c ≠ '\\' := by
      rintro rfl
      exact large (by decide)
    exact unescape?_cons_of_ne rest plain

theorem unescape?_escape_append (cs rest : List Char) :
    unescape? (escape hex cs ++ rest) = (unescape? rest).map (cs ++ ·) := by
  induction cs with
  | nil => simp
  | cons c cs ih =>
    rw [escape_cons, List.append_assoc, unescape?_escapeChar, ih, Option.map_map]
    rfl

theorem unescape?_escape (cs : List Char) : unescape? (escape hex cs) = some cs := by
  rw [← List.append_nil (escape hex cs), unescape?_escape_append]
  simp

/-- Escaped texts between separators that stand for themselves. -/
theorem unescape?_intercalate {sep : Char} (plain : sep ≠ '\\') (texts : List (List Char)) :
    unescape? ([sep].intercalate (texts.map (escape hex))) = some ([sep].intercalate texts) := by
  induction texts with
  | nil => exact unescape?_nil
  | cons text texts ih =>
    cases texts with
    | nil =>
      rw [List.map_singleton, List.intercalate_singleton, List.intercalate_singleton,
        unescape?_escape]
    | cons next texts =>
      rw [List.map_cons] at ih ⊢
      rw [List.map_cons, List.intercalate_cons_cons, List.append_assoc,
        unescape?_escape_append, List.singleton_append, unescape?_cons_of_ne _ plain, ih,
        List.intercalate_cons_cons]
      simp

/-! ## Guarded texts -/

/-- Texts of allowed characters, any of which may have a backslash before it. -/
inductive Guarded (allowed : Char → Prop) : List Char → Prop
  | nil : Guarded allowed []
  | plain {c : Char} {cs : List Char} (here : allowed c) (later : Guarded allowed cs) :
      Guarded allowed (c :: cs)
  | escaped {c : Char} {cs : List Char} (here : allowed c) (later : Guarded allowed cs) :
      Guarded allowed ('\\' :: c :: cs)

namespace Guarded

variable {allowed wider : Char → Prop} {cs ds : List Char}

theorem of_forall (each : ∀ c ∈ cs, allowed c) : Guarded allowed cs := by
  induction cs with
  | nil => exact .nil
  | cons c cs ih =>
    obtain ⟨here, later⟩ := List.forall_mem_cons.1 each
    exact .plain here (ih later)

theorem mono (sub : ∀ c, allowed c → wider c) (guarded : Guarded allowed cs) :
    Guarded wider cs := by
  induction guarded with
  | nil => exact .nil
  | plain here _ ih => exact .plain (sub _ here) ih
  | escaped here _ ih => exact .escaped (sub _ here) ih

theorem append (first : Guarded allowed cs) (second : Guarded allowed ds) :
    Guarded allowed (cs ++ ds) := by
  induction first with
  | nil => exact second
  | plain here _ ih => exact .plain here ih
  | escaped here _ ih => exact .escaped here ih

theorem intercalate {sep : Char} (separates : allowed sep) {pieces : List (List Char)}
    (each : ∀ piece ∈ pieces, Guarded allowed piece) :
    Guarded allowed ([sep].intercalate pieces) := by
  induction pieces with
  | nil => exact .nil
  | cons piece pieces ih =>
    obtain ⟨here, later⟩ := List.forall_mem_cons.1 each
    cases pieces with
    | nil =>
      rw [List.intercalate_singleton]
      exact here
    | cons next pieces =>
      rw [List.intercalate_cons_cons]
      exact (here.append (.plain separates .nil)).append (ih later)

theorem backslash_or_allowed (guarded : Guarded allowed cs) {c : Char} (member : c ∈ cs) :
    c = '\\' ∨ allowed c := by
  induction guarded with
  | nil => cases member
  | plain here _ ih =>
    rcases List.mem_cons.1 member with rfl | later
    · exact .inr here
    · exact ih later
  | escaped here _ ih =>
    rcases List.mem_cons.1 member with rfl | behind
    · exact .inl rfl
    · rcases List.mem_cons.1 behind with rfl | later
      · exact .inr here
      · exact ih later

/-- The last backslash has a character behind it. -/
theorem getLast?_ne (guarded : Guarded allowed cs) (refused : ¬ allowed '\\') :
    cs.getLast? ≠ some '\\' := by
  induction guarded with
  | nil => simp
  | @plain c cs here _ ih =>
    have other : c ≠ '\\' := fun same => refused (same ▸ here)
    cases cs with
    | nil => simpa using other
    | cons => rwa [List.getLast?_cons_cons]
  | @escaped c cs here _ ih =>
    have other : c ≠ '\\' := fun same => refused (same ▸ here)
    rw [List.getLast?_cons_cons]
    cases cs with
    | nil => simpa using other
    | cons => rwa [List.getLast?_cons_cons]

end Guarded

/-! ## The characters of an escaped text -/

/-- A character that an escape is made of behind its backslash, or one above U+FFFF. -/
def Inert (c : Char) : Prop := c = 'u' ∨ (hexDigit? c).isSome = true ∨ 0x10000 ≤ c.toNat

instance : DecidablePred Inert := fun _ => inferInstanceAs (Decidable (_ ∨ _ ∨ _))

theorem Inert.ne {c d : Char} (inert : Inert c) (other : ¬ Inert d) : c ≠ d :=
  fun same => other (same ▸ inert)

theorem bounds_of_hexDigit? {c : Char} (digit : (hexDigit? c).isSome = true) :
    '0'.toNat ≤ c.toNat ∧ c.toNat ≤ 'f'.toNat := by
  have numeral : '9'.toNat ≤ 'f'.toNat := by decide
  have small : '0'.toNat ≤ 'a'.toNat := by decide
  have capital : '0'.toNat ≤ 'A'.toNat ∧ 'F'.toNat ≤ 'f'.toNat := by decide
  rw [hexDigit?] at digit
  split at digit
  · rename_i range
    exact ⟨range.1, Nat.le_trans range.2 numeral⟩
  split at digit
  · rename_i range
    exact ⟨Nat.le_trans small range.1, range.2⟩
  split at digit
  · rename_i range
    exact ⟨Nat.le_trans capital.1 range.1, Nat.le_trans range.2 capital.2⟩
  · cases digit

theorem Inert.not_blank {c : Char} (inert : Inert c) : isBlank c = false := by
  rcases inert with rfl | digit | high
  · rfl
  · obtain ⟨above, below⟩ := bounds_of_hexDigit? digit
    exact not_blank_of_bounds (Nat.le_trans (by decide) above) (Nat.le_trans below (by decide))
  · simp [isBlank]
    omega

theorem guarded_escapeChar (c : Char) : Guarded Inert (escapeChar hex c) := by
  have digit : ∀ n, Inert (hex.digit (n % 16)) := fun n =>
    .inr (.inl (by rw [hex.read _ (Nat.mod_lt _ (by decide))]; rfl))
  rw [escapeChar]
  split
  · exact .escaped (.inl rfl) (.plain (digit _) (.plain (digit _) (.plain (digit _)
      (.plain (digit _) .nil))))
  · rename_i high
    exact .plain (.inr (.inr (by omega))) .nil

theorem guarded_escape (cs : List Char) : Guarded Inert (escape hex cs) := by
  induction cs with
  | nil => exact .nil
  | cons c cs ih => exact (guarded_escapeChar c).append ih

end SegmentCatalog.Text
