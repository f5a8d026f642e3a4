/-! # Backslash escapes

Values may spell a character with a backslash: a named control character, a hexadecimal
code of four digits after one or more u, an octal code, or the character itself.

* `readEscape` reads what follows a backslash, `readChar` one character or escape;
* `unescape?` reads a whole text, `none` when an escape with u is ill formed.

A lone backslash at the very end stands for itself.  Reading never gains characters:
`readChar_length` bounds what is left, which is also why `unescape?` ends.
-/

namespace SegmentCatalog.Text

/-! ## Digits -/

def hexDigit? (c : Char) : Option Nat :=
  if '0' ≤ c ∧ c ≤ '9' then some (c.toNat - '0'.toNat)
  else if 'a' ≤ c ∧ c ≤ 'f' then some (c.toNat - 'a'.toNat + 10)
  else if 'A' ≤ c ∧ c ≤ 'F' then some (c.toNat - 'A'.toNat + 10)
  else none

def octalDigit? (c : Char) : Option Nat :=
  if '0' ≤ c ∧ c ≤ '7' then some (c.toNat - '0'.toNat) else none

/-- The number that hexadecimal digits denote, most significant first. -/
def hexNumber? (digits : List Char) : Option Nat :=
  digits.foldlM (fun n c => (hexDigit? c).map (16 * n + ·)) 0

/-- The code of a character escape: four hexadecimal digits, or a plus sign and three. -/
def hexCode? : List Char → Option Nat
  | '+' :: digits => hexNumber? digits
  | digits => hexNumber? digits

/-- The character with code `n`, unless `n` is a surrogate or beyond U+10FFFF. -/
def charOfCode? (n : Nat) : Option Char :=
  if h : n.isValidChar then some (Char.ofNatAux n h) else none

/-! ## One escape -/

/-- Reads a character code from the text behind a backslash and its first u: further u's are
    skipped, then exactly four characters are taken. -/
def readCode (rest : List Char) : Option (Char × List Char) :=
  match rest.dropWhile (· == 'u') with
  | a :: b :: c :: d :: rest => do
    -- taken as a block, so that a sign or a bad digit spoils all four
    let code ← hexCode? [a, b, c, d]
    let char ← charOfCode? code
    some (char, rest)
  | _ => none

/-- Reads up to `more` further octal digits behind the value `n`. -/
def readOctal : Nat → Nat → List Char → Nat × List Char
  | 0, n, rest => (n, rest)
  | _ + 1, n, [] => (n, [])
  | more + 1, n, c :: rest =>
    match octalDigit? c with
    | some d => readOctal more (8 * n + d) rest
    | none => (n, c :: rest)

/-- The character that a single letter or sign stands for behind a backslash. -/
def named : Char → Char
  | 't' => '\t'
  | 'n' => '\n'
  | 'r' => '\r'
  | 'b' => '\x08'
  | 'f' => '\x0c'
  | c => c

/-- Reads an escape from `c`, the character behind its backslash, and the text after it.
    An octal code has at most three digits, two if the first is above 3. -/
def readEscape (c : Char) (rest : List Char) : Option (Char × List Char) :=
  if c = 'u' then readCode rest
  else match octalDigit? c with
    | some d =>
      let (n, rest) := readOctal (if d ≤ 3 then 2 else 1) d rest
      some (.ofNat n, rest)
    | none => some (named c, rest)

/-- Reads the character that `c :: rest` starts with. -/
def readChar (c : Char) (rest : List Char) : Option (Char × List Char) :=
  match c, rest with
  | '\\', e :: rest => readEscape e rest
  | c, rest => some (c, rest)

theorem readOctal_length (more n : Nat) (rest : List Char) :
    (readOctal more n rest).2.length ≤ rest.length := by
  induction more generalizing n rest with
  | zero => simp [readOctal]
  | succ more ih =>
    cases rest with
    | nil => simp [readOctal]
    | cons c rest =>
      rw [readOctal]
      split
      · exact Nat.le_succ_of_le (ih ..)
      · exact Nat.le_refl _

theorem readCode_length {rest left : List Char} {d : Char}
    (h : readCode rest = some (d, left)) : left.length < rest.length := by
  have fewer := (List.dropWhile_sublist (l := rest) (· == 'u')).length_le
  rw [readCode] at h
  split at h
  · rename_i a b c e left' shape
    rw [shape] at fewer
    simp only [Option.bind_eq_bind, Option.bind_eq_some_iff, Option.some.injEq,
      Prod.mk.injEq] at h
    obtain ⟨_, _, _, _, _, rfl⟩ := h
    simp only [List.length_cons] at fewer
    omega
  · cases h

theorem readEscape_length {c d : Char} {rest left : List Char}
    (h : readEscape c rest = some (d, left)) : left.length ≤ rest.length := by
  rw [readEscape] at h
  split at h
  · exact Nat.le_of_lt (readCode_length h)
  · split at h
    · obtain ⟨_, rfl⟩ := Prod.mk.inj (Option.some.inj h)
      exact readOctal_length ..
    · obtain ⟨_, rfl⟩ := Prod.mk.inj (Option.some.inj h)
      exact Nat.le_refl _

theorem readChar_length {c d : Char} {rest left : List Char}
    (h : readChar c rest = some (d, left)) : left.length ≤ rest.length := by
  rw [readChar.eq_def] at h
  split at h
  · exact Nat.le_succ_of_le (readEscape_length h)
  · obtain ⟨_, rfl⟩ := Prod.mk.inj (Option.some.inj h)
    exact Nat.le_refl _

/-! ## A whole text -/

/-- The text that `cs` spells, `none` if one of its escapes with u is ill formed. -/
def unescape? : List Char → Option (List Char)
  | [] => some []
  | c :: rest =>
    match _found : readChar c rest with
    | none => none
    | some (d, left) => (unescape? left).map (d :: ·)
termination_by cs => cs.length
decreasing_by exact Nat.lt_succ_of_le (readChar_length _found)

@[simp] theorem unescape?_nil : unescape? [] = some [] := by
  rw [unescape?]

theorem unescape?_cons (c : Char) (rest : List Char) :
    unescape? (c :: rest) =
      (readChar c rest).bind fun (d, left) => (unescape? left).map (d :: ·) := by
  rw [unescape?]
  split <;> simp [*]

/-- A character other than the backslash stands for itself. -/
theorem unescape?_cons_of_ne {c : Char} (rest : List Char) (h : c ≠ '\\') :
    unescape? (c :: rest) = (unescape? rest).map (c :: ·) := by
  rw [unescape?_cons]
  simp [readChar, h]

@[simp] theorem unescape?_backslash : unescape? ['\\'] = some ['\\'] := by
  simp [unescape?_cons, readChar]

end SegmentCatalog.Text
