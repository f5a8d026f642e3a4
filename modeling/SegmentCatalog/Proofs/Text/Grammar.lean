import Mathlib.Data.List.Forall2
import Mathlib.Data.List.TakeWhile
import SegmentCatalog.Literal
import SegmentCatalog.Proofs.Text.Escaped

/-! # The grammar of backslash escapes

A text with escapes is a row of tokens, each of which stands for one character.  `Token` says what
the tokens are, without a word on how they are found, and `Spelt` puts them in a row.

The rule for a code behind backslash and u is a parameter: as it is laid down, the code has four
hexadecimal digits (`FourDigits`); as it is read, a plus sign may stand in the place of the first
(`FourCharacters`).  Reading accepts the texts of the second grammar and no others
(`unescape?_eq_some_iff`), and the two differ only in texts that have a plus sign behind a u
(`spelt_iff_of_unsigned`).  `Literal.unescaped_readBy` puts this together.
-/

namespace SegmentCatalog

namespace Text

/-! ## Tokens -/

/-- The digit of value `n` in base sixteen, small or capital. -/
def HexDigit (c : Char) (n : Nat) : Prop :=
  n < 16 ∧ (c = Nat.digitChar n ∨ c = (Nat.digitChar n).toUpper)

/-- The digits of `n` in base sixteen, perhaps with zeros in front. -/
def Hexadecimal (cs : List Char) (n : Nat) : Prop :=
  ∃ digits, List.Forall₂ HexDigit cs digits ∧ n = digits.foldl (16 * · + ·) 0

def FourDigits (group : List Char) (n : Nat) : Prop := group.length = 4 ∧ Hexadecimal group n

/-- Four digits, or three behind a plus sign. -/
def FourCharacters (group : List Char) (n : Nat) : Prop :=
  FourDigits group n ∨ ∃ digits, group = '+' :: digits ∧ digits.length = 3 ∧ Hexadecimal digits n

def OctalDigit (c : Char) : Prop := ∃ n < 8, c = Nat.digitChar n

/-- An octal code has at most three digits, and at most two if the first is above 3. -/
def octalLimit (first : Char) : Nat := if first ∈ ['0', '1', '2', '3'] then 3 else 2

/-- What the signs with a name of their own stand for. -/
def namedEscapes : List (Char × Char) :=
  [('t', '\t'), ('n', '\n'), ('r', '\r'), ('b', '\x08'), ('f', '\x0c'), ('\\', '\\'),
    ('\'', '\''), ('\x22', '\x22')]

/-- `Token group token rest c`: in front of `rest`, the token stands for `c`.  The rest matters
    only where a token ends because of what follows. -/
inductive Token (group : List Char → Nat → Prop) : List Char → List Char → Char → Prop
  | plain {c : Char} {rest : List Char} (other : c ≠ '\\') : Token group [c] rest c
  | dangling : Token group ['\\'] [] '\\'
  | named {sign c : Char} {rest : List Char} (listed : (sign, c) ∈ namedEscapes) :
      Token group ['\\', sign] rest c
  | code {more : Nat} {digits rest : List Char} {c : Char} (denotes : group digits c.toNat) :
      Token group ('\\' :: 'u' :: (List.replicate more 'u' ++ digits)) rest c
  | octal {first : Char} {more rest : List Char} (octal : ∀ d ∈ first :: more, OctalDigit d)
      (bounded : more.length < octalLimit first)
      (greedy : more.length + 1 = octalLimit first ∨ ∀ d ∈ rest.head?, ¬ OctalDigit d) :
      Token group ('\\' :: first :: more) rest (.ofNat (Nat.ofDigitChars 8 (first :: more) 0))
  | other {c : Char} {rest : List Char} (noCode : c ≠ 'u') (noOctal : ¬ OctalDigit c)
      (unnamed : c ∉ namedEscapes.map Prod.fst) : Token group ['\\', c] rest c

/-- The text is a row of tokens that stand for the characters. -/
inductive Spelt (group : List Char → Nat → Prop) : List Char → List Char → Prop
  | nil : Spelt group [] []
  | cons {token rest cs : List Char} {c : Char} (first : Token group token rest c)
      (later : Spelt group rest cs) : Spelt group (token ++ rest) (c :: cs)

variable {c d : Char} {n : Nat} {cs rest left : List Char}

/-! ## Digits -/

theorem hexDigit?_eq_some_iff : hexDigit? c = some n ↔ HexDigit c n := by
  constructor
  · intro read
    obtain ⟨_, below⟩ := bounds_of_hexDigit? (Option.isSome_of_mem read)
    have each : ∀ code < 128, ∀ n ∈ hexDigit? (Char.ofNat code), HexDigit (Char.ofNat code) n := by
      unfold HexDigit
      decide
    have code := each c.toNat (Nat.lt_of_le_of_lt below (by decide))
    rw [Char.ofNat_toNat] at code
    exact code n read
  · rintro ⟨small, rfl | rfl⟩
    · exact hexDigit?_digitChar small
    · revert n
      decide

theorem hexNumber?_eq_some_iff : hexNumber? cs = some n ↔ Hexadecimal cs n := by
  have behind : ∀ start, cs.foldlM (fun m c => (hexDigit? c).map (16 * m + ·)) start = some n ↔
      ∃ digits, List.Forall₂ HexDigit cs digits ∧ n = digits.foldl (16 * · + ·) start := by
    induction cs with
    | nil =>
      intro start
      simp [eq_comm]
    | cons c cs ih =>
      intro start
      simp only [List.foldlM_cons, Option.bind_eq_bind, Option.bind_eq_some_iff,
        Option.map_eq_some_iff, hexDigit?_eq_some_iff, List.forall₂_cons_left_iff]
      constructor
      · rintro ⟨_, ⟨digit, here, rfl⟩, later⟩
        obtain ⟨digits, each, value⟩ := (ih _).1 later
        exact ⟨digit :: digits, ⟨digit, digits, here, each, rfl⟩, value⟩
      · rintro ⟨_, ⟨digit, digits, here, each, rfl⟩, value⟩
        exact ⟨_, ⟨digit, here, rfl⟩, (ih _).2 ⟨digits, each, value⟩⟩
  exact behind 0

theorem FourDigits.of_read (four : cs.length = 4) (read : hexNumber? cs = some n) :
    FourDigits cs n := ⟨four, hexNumber?_eq_some_iff.1 read⟩

theorem octalDigit?_eq_some_iff : octalDigit? c = some n ↔ n < 8 ∧ c = Nat.digitChar n := by
  constructor
  · intro read
    have each : ∀ code < 128, ∀ n ∈ octalDigit? (Char.ofNat code),
        n < 8 ∧ Char.ofNat code = Nat.digitChar n := by
      decide
    have below : c.toNat < 128 := by
      rw [octalDigit?] at read
      split at read
      · rename_i range
        exact Nat.lt_of_le_of_lt range.2 (by decide)
      · cases read
    have code := each c.toNat below
    rw [Char.ofNat_toNat] at code
    exact code n read
  · rintro ⟨small, rfl⟩
    revert n
    decide

/-! ## Codes of four characters -/

theorem Hexadecimal.ne_of_head {other : Char} (noDigit : hexDigit? other = none)
    (spelt : Hexadecimal (c :: cs) n) : c ≠ other := by
  obtain ⟨_, each, _⟩ := spelt
  cases each with
  | cons here _ => exact ne_of_hexDigit? (hexDigit?_eq_some_iff.2 here) noDigit

theorem not_hexadecimal_plus : ¬ Hexadecimal ('+' :: cs) n := by
  intro spelt
  have noDigit : hexDigit? '+' = none := by decide
  exact spelt.ne_of_head noDigit rfl

theorem hexCode?_eq_some_iff (four : cs.length = 4) :
    hexCode? cs = some n ↔ FourCharacters cs n := by
  unfold hexCode?
  split
  · rename_i digits
    have three : digits.length = 3 := by simpa using four
    rw [hexNumber?_eq_some_iff]
    constructor
    · intro spelt
      exact .inr ⟨digits, rfl, three, spelt⟩
    · rintro (⟨_, spelt⟩ | ⟨_, same, _, spelt⟩)
      · exact absurd spelt not_hexadecimal_plus
      · cases same
        exact spelt
  · rename_i unsigned
    rw [hexNumber?_eq_some_iff]
    constructor
    · intro spelt
      exact .inl ⟨four, spelt⟩
    · rintro (⟨_, spelt⟩ | ⟨digits, same, _⟩)
      · exact spelt
      · exact absurd same (unsigned digits)

theorem charOfCode?_eq_some_iff : charOfCode? n = some c ↔ c.toNat = n := by
  constructor
  · intro read
    rw [charOfCode?] at read
    by_cases valid : n.isValidChar
    · rw [dif_pos valid] at read
      cases read
      rfl
    · rw [dif_neg valid] at read
      cases read
  · rintro rfl
    exact charOfCode?_toNat c

theorem FourCharacters.shape (spelt : FourCharacters cs n) :
    ∃ a b c d, cs = [a, b, c, d] ∧ a ≠ 'u' := by
  rcases spelt with ⟨four, spelt⟩ | ⟨digits, rfl, three, _⟩
  · obtain ⟨a, b, c, d, rfl⟩ := List.length_eq_four.1 four
    exact ⟨a, b, c, d, rfl, spelt.ne_of_head (by decide)⟩
  · obtain ⟨b, c, d, rfl⟩ := List.length_eq_three.1 three
    exact ⟨'+', b, c, d, rfl, by decide⟩

/-- All of the u's are skipped, and the four characters behind them taken. -/
theorem readCode_eq_some_iff : readCode rest = some (c, left) ↔
    ∃ more digits, rest = List.replicate more 'u' ++ digits ++ left ∧
      FourCharacters digits c.toNat := by
  constructor
  · intro read
    have skipped : rest.takeWhile (· == 'u') =
        List.replicate (rest.takeWhile (· == 'u')).length 'u' := by
      refine List.eq_replicate_of_mem fun d member => ?_
      simpa using List.mem_takeWhile_imp member
    have whole := List.takeWhile_append_dropWhile (p := (· == 'u')) (l := rest)
    rw [readCode] at read
    split at read
    · rename_i a b e f behind shape
      simp only [Option.bind_eq_bind, Option.bind_eq_some_iff, Option.some.injEq, Prod.mk.injEq,
        charOfCode?_eq_some_iff] at read
      obtain ⟨_, code, _, rfl, rfl, rfl⟩ := read
      rw [shape] at whole
      have split : rest = List.replicate (rest.takeWhile (· == 'u')).length 'u' ++ [a, b, e, f] ++
          behind := by
        rw [← skipped, List.append_assoc]
        exact whole.symm
      exact ⟨_, _, split, (hexCode?_eq_some_iff rfl).1 code⟩
    · cases read
  · rintro ⟨more, digits, rfl, spelt⟩
    obtain ⟨a, b, e, f, rfl, apart⟩ := spelt.shape
    have code := (hexCode?_eq_some_iff rfl).2 spelt
    have behind : (List.replicate more 'u' ++ [a, b, e, f] ++ left).dropWhile (· == 'u') =
        a :: b :: e :: f :: left := by
      rw [List.append_assoc, List.dropWhile_append_of_pos (by simp)]
      simp [apart]
    rw [readCode, behind]
    simp only [code, charOfCode?_toNat, Option.bind_eq_bind, Option.bind_some]

/-! ## Octal codes -/

theorem octalDigit_iff : OctalDigit c ↔ ∃ k, octalDigit? c = some k := by
  simp only [OctalDigit, octalDigit?_eq_some_iff]

theorem octalDigit?_of_not_octal (noOctal : ¬ OctalDigit c) : octalDigit? c = none := by
  rw [Option.eq_none_iff_forall_ne_some]
  intro k digit
  exact noOctal (octalDigit_iff.2 ⟨k, digit⟩)

theorem value_of_octalDigit? {k : Nat} (digit : octalDigit? c = some k) :
    c.toNat - '0'.toNat = k := by
  rw [octalDigit?] at digit
  split at digit
  · exact Option.some.inj digit
  · cases digit

/-- Digits are taken as long as there are any, up to the bound. -/
theorem readOctal_of_digits {more : Nat} {digits : List Char}
    (octal : ∀ d ∈ digits, OctalDigit d) (bounded : digits.length ≤ more)
    (greedy : digits.length = more ∨ ∀ d ∈ rest.head?, ¬ OctalDigit d) :
    readOctal more n (digits ++ rest) = (Nat.ofDigitChars 8 digits n, rest) := by
  induction digits generalizing more n with
  | nil =>
    cases more with
    | zero => rfl
    | succ more =>
      cases rest with
      | nil => rfl
      | cons c rest =>
        rcases greedy with full | noDigit
        · cases full
        · simp [readOctal, octalDigit?_of_not_octal (noDigit c rfl)]
  | cons d digits ih =>
    obtain ⟨here, later⟩ := List.forall_mem_cons.1 octal
    obtain ⟨k, read⟩ := octalDigit_iff.1 here
    cases more with
    | zero => cases bounded
    | succ more =>
      simp only [List.length_cons, Nat.add_le_add_iff_right, Nat.add_right_cancel_iff]
        at bounded greedy
      simp only [List.cons_append, readOctal, read, ih later bounded greedy,
        Nat.ofDigitChars_cons, value_of_octalDigit? read]

theorem exists_octal_digits (more : Nat) (cs : List Char) :
    ∃ digits rest, cs = digits ++ rest ∧ (∀ d ∈ digits, OctalDigit d) ∧ digits.length ≤ more ∧
      (digits.length = more ∨ ∀ d ∈ rest.head?, ¬ OctalDigit d) := by
  induction more generalizing cs with
  | zero => exact ⟨[], cs, rfl, by simp, Nat.le_refl _, .inl rfl⟩
  | succ more ih =>
    cases cs with
    | nil => exact ⟨[], [], rfl, by simp, Nat.zero_le _, .inr (by simp)⟩
    | cons c cs =>
      by_cases octal : OctalDigit c
      · obtain ⟨digits, rest, rfl, each, bounded, greedy⟩ := ih cs
        refine ⟨c :: digits, rest, rfl, List.forall_mem_cons.2 ⟨octal, each⟩, ?_, ?_⟩
        · simpa using bounded
        · simpa using greedy
      · refine ⟨[], c :: cs, rfl, by simp, Nat.zero_le _, .inr ?_⟩
        simpa using octal

theorem octalLimit_eq {k : Nat} (digit : octalDigit? c = some k) :
    octalLimit c = (if k ≤ 3 then 2 else 1) + 1 := by
  obtain ⟨small, rfl⟩ := octalDigit?_eq_some_iff.1 digit
  revert k
  decide

/-! ## Signs with a name -/

theorem named_of_listed {sign : Char} (listed : (sign, c) ∈ namedEscapes) : named sign = c := by
  have all : ∀ pair ∈ namedEscapes, named pair.1 = pair.2 := by decide
  exact all _ listed

theorem named_of_unlisted (unlisted : c ∉ namedEscapes.map Prod.fst) : named c = c := by
  unfold named
  split <;> first | rfl | exact absurd (by decide) unlisted

/-! ## Reading tokens -/

theorem token_of_readEscape {e : Char} (read : readEscape e rest = some (d, left)) :
    ∃ token, '\\' :: e :: rest = token ++ left ∧ Token FourCharacters token left d := by
  rw [readEscape] at read
  split at read
  · rename_i isCode
    obtain ⟨more, digits, rfl, denotes⟩ := readCode_eq_some_iff.1 read
    exact ⟨_, by rw [isCode]; rfl, .code denotes⟩
  rename_i noCode
  split at read
  · rename_i k digit
    obtain ⟨digits, behind, rfl, octal, bounded, greedy⟩ :=
      exists_octal_digits (if k ≤ 3 then 2 else 1) rest
    rw [readOctal_of_digits octal bounded greedy] at read
    cases read
    have value : Nat.ofDigitChars 8 (e :: digits) 0 = Nat.ofDigitChars 8 digits k := by
      rw [Nat.ofDigitChars_cons, value_of_octalDigit? digit, Nat.mul_zero, Nat.zero_add]
    have limit := octalLimit_eq digit
    refine ⟨'\\' :: e :: digits, rfl, ?_⟩
    rw [← value]
    refine .octal ?_ (by omega) ?_
    · exact List.forall_mem_cons.2 ⟨octalDigit_iff.2 ⟨k, digit⟩, octal⟩
    · rwa [limit, Nat.add_right_cancel_iff]
  · rename_i noOctal
    cases read
    refine ⟨['\\', e], rfl, ?_⟩
    by_cases listed : e ∈ namedEscapes.map Prod.fst
    · obtain ⟨⟨sign, c⟩, inside, rfl⟩ := List.mem_map.1 listed
      rw [named_of_listed inside]
      exact .named inside
    · rw [named_of_unlisted listed]
      refine .other noCode (fun octal => ?_) listed
      obtain ⟨k, digit⟩ := octalDigit_iff.1 octal
      rw [noOctal] at digit
      cases digit

theorem token_of_readChar (read : readChar c rest = some (d, left)) :
    ∃ token, c :: rest = token ++ left ∧ Token FourCharacters token left d := by
  rw [readChar.eq_def] at read
  split at read
  · exact token_of_readEscape read
  · rename_i alone
    cases read
    refine ⟨[c], rfl, ?_⟩
    by_cases backslash : c = '\\'
    · subst backslash
      cases rest with
      | nil => exact .dangling
      | cons e rest => exact absurd rfl (alone e rest rfl)
    · exact .plain backslash

/-- A token is read as the character that it stands for, and nothing behind it is touched. -/
theorem readChar_of_token {token : List Char} (first : Token FourCharacters token rest c) :
    ∃ d tail, token ++ rest = d :: tail ∧ readChar d tail = some (c, rest) := by
  cases first with
  | plain other => exact ⟨c, rest, rfl, by simp [readChar, other]⟩
  | dangling => exact ⟨'\\', [], rfl, rfl⟩
  | @named sign _ _ listed =>
    refine ⟨'\\', sign :: rest, rfl, ?_⟩
    have plain : ∀ pair ∈ namedEscapes, pair.1 ≠ 'u' ∧ octalDigit? pair.1 = none := by decide
    obtain ⟨noCode, noOctal⟩ := plain _ listed
    simp only at noCode noOctal
    simp only [readChar, readEscape, noCode, noOctal, named_of_listed listed, if_false]
  | @code more digits _ _ denotes =>
    have read := readCode_eq_some_iff.2 ⟨more, digits, (rfl : _ ++ rest = _), denotes⟩
    refine ⟨'\\', 'u' :: (List.replicate more 'u' ++ digits ++ rest), rfl, ?_⟩
    simp only [readChar, readEscape, if_true, read]
  | @octal first more _ octal bounded greedy =>
    obtain ⟨here, later⟩ := List.forall_mem_cons.1 octal
    obtain ⟨k, digit⟩ := octalDigit_iff.1 here
    have noCode : first ≠ 'u' := by
      rintro rfl
      cases digit
    have limit := octalLimit_eq digit
    rw [limit, Nat.add_right_cancel_iff] at greedy
    have read := readOctal_of_digits (n := k) later (by omega) greedy
    refine ⟨'\\', first :: (more ++ rest), rfl, ?_⟩
    simp only [readChar, readEscape, noCode, digit, read, Nat.ofDigitChars_cons,
      value_of_octalDigit? digit, Nat.mul_zero, Nat.zero_add, if_false]
  | other noCode noOctal unnamed =>
    refine ⟨'\\', c :: rest, rfl, ?_⟩
    simp only [readChar, readEscape, noCode, octalDigit?_of_not_octal noOctal,
      named_of_unlisted unnamed, if_false]

/-- Reading accepts exactly the texts of the grammar, and gives the characters that their tokens
    stand for. -/
theorem unescape?_eq_some_iff {out : List Char} :
    unescape? cs = some out ↔ Spelt FourCharacters cs out := by
  constructor
  · intro read
    fun_induction unescape? cs generalizing out with
    | case1 =>
      cases read
      exact .nil
    | case2 => cases read
    | case3 c rest d left found ih =>
      obtain ⟨out, later, rfl⟩ := Option.map_eq_some_iff.1 read
      obtain ⟨token, whole, first⟩ := token_of_readChar found
      rw [whole]
      exact .cons first (ih later)
  · intro spelt
    induction spelt with
    | nil => exact unescape?_nil
    | cons first _ ih =>
      obtain ⟨d, tail, whole, read⟩ := readChar_of_token first
      rw [whole, unescape?_cons, read]
      simp only [Option.bind_some, ih, Option.map_some]

/-! ## Signs in codes -/

variable {group wider : List Char → Nat → Prop} {out : List Char}

theorem Spelt.mono (sub : ∀ digits n, group digits n → wider digits n)
    (spelt : Spelt group cs out) : Spelt wider cs out := by
  induction spelt with
  | nil => exact .nil
  | cons first _ ih =>
    refine .cons ?_ ih
    cases first with
    | plain other => exact .plain other
    | dangling => exact .dangling
    | named listed => exact .named listed
    | code denotes => exact .code (sub _ _ denotes)
    | octal octal bounded greedy => exact .octal octal bounded greedy
    | other noCode noOctal unnamed => exact .other noCode noOctal unnamed

/-- A code with a sign has the sign behind a u. -/
theorem signed_part (more : Nat) (digits : List Char) :
    ['u', '+'] <:+: '\\' :: 'u' :: (List.replicate more 'u' ++ '+' :: digits) := by
  refine ⟨'\\' :: List.replicate more 'u', digits, ?_⟩
  have slide : List.replicate more 'u' ++ ['u'] = 'u' :: List.replicate more 'u' := by
    rw [← List.replicate_succ', List.replicate_succ]
  calc '\\' :: List.replicate more 'u' ++ ['u', '+'] ++ digits
    _ = '\\' :: (List.replicate more 'u' ++ ['u']) ++ '+' :: digits := by simp
    _ = '\\' :: 'u' :: (List.replicate more 'u' ++ '+' :: digits) := by rw [slide]; rfl

theorem Token.unsigned {token : List Char} (first : Token FourCharacters token rest c)
    (unsigned : ¬ ['u', '+'] <:+: token) : Token FourDigits token rest c := by
  cases first with
  | plain other => exact .plain other
  | dangling => exact .dangling
  | named listed => exact .named listed
  | @code more _ _ _ denotes =>
    rcases denotes with denotes | ⟨digits, rfl, _⟩
    · exact .code denotes
    · exact absurd (signed_part more digits) unsigned
  | octal octal bounded greedy => exact .octal octal bounded greedy
  | other noCode noOctal unnamed => exact .other noCode noOctal unnamed

/-- Where no u has a plus sign behind it, the two rules for codes come to the same. -/
theorem spelt_iff_of_unsigned (unsigned : ¬ ['u', '+'] <:+: cs) :
    Spelt FourCharacters cs out ↔ Spelt FourDigits cs out := by
  refine ⟨fun spelt => ?_, Spelt.mono fun _ _ => .inl⟩
  induction spelt with
  | nil => exact .nil
  | cons first _ ih =>
    refine .cons (first.unsigned fun inside => ?_) (ih fun inside => ?_)
    · exact unsigned (inside.trans (List.prefix_append ..).isInfix)
    · exact unsigned (inside.trans (List.suffix_append ..).isInfix)

/-- By the rule that asks for four digits, a sign has no place in a code. -/
theorem not_spelt_signed (tail : List Char) :
    ¬ Spelt FourDigits ('\\' :: 'u' :: '+' :: tail) out := by
  intro spelt
  generalize whole : '\\' :: 'u' :: '+' :: tail = raw at spelt
  cases spelt with
  | nil => cases whole
  | cons first _ =>
    cases first with
    | plain other => exact other (List.cons.inj whole).1.symm
    | dangling => cases whole
    | named listed =>
      obtain ⟨rfl, _⟩ := List.cons.inj (List.cons.inj whole).2
      have name : 'u' ∈ namedEscapes.map Prod.fst := List.mem_map_of_mem listed
      exact absurd name (by decide)
    | @code more digits _ _ denotes =>
      have behind := (List.cons.inj (List.cons.inj whole).2).2
      cases more with
      | zero =>
        obtain ⟨a, b, e, f, rfl, _⟩ := FourCharacters.shape (.inl denotes)
        obtain ⟨rfl, _⟩ := List.cons.inj behind
        exact absurd denotes.2 not_hexadecimal_plus
      | succ more => cases (List.cons.inj behind).1
    | octal octal =>
      obtain ⟨rfl, _⟩ := List.cons.inj (List.cons.inj whole).2
      obtain ⟨k, digit⟩ := octalDigit_iff.1 (octal 'u' (List.mem_cons_self ..))
      cases digit
    | other noCode => exact noCode (List.cons.inj (List.cons.inj whole).2).1.symm

end Text

namespace Literal

open Text (Spelt FourCharacters FourDigits)

/-- A text is read by the grammar with the given rule for codes: as the characters that its tokens
    stand for, or not at all if it is not a row of tokens. -/
structure ReadBy (group : List Char → Nat → Prop) (raw : String) : Prop where
  spells : ∀ text, unescaped raw = .ok text ↔ Spelt group raw.toList text.toList
  refuses : (∀ text : String, ¬ Spelt group raw.toList text.toList) →
    unescaped raw = .error (.invalidEscape raw)

variable {group : List Char → Nat → Prop} {raw : String}

/-- What is refused is refused as a whole, so that a rule is right if it tells what is read. -/
theorem ReadBy.of_spells
    (spells : ∀ text, unescaped raw = .ok text ↔ Spelt group raw.toList text.toList) :
    ReadBy group raw := by
  refine ⟨spells, fun none => ?_⟩
  cases outcome : unescaped raw with
  | ok text => exact absurd ((spells text).1 outcome) (none text)
  | error e =>
    rw [unescaped] at outcome
    split at outcome
    · cases outcome
    · exact outcome.symm

theorem unescaped_eq_ok_iff {text : String} :
    unescaped raw = .ok text ↔ Spelt FourCharacters raw.toList text.toList := by
  rw [← Text.unescape?_eq_some_iff, unescaped]
  cases Text.unescape? raw.toList with
  | none => exact ⟨nofun, nofun⟩
  | some cs =>
    simp only [Except.ok.injEq, Option.some.injEq]
    constructor
    · rintro rfl
      exact String.toList_ofList.symm
    · rintro rfl
      exact String.ofList_toList

/-- Every text is read by the grammar in which a code has four hexadecimal digits, or three behind
    a plus sign; where no plus sign stands behind a u, by the one in which it has four digits. -/
theorem unescaped_readBy (raw : String) :
    ReadBy FourCharacters raw ∧ (¬ ['u', '+'] <:+: raw.toList → ReadBy FourDigits raw) := by
  refine ⟨.of_spells fun _ => unescaped_eq_ok_iff, fun unsigned => .of_spells fun text => ?_⟩
  rw [unescaped_eq_ok_iff, Text.spelt_iff_of_unsigned unsigned]

/-- A code with two u's, and behind it an octal one that ends at a sign that is no octal digit. -/
theorem unescaped_readBy_codes :
    ¬ ['u', '+'] <:+: "\\uu0041\\1018".toList ∧
    unescaped "\\uu0041\\1018" = .ok "AA8" ∧
    Spelt FourDigits "\\uu0041\\1018".toList "AA8".toList := by
  have unsigned : ¬ ['u', '+'] <:+: "\\uu0041\\1018".toList := by decide +kernel
  have read : unescaped "\\uu0041\\1018" = .ok "AA8" := by decide +kernel
  exact ⟨unsigned, read, (((unescaped_readBy _).2 unsigned).spells "AA8").1 read⟩

/-- The rule that asks for four digits refuses a sign, reading accepts it. -/
theorem not_readBy_fourDigits :
    unescaped "\\u+041" = .ok "A" ∧
    (∀ text : String, ¬ Spelt FourDigits "\\u+041".toList text.toList) ∧
    ¬ ReadBy FourDigits "\\u+041" := by
  have read : unescaped "\\u+041" = .ok "A" := by decide +kernel
  have unspelt : ∀ text : String, ¬ Spelt FourDigits "\\u+041".toList text.toList :=
    fun _ => Text.not_spelt_signed ['0', '4', '1']
  refine ⟨read, unspelt, fun byFour => ?_⟩
  exact unspelt "A" ((byFour.spells "A").1 read)

end Literal

end SegmentCatalog
