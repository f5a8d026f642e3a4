import SegmentCatalog.Proofs.Text.Letters

/-! # Texts in capitals

`upper` writes a text in capitals, and a word in capitals may come from many texts.  Letter by
letter such a text has the letter of the word in either case, or one of ten characters beyond a to z
that are written in capitals of ASCII, some of them in several (`folded`).  `ReadsAs` says so
without writing anything in capitals, and `upper_eq_iff` that these are the texts that come out as
the word.

In a text without the ten characters letters are just compared without case
(`readsAs_iff_sameLetters`).
-/

namespace SegmentCatalog.Text

/-- The characters beyond a to z whose capital form lies in ASCII, each with this form. -/
def folded : List (Char × List Char) :=
  [('\u00df', ['S', 'S']),      -- sharp s
    ('\u0131', ['I']),          -- dotless i
    ('\u017f', ['S']),          -- long s
    ('\ufb00', ['F', 'F']),     -- ligatures
    ('\ufb01', ['F', 'I']),
    ('\ufb02', ['F', 'L']),
    ('\ufb03', ['F', 'F', 'I']),
    ('\ufb04', ['F', 'F', 'L']),
    ('\ufb05', ['S', 'T']),
    ('\ufb06', ['S', 'T'])]

/-- A character that is none of those whose capital form is looked up. -/
def Unfolded (c : Char) : Prop := ∀ letters, (c, letters) ∉ folded

/-- The text has each letter of the word in one case or the other, or a character that is written in
    capitals as one or more letters of the word. -/
inductive ReadsAs : List Char → List Char → Prop
  | nil : ReadsAs [] []
  | letter {c d : Char} {cs word : List Char} :
      SameLetter c d → ReadsAs cs word → ReadsAs (c :: cs) (d :: word)
  | folded {c : Char} {letters cs word : List Char} :
      (c, letters) ∈ folded → ReadsAs cs word → ReadsAs (c :: cs) (letters ++ word)

variable {c d : Char} {letters cs word : List Char}

/-! ## Single characters -/

/-- The capitals have codes 32 below those of the small letters. -/
theorem toNat_toUpper (c : Char) :
    c.toUpper.toNat = if 97 ≤ c.toNat ∧ c.toNat ≤ 122 then c.toNat - 32 else c.toNat := by
  delta Char.toUpper
  split
  · rename_i small
    have bounds : 97 ≤ c.toNat ∧ c.toNat ≤ 122 := small
    rw [if_pos bounds]
    show (c.val + 4294967264).toNat = c.val.toNat - 32
    have small : 97 ≤ c.val.toNat ∧ c.val.toNat ≤ 122 := bounds
    simp only [UInt32.toNat_add, UInt32.reduceToNat]
    omega
  · rename_i other
    have outside : ¬ (97 ≤ c.toNat ∧ c.toNat ≤ 122) := other
    rw [if_neg outside]

theorem sameLetter_toUpper (c : Char) : SameLetter c c.toUpper := by
  rw [SameLetter, isUpper_iff, isUpper_iff, ← Char.toNat_inj, toNat_toUpper]
  split_ifs <;> omega

@[simp] theorem toUpper_toUpper (c : Char) : c.toUpper.toUpper = c.toUpper := by
  rw [← Char.toNat_inj, toNat_toUpper, toNat_toUpper]
  split_ifs <;> omega

/-- A capital is that of every letter that it is the same as. -/
theorem toUpper_eq_of_sameLetter (capital : d.toUpper = d) (same : SameLetter c d) :
    c.toUpper = d := by
  rw [SameLetter, isUpper_iff, isUpper_iff, ← Char.toNat_inj] at same
  rw [← Char.toNat_inj, toNat_toUpper] at capital ⊢
  split_ifs at capital ⊢ <;> omega

theorem capitals_of_folded (listed : (c, letters) ∈ folded) : capitals c = letters := by
  have all : ∀ pair ∈ folded, capitals pair.1 = pair.2 := by decide
  exact all _ listed

theorem capitals_cases (c : Char) : (c, capitals c) ∈ folded ∨ capitals c = [c.toUpper] := by
  unfold capitals
  split
  case h_11 => exact .inr rfl
  all_goals
    rename_i code
    rw [← Char.ofNat_toNat c, code]
    decide

theorem ne_self_of_folded (listed : (c, letters) ∈ folded) : letters ≠ [c] := by
  have all : ∀ pair ∈ folded, pair.2 ≠ [pair.1] := by decide
  exact all _ listed

/-- The characters that are looked up are letters of one case only. -/
theorem eq_of_folded_of_sameLetter (listed : (c, letters) ∈ folded) (same : SameLetter c d) :
    c = d := by
  have all : ∀ pair ∈ folded, 127 < pair.1.toNat := by decide
  have beyond : 127 < c.toNat := all _ listed
  rw [SameLetter, isUpper_iff, isUpper_iff] at same
  obtain same | capital | small := same
  · exact same
  · omega
  · omega

/-! ## Words in capitals -/

/-- No letter of the word changes when it is written in capitals. -/
def InCapitals (word : List Char) : Prop := ∀ d ∈ word, capitals d = [d]

theorem toUpper_of_inCapitals (capital : capitals d = [d]) : d.toUpper = d := by
  cases capitals_cases d with
  | inl listed => exact absurd capital (ne_self_of_folded listed)
  | inr own =>
    rw [own, List.cons.injEq] at capital
    exact capital.1

theorem capitals_toUpper (plain : capitals c = [c.toUpper]) :
    capitals c.toUpper = [c.toUpper] := by
  cases capitals_cases c.toUpper with
  | inl listed =>
    have same : SameLetter c.toUpper c := by
      rw [← toLower_eq_toLower_iff, toLower_eq_toLower_iff.2 (sameLetter_toUpper c)]
    have itself := eq_of_folded_of_sameLetter listed same
    rw [itself] at listed plain
    exact absurd plain (ne_self_of_folded listed)
  | inr own => rw [own, toUpper_toUpper]

theorem inCapitals_upper (cs : List Char) : InCapitals (upper cs) := by
  intro d member
  obtain ⟨c, _, inside⟩ := List.mem_flatMap.1 member
  cases capitals_cases c with
  | inl listed =>
    have all : ∀ pair ∈ folded, pair.2.map capitals = pair.2.map ([·]) := by decide
    exact List.map_inj_left.1 (all _ listed) d inside
  | inr plain =>
    rw [plain, List.mem_singleton] at inside
    rw [inside]
    exact capitals_toUpper plain

/-! ## Reading -/

theorem readsAs_upper (cs : List Char) : ReadsAs cs (upper cs) := by
  induction cs with
  | nil => exact .nil
  | cons c cs ih =>
    rw [upper_cons]
    cases capitals_cases c with
    | inl listed => exact .folded listed ih
    | inr plain =>
      rw [plain]
      exact .letter (sameLetter_toUpper c) ih

theorem capitals_of_sameLetter (capital : capitals d = [d]) (same : SameLetter c d) :
    capitals c = [d] := by
  cases capitals_cases c with
  | inl listed => rw [eq_of_folded_of_sameLetter listed same, capital]
  | inr plain => rw [plain, toUpper_eq_of_sameLetter (toUpper_of_inCapitals capital) same]

/-- The texts that a word in capitals comes from. -/
theorem upper_eq_iff (inCapitals : InCapitals word) : upper cs = word ↔ ReadsAs cs word := by
  constructor
  · intro same
    rw [← same]
    exact readsAs_upper cs
  · intro reads
    induction reads with
    | nil => rfl
    | letter same _ ih =>
      obtain ⟨capital, others⟩ := List.forall_mem_cons.1 inCapitals
      rw [upper_cons, capitals_of_sameLetter capital same, ih others]
      rfl
    | folded listed _ ih =>
      rw [upper_cons, capitals_of_folded listed, ih (List.forall_mem_append.1 inCapitals).2]

theorem readsAs_iff_sameLetters (plain : ∀ c ∈ cs, Unfolded c) :
    ReadsAs cs word ↔ SameLetters cs word := by
  constructor
  · intro reads
    induction reads with
    | nil => exact .nil
    | letter same _ ih => exact .cons same (ih (List.forall_mem_cons.1 plain).2)
    | folded listed _ _ => exact absurd listed ((List.forall_mem_cons.1 plain).1 _)
  · intro same
    induction same with
    | nil => exact .nil
    | cons same _ ih => exact .letter same (ih (List.forall_mem_cons.1 plain).2)

end SegmentCatalog.Text
