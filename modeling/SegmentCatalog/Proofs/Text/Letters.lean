import Mathlib.Data.List.Forall2
import SegmentCatalog.Text.Case

/-! # Letters in two cases

Two characters are the same letter if they are equal or the capital and the small form of one
of the letters A to Z.  `lower_eq_lower_iff` says that texts have the same small form exactly
when they are the same letter by letter.
-/

namespace SegmentCatalog.Text

/-- One letter, in the same or in different cases; or one and the same character. -/
def SameLetter (c d : Char) : Prop :=
  c = d ∨ (c.isUpper = true ∧ d.toNat = c.toNat + 32) ∨ (d.isUpper = true ∧ c.toNat = d.toNat + 32)

/-- Equal up to the case of the letters A to Z. -/
def SameLetters (cs ds : List Char) : Prop := List.Forall₂ SameLetter cs ds

instance (c d : Char) : Decidable (SameLetter c d) := inferInstanceAs (Decidable (_ ∨ _ ∨ _))

instance (cs ds : List Char) : Decidable (SameLetters cs ds) :=
  inferInstanceAs (Decidable (List.Forall₂ SameLetter cs ds))

theorem isUpper_iff {c : Char} : c.isUpper = true ↔ 65 ≤ c.toNat ∧ c.toNat ≤ 90 := by
  show decide (65 ≤ c.toNat ∧ c.toNat ≤ 90) = true ↔ _
  rw [decide_eq_true_iff]

/-- The small letters have codes 32 above those of the capitals. -/
theorem toNat_toLower (c : Char) :
    c.toLower.toNat = if 65 ≤ c.toNat ∧ c.toNat ≤ 90 then c.toNat + 32 else c.toNat := by
  delta Char.toLower
  split
  · rename_i capital
    have bounds : 65 ≤ c.toNat ∧ c.toNat ≤ 90 := capital
    rw [if_pos bounds]
    show (c.val + 32).toNat = c.val.toNat + 32
    have small : c.val.toNat ≤ 90 := bounds.2
    simp only [UInt32.toNat_add, UInt32.reduceToNat]
    omega
  · rename_i other
    have outside : ¬ (65 ≤ c.toNat ∧ c.toNat ≤ 90) := other
    rw [if_neg outside]

@[simp] theorem toLower_toLower (c : Char) : c.toLower.toLower = c.toLower := by
  rw [← Char.toNat_inj, toNat_toLower, toNat_toLower]
  split_ifs <;> omega

theorem toLower_eq_toLower_iff {c d : Char} : c.toLower = d.toLower ↔ SameLetter c d := by
  rw [SameLetter, isUpper_iff, isUpper_iff, ← Char.toNat_inj, ← Char.toNat_inj, toNat_toLower,
    toNat_toLower]
  -- a capital meets its small letter, never another one, for the classes lie 32 apart
  split_ifs <;> omega

theorem lower_eq_lower_iff {cs ds : List Char} : lower cs = lower ds ↔ SameLetters cs ds := by
  rw [lower, lower, SameLetters, ← List.forall₂_eq_eq_eq, List.forall₂_map_left_iff,
    List.forall₂_map_right_iff]
  simp only [toLower_eq_toLower_iff]

/-- Looking a text up in its small form among words in small letters finds it in any case. -/
theorem lower_mem_iff {cs : List Char} {words : List String}
    (small : ∀ word ∈ words, lower word.toList = word.toList) :
    String.ofList (lower cs) ∈ words ↔ ∃ word ∈ words, SameLetters cs word.toList := by
  constructor
  · intro member
    refine ⟨_, member, lower_eq_lower_iff.1 ?_⟩
    rw [small _ member, String.toList_ofList]
  · intro ⟨word, member, same⟩
    rw [lower_eq_lower_iff.2 same, small word member, String.ofList_toList]
    exact member

end SegmentCatalog.Text
