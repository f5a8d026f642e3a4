import Mathlib.Order.Interval.Set.Defs
import Mathlib.Data.Set.Function
import SegmentCatalog.Config.PropertyStore
import SegmentCatalog.Proofs.References.Memo

/-! # How deep references go

The keys in expansion at a time are at most `Lookup.maxPending`, and the key that is looked up is
one of them.  Along keys that each refer to the next one (`Descends`) expansion therefore follows
one reference less than that: it comes to the text at the end if there are fewer than `maxPending`
references, and stops at the reference to the key number `maxPending` otherwise
(`PropertyStore.text?_of_descends`).

`staircase` has such keys in any number.
-/

namespace SegmentCatalog

open Lookup

/-- `key 0`, ..., `key n` are different keys, each of which has a reference to the next one for
    its value, and nothing else; the last one has `text`, which refers to nothing. -/
structure Descends (lookup : Lookup) (key : Nat → String) (n : Nat) (text : String) : Prop where
  distinct : Set.InjOn key (Set.Iic n)
  filled : ∀ i ≤ n, key i ≠ ""
  solid : ∀ i ≤ n, '}' ∉ (key i).toList
  refers : ∀ i < n, lookup (key i) = some (.ofList (leftAlone (key (i + 1))))
  ends : lookup (key n) = some text
  plain : ¬ ['$', '{'] <:+: text.toList

namespace Descends

variable {lookup : Lookup} {key : Nat → String} {n i levels : Nat} {text : String}
  {pending : List String}

/-- With `levels` left at `key i`, expansion gets to the end if that is fewer keys further down,
    and to the key so many keys further down otherwise. -/
theorem resolve_text (descends : Descends lookup key n text) (above : i ≤ n)
    (earlier : ∀ name ∈ pending, ∃ j < i, name = key j) :
    (lookup.resolve levels pending (key i) []).1 =
      if n - i < levels then text.toList else leftAlone (key (i + levels)) := by
  -- one level is spent per key; the memo stays empty, for no key is met twice on the way down
  induction levels generalizing i pending with
  | zero =>
    rw [resolve_leftAlone rfl (.inr (.inr rfl)), if_neg (by omega), Nat.add_zero]
  | succ levels ih =>
    have free : key i ∉ pending := by
      intro member
      obtain ⟨j, before, same⟩ := earlier _ member
      have equal := descends.distinct (Set.mem_Iic.2 above) (Set.mem_Iic.2 (by omega)) same
      omega
    by_cases last : i = n
    · subst last
      rw [resolve_anew rfl descends.ends free, if_pos (by omega)]
      dsimp only
      rw [Piece.ofText_of_no_opening descends.plain, writeOut_map_char]
    · have above' : i + 1 ≤ n := by omega
      have earlier' : ∀ name ∈ key i :: pending, ∃ j < i + 1, name = key j := by
        intro name member
        rcases List.mem_cons.1 member with rfl | deeper
        · exact ⟨i, Nat.lt_succ_self i, rfl⟩
        · obtain ⟨j, before, same⟩ := earlier name deeper
          exact ⟨j, by omega, same⟩
      rw [resolve_anew rfl (descends.refers i above') free]
      dsimp only
      rw [String.toList_ofList, writeOut_leftAlone (descends.filled _ above')
        (descends.solid _ above'), ih above' earlier', Nat.add_assoc, Nat.add_comm 1 levels]
      refine if_congr ?_ rfl rfl
      omega

end Descends

namespace PropertyStore

variable {store : PropertyStore} {key : Nat → String} {n : Nat} {text : String}

/-- Fewer than `maxPending` references in a row are followed to their end; of more, the one to the
    key number `maxPending` is left as it is written. -/
theorem text?_of_descends (descends : Descends store.raw? key n text) :
    store.text? (key 0) =
      some (if n < maxPending then text else .ofList (leftAlone (key maxPending))) := by
  cases n with
  | zero =>
    rw [text?, descends.ends, Option.map_some, interpolate_of_no_opening _ _ descends.plain]
    rfl
  | succ n =>
    have first : (resolve store.raw? (maxPending - 1) [key 0] (key 1) []).1 =
        if n + 1 - 1 < maxPending - 1 then text.toList
        else leftAlone (key (1 + (maxPending - 1))) :=
      descends.resolve_text (by omega) (by simp)
    rw [text?, descends.refers 0 (Nat.succ_pos n), Option.map_some,
      interpolate_leftAlone (descends.filled 1 (by omega)) (descends.solid 1 (by omega)), first]
    by_cases shallow : n + 1 < maxPending
    · rw [if_pos shallow, if_pos (by omega), String.ofList_toList]
    · have positive : 0 < maxPending := by decide
      rw [if_neg shallow, if_neg (by omega), Nat.add_sub_cancel' positive]

/-! ## Keys in a row -/

/-- The name of `i + 1` letters. -/
def stair (i : Nat) : String := .ofList (List.replicate (i + 1) 'k')

theorem stair_injective : Function.Injective stair := by
  intro i j same
  have letters := congrArg List.length (String.ofList_injective same)
  rw [List.length_replicate, List.length_replicate] at letters
  omega

/-- Keys that refer each to the next one, `n` references in a row, and `t` at the end. -/
def staircase (n : Nat) : PropertyStore :=
  (List.range n).foldl (fun store i => store.set (stair i) (.ofList (leftAlone (stair (i + 1)))))
    (PropertyStore.set OrderedMap.empty (stair n) "t")

theorem raw?_foldl_stair (m : Nat) (store : PropertyStore) (i : Nat) :
    ((List.range m).foldl (fun store i => store.set (stair i) (.ofList (leftAlone (stair (i + 1)))))
      store).raw? (stair i) =
      if i < m then some (.ofList (leftAlone (stair (i + 1)))) else store.raw? (stair i) := by
  induction m with
  | zero => rfl
  | succ m ih =>
    rw [List.range_succ, List.foldl_append, List.foldl_cons, List.foldl_nil, raw?_set, ih]
    by_cases here : i = m
    · subst here
      rw [if_pos rfl, if_pos (Nat.lt_succ_self i)]
    · rw [if_neg (stair_injective.ne here)]
      refine if_congr ?_ rfl rfl
      omega

theorem descends_staircase (n : Nat) : Descends (staircase n).raw? stair n "t" where
  distinct := stair_injective.injOn
  filled := by
    intro i _ empty
    have letters := congrArg String.toList empty
    rw [stair, String.toList_ofList] at letters
    cases letters
  solid := by
    intro i _
    rw [stair, String.toList_ofList]
    simp
  refers := by
    intro i above
    rw [staircase, raw?_foldl_stair, if_pos above]
  ends := by
    rw [staircase, raw?_foldl_stair, if_neg (Nat.lt_irrefl n), raw?_set, if_pos rfl]
  plain := by decide

theorem text?_of_descends_staircase :
    (Descends (staircase 15).raw? stair 15 "t" ∧ (staircase 15).text? (stair 0) = some "t") ∧
    (Descends (staircase 16).raw? stair 16 "t" ∧
      (staircase 16).text? (stair 0) = some "$\x7bkkkkkkkkkkkkkkkkk\x7d") :=
  ⟨⟨descends_staircase 15, text?_of_descends (descends_staircase 15)⟩,
    descends_staircase 16, text?_of_descends (descends_staircase 16)⟩

/-- The key that is looked up is one of the `maxPending` keys: of so many references in a row the
    last one is not followed. -/
theorem not_text?_of_descends_within_maxPending :
    ¬ ∀ (store : PropertyStore) (key : Nat → String) (n : Nat) (text : String), 1 ≤ n →
      Descends store.raw? key n text →
      store.text? (key 0) =
        some (if n ≤ 16 then text else .ofList (leftAlone (key 17))) := by
  intro always
  have promised := always (staircase 16) stair 16 "t" (by decide) (descends_staircase 16)
  have given : (staircase 16).text? (stair 0) = some (.ofList (leftAlone (stair 16))) :=
    text?_of_descends (descends_staircase 16)
  rw [given, if_pos (Nat.le_refl 16)] at promised
  exact absurd promised (by decide +kernel)

end PropertyStore

end SegmentCatalog
