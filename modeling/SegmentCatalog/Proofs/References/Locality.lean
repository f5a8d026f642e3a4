import Mathlib.Logic.Relation
import SegmentCatalog.Config.PropertyStore
import SegmentCatalog.Proofs.References.Memo

/-! # What a text depends on

The text of a key depends on its value and on the values of the keys that references lead to from
there (`PropertyStore.text?_eq_of_agreeFrom`).  Other keys, and the order of the keys, have no part
in it, even where references run in a ring or too deep to be followed.

`PropertyStore.confines` is a test of where references lead at most.
-/

namespace SegmentCatalog

namespace Lookup

/-- The value of `name` has a reference to `other`, which need not be present. -/
def Refers (lookup : Lookup) (name other : String) : Prop :=
  ∃ value, lookup name = some value ∧ Mentions value.toList other

/-- Both have the same for `name` and for every key that references in the first lead to from it. -/
def AgreeFrom (first second : Lookup) (name : String) : Prop :=
  ∀ other, Relation.ReflTransGen first.Refers name other → first other = second other

variable {first second : Lookup} {name other value : String} {pending : List String}
  {levels : Nat} {memo : Memo}

theorem AgreeFrom.here (agree : AgreeFrom first second name) : first name = second name :=
  agree name .refl

theorem AgreeFrom.behind (agree : AgreeFrom first second name) (refers : first.Refers name other) :
    AgreeFrom first second other :=
  fun further leads => agree further (.head refers leads)

theorem writeOut_congr {cs : List Char} {f g : String → Memo → List Char × Memo}
    (same : ∀ name, Mentions cs name → f name = g name) :
    writeOut f (Piece.ofText cs) memo = writeOut g (Piece.ofText cs) memo := by
  -- two runs that start with the same memo have the same one throughout
  have together : (writeOut f (Piece.ofText cs) memo).1 = (writeOut g (Piece.ofText cs) memo).1 ∧
      (writeOut f (Piece.ofText cs) memo).2 = (writeOut g (Piece.ofText cs) memo).2 := by
    refine writeOut_related (R := Eq) ?_ rfl
    rintro name member m _ rfl
    rw [same (.ofList name) (by rwa [Mentions, String.toList_ofList])]
    exact ⟨rfl, rfl⟩
  exact Prod.ext together.1 together.2

theorem AgreeFrom.resolve_eq (agree : AgreeFrom first second name) :
    first.resolve levels pending name memo = second.resolve levels pending name memo := by
  induction levels using Nat.strong_induction_on generalizing name pending memo with
  | h levels ih =>
    cases found : memo.lookup name with
    | some text => rw [resolve_of_memo found, resolve_of_memo found]
    | none =>
      by_cases blocked : first name = none ∨ name ∈ pending ∨ levels = 0
      · have blocked' : second name = none ∨ name ∈ pending ∨ levels = 0 := agree.here ▸ blocked
        rw [resolve_leftAlone found blocked, resolve_leftAlone found blocked']
      · obtain ⟨value, below, present, free, rfl⟩ := exists_of_not_blocked blocked
        have present' : second name = some value := agree.here ▸ present
        -- the same value is written out, and what it mentions is led to as well
        have out : writeOut (first.resolve below (name :: pending)) (Piece.ofText value.toList)
            memo = writeOut (second.resolve below (name :: pending)) (Piece.ofText value.toList)
            memo := by
          apply writeOut_congr
          intro other mentions
          funext m
          exact ih below (Nat.lt_succ_self below) (agree.behind ⟨value, present, mentions⟩)
        rw [resolve_anew found present free, resolve_anew found present' free, out]

end Lookup

namespace PropertyStore

open Lookup

variable {first second store : PropertyStore} {key name : String} {names : List String}

/-- Two stores have the same text for a key if they agree on the key and on whatever references
    lead to from there. -/
theorem text?_eq_of_agreeFrom (agree : AgreeFrom first.raw? second.raw? key) :
    first.text? key = second.text? key := by
  rw [text?, text?, ← agree.here]
  cases present : first.raw? key with
  | none => rfl
  | some value =>
    have out : writeOut (resolve first.raw? (maxPending - 1) [key]) (Piece.ofText value.toList) [] =
        writeOut (resolve second.raw? (maxPending - 1) [key]) (Piece.ofText value.toList) [] := by
      apply writeOut_congr
      intro other mentions
      funext m
      exact (agree.behind ⟨value, present, mentions⟩).resolve_eq
    rw [Option.map_some, Option.map_some, interpolate, interpolate, out]

/-! ## A test -/

/-- Whether every reference in a value of one of `names` is to one of them. -/
def confines (store : PropertyStore) (names : List String) : Bool :=
  names.all fun name => ((store.raw? name).elim [] fun value => Piece.ofText value.toList).all fun
    | .reference other => names.contains (.ofList other)
    | _ => true

theorem mem_of_confines (confined : store.confines names = true) (inside : key ∈ names)
    (leads : Relation.ReflTransGen (Refers store.raw?) key name) : name ∈ names := by
  induction leads with
  | refl => exact inside
  | tail _ refers ih =>
    obtain ⟨value, present, mentions⟩ := refers
    have each := List.all_eq_true.1 confined _ ih
    rw [present, Option.elim_some] at each
    have known := List.all_eq_true.1 each _ mentions
    simpa using known

theorem agreeFrom_of_confines (confined : first.confines names = true) (inside : key ∈ names)
    (same : ∀ name ∈ names, first.raw? name = second.raw? name) :
    AgreeFrom first.raw? second.raw? key :=
  fun name leads => same name (mem_of_confines confined inside leads)

/-- A ring of two keys with a reference to an absent one, among other keys. -/
def ringed : PropertyStore :=
  [("z", "1"), ("a", "$\x7bb\x7d-$\x7bc\x7d"), ("b", "$\x7ba\x7d$$\x7bz\x7d")].foldl
    (fun store (key, text) => PropertyStore.set store key text) OrderedMap.empty

/-- The ring of `ringed` with its keys in another order, and other keys besides. -/
def ringedAlso : PropertyStore :=
  [("b", "$\x7ba\x7d$$\x7bz\x7d"), ("y", "$\x7ba\x7d"), ("z", "2"),
    ("a", "$\x7bb\x7d-$\x7bc\x7d")].foldl
    (fun store (key, text) => PropertyStore.set store key text) OrderedMap.empty

theorem text?_eq_of_agreeFrom_ringed :
    AgreeFrom ringed.raw? ringedAlso.raw? "a" ∧ ringed.text? "a" = ringedAlso.text? "a" ∧
    ringed.text? "a" = some "$\x7ba\x7d$\x7bz\x7d-$\x7bc\x7d" := by
  have agree : AgreeFrom ringed.raw? ringedAlso.raw? "a" := by
    have confined : ringed.confines ["a", "b", "c"] = true := by decide +kernel
    exact agreeFrom_of_confines confined (by decide) (by decide +kernel)
  exact ⟨agree, text?_eq_of_agreeFrom agree, by decide +kernel⟩

end PropertyStore

end SegmentCatalog
