import Mathlib.Data.List.Dedup
import Mathlib.Data.List.Perm.Subperm
import SegmentCatalog.Config.PropertyStore
import SegmentCatalog.Proofs.References.Memo

/-! # The calls of an expansion

`Lookup.resolve` is told which keys are pending and how many levels are left.  Here expansion has
one stack of keys instead, which it changes as it goes: a key is pushed before its value is
expanded and popped afterwards.  Every such call is recorded.

* `Expands` is this expansion, from a `Desk` to a desk.  It ends, in one way only
  (`Expands.unique`), with the text and the memo that `Lookup.writeOut` comes to (`agrees`);
* `Expands.stack_eq`: the stack is in the end what it was in the beginning;
* `Desk.Tidy` holds of every desk on the way: pushing a key (`Desk.Tidy.enter`) and popping it
  (`Desk.Tidy.leave`) keep it, and so does a whole expansion (`Expands.tidy`).

A key moves from the stack to the memo when it is popped.  It is then on neither of them twice nor
on both, so that its value is expanded once (`PropertyStore.expands_each_key_once`).
-/

namespace SegmentCatalog

namespace Lookup

/-- The expansion of a value that a reference has led to. -/
structure Call where
  key : String
  value : String
  /-- The keys in expansion when the value is handed over. -/
  onEntry : List String
  /-- The keys in expansion when the value has been expanded. -/
  onReturn : List String

/-- What expansion works on. -/
structure Desk where
  /-- The keys in expansion, the outermost first. -/
  stack : List String
  memo : Memo
  /-- The calls that have returned, the last one first. -/
  calls : List Call

namespace Desk

/-- The desk on which a text of `key` comes to be expanded. -/
def clear (key : String) : Desk where
  stack := [key]
  memo := []
  calls := []

/-- Pushes `name`. -/
def enter (desk : Desk) (name : String) : Desk := { desk with stack := desk.stack ++ [name] }

/-- Pops a key when its value has been expanded to `text`, and remembers the text. -/
def leave (desk : Desk) (name value : String) (onEntry : List String) (text : List Char) :
    Desk where
  stack := desk.stack.dropLast
  memo := (name, text) :: desk.memo
  calls := { key := name, value, onEntry, onReturn := desk.stack } :: desk.calls

/-- A reference to `name` is left as it is written: the key is absent, or as many keys are in
    expansion as may be, or `name` is one of them. -/
def Blocked (lookup : Lookup) (desk : Desk) (name : String) : Prop :=
  lookup name = none ∨ maxPending ≤ desk.stack.length ∨ name ∈ desk.stack

theorem pending_enter (desk : Desk) (name : String) :
    (desk.enter name).stack.reverse = name :: desk.stack.reverse :=
  List.reverse_concat ..

theorem stack_leave {desk inner : Desk} {name : String}
    (restored : inner.stack = (desk.enter name).stack) (value : String) (onEntry : List String)
    (text : List Char) : (inner.leave name value onEntry text).stack = desk.stack := by
  rw [leave, restored, enter, List.dropLast_concat]

theorem memo_leave (inner : Desk) (name value : String) (onEntry : List String)
    (text : List Char) : (inner.leave name value onEntry text).memo = (name, text) :: inner.memo :=
  rfl

end Desk

/-- `Expands lookup desk pieces text after`: on `desk` the pieces are written out as `text`, and
    `after` is left. -/
inductive Expands (lookup : Lookup) : Desk → List Piece → List Char → Desk → Prop
  | done {desk : Desk} : Expands lookup desk [] [] desk
  | char {desk after : Desk} {c : Char} {pieces : List Piece} {text : List Char} :
      Expands lookup desk pieces text after →
      Expands lookup desk (.char c :: pieces) (c :: text) after
  | escaped {desk after : Desk} {name text : List Char} {pieces : List Piece} :
      Expands lookup desk pieces text after →
      Expands lookup desk (.escaped name :: pieces) (Piece.unescaped name ++ text) after
  | remembered {desk after : Desk} {name front text : List Char} {pieces : List Piece} :
      desk.memo.lookup (.ofList name) = some front →
      Expands lookup desk pieces text after →
      Expands lookup desk (.reference name :: pieces) (front ++ text) after
  | left {desk after : Desk} {name text : List Char} {pieces : List Piece} :
      desk.memo.lookup (.ofList name) = none →
      desk.Blocked lookup (.ofList name) →
      Expands lookup desk pieces text after →
      Expands lookup desk (.reference name :: pieces) (leftAlone (.ofList name) ++ text) after
  | followed {desk inner after : Desk} {name front text : List Char} {value : String}
      {pieces : List Piece} :
      desk.memo.lookup (.ofList name) = none →
      ¬ desk.Blocked lookup (.ofList name) →
      lookup (.ofList name) = some value →
      Expands lookup (desk.enter (.ofList name)) (Piece.ofText value.toList) front inner →
      Expands lookup
        (inner.leave (.ofList name) value (desk.enter (.ofList name)).stack front) pieces text
        after →
      Expands lookup desk (.reference name :: pieces) (front ++ text) after

variable {lookup : Lookup} {desk after : Desk} {pieces : List Piece} {text : List Char}
  {key name value : String}

/-! ## Every expansion ends, in one way -/

theorem Expands.stack_eq (expands : Expands lookup desk pieces text after) :
    after.stack = desk.stack := by
  induction expands with
  | done => rfl
  | char _ ih => exact ih
  | escaped _ ih => exact ih
  | remembered _ _ ih => exact ih
  | left _ _ _ ih => exact ih
  | followed _ _ _ _ _ inside behind =>
    -- what is popped is what was pushed
    rw [behind, Desk.stack_leave inside]

theorem Expands.unique {text' : List Char} {after' : Desk}
    (expands : Expands lookup desk pieces text after)
    (expands' : Expands lookup desk pieces text' after') : text = text' ∧ after = after' := by
  induction expands generalizing text' after' with
  | done =>
    cases expands' with
    | done => exact ⟨rfl, rfl⟩
  | char _ ih =>
    cases expands' with
    | char rest =>
      obtain ⟨rfl, rfl⟩ := ih rest
      exact ⟨rfl, rfl⟩
  | escaped _ ih =>
    cases expands' with
    | escaped rest =>
      obtain ⟨rfl, rfl⟩ := ih rest
      exact ⟨rfl, rfl⟩
  | remembered found _ ih =>
    cases expands' with
    | remembered found' rest =>
      obtain ⟨rfl, rfl⟩ := ih rest
      rw [found] at found'
      cases found'
      exact ⟨rfl, rfl⟩
    | left unknown => exact absurd (found.symm.trans unknown) (Option.some_ne_none _)
    | followed unknown => exact absurd (found.symm.trans unknown) (Option.some_ne_none _)
  | left unknown blocked _ ih =>
    cases expands' with
    | remembered found => exact absurd (found.symm.trans unknown) (Option.some_ne_none _)
    | left _ _ rest =>
      obtain ⟨rfl, rfl⟩ := ih rest
      exact ⟨rfl, rfl⟩
    | followed _ unblocked => exact absurd blocked unblocked
  | followed unknown unblocked present _ _ inside behind =>
    cases expands' with
    | remembered found => exact absurd (found.symm.trans unknown) (Option.some_ne_none _)
    | left _ blocked => exact absurd blocked unblocked
    | followed _ _ present' within rest =>
      rw [present] at present'
      cases present'
      obtain ⟨rfl, rfl⟩ := inside within
      obtain ⟨rfl, rfl⟩ := behind rest
      exact ⟨rfl, rfl⟩

/-! ### The same with levels -/

theorem Desk.blocked_iff {levels : Nat} (depth : desk.stack.length + levels = maxPending) :
    desk.Blocked lookup name ↔
      lookup name = none ∨ name ∈ desk.stack.reverse ∨ levels = 0 := by
  have spent : maxPending ≤ desk.stack.length ↔ levels = 0 := by omega
  rw [Desk.Blocked, List.mem_reverse, spent, or_comm (a := levels = 0)]

/-- On `desk`, expansion with the stack comes to the text and to the memo that expansion with
    `levels` left comes to. -/
def Agrees (lookup : Lookup) (levels : Nat) (desk : Desk) (pieces : List Piece) : Prop :=
  ∃ after, Expands lookup desk pieces
      (writeOut (lookup.resolve levels desk.stack.reverse) pieces desk.memo).1 after ∧
    after.memo = (writeOut (lookup.resolve levels desk.stack.reverse) pieces desk.memo).2

namespace Agrees

variable {levels : Nat} {label : List Char}

theorem char (rest : Agrees lookup levels desk pieces) (c : Char) :
    Agrees lookup levels desk (.char c :: pieces) := by
  obtain ⟨after, expands, memo⟩ := rest
  exact ⟨after, .char expands, memo⟩

theorem escaped (rest : Agrees lookup levels desk pieces) (label : List Char) :
    Agrees lookup levels desk (.escaped label :: pieces) := by
  obtain ⟨after, expands, memo⟩ := rest
  exact ⟨after, .escaped expands, memo⟩

theorem remembered (rest : Agrees lookup levels desk pieces)
    (found : desk.memo.lookup (.ofList label) = some text) :
    Agrees lookup levels desk (.reference label :: pieces) := by
  obtain ⟨after, expands, memo⟩ := rest
  rw [Agrees]
  simp only [writeOut, resolve_of_memo found]
  exact ⟨after, .remembered found expands, memo⟩

theorem left (rest : Agrees lookup levels desk pieces)
    (unknown : desk.memo.lookup (.ofList label) = none)
    (blocked : desk.Blocked lookup (.ofList label))
    (depth : desk.stack.length + levels = maxPending) :
    Agrees lookup levels desk (.reference label :: pieces) := by
  obtain ⟨after, expands, memo⟩ := rest
  rw [Agrees]
  simp only [writeOut, resolve_leftAlone unknown ((Desk.blocked_iff depth).1 blocked)]
  exact ⟨after, .left unknown blocked expands, memo⟩

/-- Behind a call the stack is as before, so that the pieces that are left go on from there. -/
theorem followed (unknown : desk.memo.lookup (.ofList label) = none)
    (unblocked : ¬ desk.Blocked lookup (.ofList label))
    (present : lookup (.ofList label) = some value) (free : .ofList label ∉ desk.stack.reverse)
    (inside : Agrees lookup levels (desk.enter (.ofList label)) (Piece.ofText value.toList))
    (behind : ∀ next : Desk, next.stack = desk.stack →
      Agrees lookup (levels + 1) next pieces) :
    Agrees lookup (levels + 1) desk (.reference label :: pieces) := by
  obtain ⟨inner, within, memo⟩ := inside
  rw [Desk.pending_enter] at within memo
  have back := Desk.stack_leave within.stack_eq value (desk.enter (.ofList label)).stack
  obtain ⟨after, rest, memo'⟩ := behind _ (back _)
  rw [back, Desk.memo_leave, memo] at rest memo'
  rw [Agrees]
  simp only [writeOut, resolve_anew unknown present free]
  exact ⟨after, .followed unknown unblocked present within rest, memo'⟩

end Agrees

theorem agrees {levels : Nat} (pieces : List Piece)
    (depth : desk.stack.length + levels = maxPending) : Agrees lookup levels desk pieces := by
  -- one level is spent per key that is pushed; in a text the pieces are taken in turn
  induction levels using Nat.strong_induction_on generalizing desk pieces with
  | h levels nested =>
    induction pieces generalizing desk with
    | nil => exact ⟨desk, .done, rfl⟩
    | cons piece pieces later =>
      cases piece with
      | char c => exact (later depth).char c
      | escaped label => exact (later depth).escaped label
      | reference label =>
        cases found : desk.memo.lookup (.ofList label) with
        | some front => exact (later depth).remembered found
        | none =>
          by_cases blocked : desk.Blocked lookup (.ofList label)
          · exact (later depth).left found blocked depth
          · have unblocked := (not_congr (Desk.blocked_iff depth)).1 blocked
            obtain ⟨value, below, present, free, rfl⟩ := exists_of_not_blocked unblocked
            refine Agrees.followed found blocked present free ?_ ?_
            · apply nested below (Nat.lt_succ_self below)
              rw [Desk.enter, List.length_append, List.length_singleton]
              omega
            · intro next same
              apply later
              rw [same, depth]

/-! ## What every step keeps -/

/-- A call in an expansion for `key`: the stack went from `key` to the key of the call, had no key
    twice and was not too long, and it was the same when the call returned. -/
structure Call.Orderly (lookup : Lookup) (key : String) (call : Call) : Prop where
  stored : lookup call.key = some call.value
  distinct : call.onEntry.Nodup
  outermost : call.onEntry.head? = some key
  innermost : call.onEntry.getLast? = some call.key
  bounded : call.onEntry.length ≤ maxPending
  restored : call.onReturn = call.onEntry

/-- A desk as an expansion for `key` may find it: each key is on the stack or in the memo once at
    most, and the keys in the memo are those of the calls. -/
structure Desk.Tidy (lookup : Lookup) (key : String) (desk : Desk) : Prop where
  distinct : (desk.stack ++ desk.memo.map Prod.fst).Nodup
  outermost : desk.stack.head? = some key
  bounded : desk.stack.length ≤ maxPending
  listed : desk.calls.map Call.key = desk.memo.map Prod.fst
  orderly : ∀ call ∈ desk.calls, call.Orderly lookup key

namespace Desk.Tidy

theorem clear (lookup : Lookup) (key : String) : (Desk.clear key).Tidy lookup key where
  distinct := List.nodup_singleton key
  outermost := rfl
  bounded := Nat.le_of_ble_eq_true rfl
  listed := rfl
  orderly := by
    intro call member
    cases member

theorem enter (tidy : desk.Tidy lookup key) (unknown : desk.memo.lookup name = none)
    (unblocked : ¬ desk.Blocked lookup name) : (desk.enter name).Tidy lookup key where
  distinct := by
    have free : name ∉ desk.stack := fun member => unblocked (.inr (.inr member))
    have fresh : name ∉ desk.memo.map Prod.fst := by
      rw [← OrderedMap.isSome_lookup_iff, unknown]
      exact Bool.false_ne_true
    rw [Desk.enter, List.append_assoc, List.singleton_append, List.nodup_middle]
    refine List.nodup_cons.2 ⟨fun member => ?_, tidy.distinct⟩
    exact (List.mem_append.1 member).elim free fresh
  outermost := by
    rw [Desk.enter, List.head?_append, tidy.outermost, Option.some_or]
  bounded := by
    have room : ¬ maxPending ≤ desk.stack.length := fun full => unblocked (.inr (.inl full))
    rw [Desk.enter, List.length_append, List.length_singleton]
    omega
  listed := tidy.listed
  orderly := tidy.orderly

/-- The key that is popped goes from the end of the stack to the front of the memo. -/
theorem leave {inner : Desk} (tidy : inner.Tidy lookup key)
    (restored : inner.stack = (desk.enter name).stack) (entered : (desk.enter name).Tidy lookup key)
    (present : lookup name = some value) (started : desk.stack.head? = some key) (text : List Char) :
    (inner.leave name value (desk.enter name).stack text).Tidy lookup key where
  distinct := by
    have before := tidy.distinct
    rw [restored, Desk.enter, List.append_assoc] at before
    rw [stack_leave restored]
    exact before
  outermost := by rw [stack_leave restored, started]
  bounded := by
    have before := tidy.bounded
    rw [stack_leave restored]
    rw [restored, Desk.enter, List.length_append] at before
    omega
  listed := congrArg (name :: ·) tidy.listed
  orderly := by
    intro call member
    rcases List.mem_cons.1 member with rfl | earlier
    · have distinct := (List.nodup_append.1 entered.distinct).1
      have innermost : (desk.enter name).stack.getLast? = some name := List.getLast?_concat
      exact ⟨present, distinct, entered.outermost, innermost, entered.bounded, restored⟩
    · exact tidy.orderly call earlier

end Desk.Tidy

theorem Expands.tidy (expands : Expands lookup desk pieces text after)
    (tidy : desk.Tidy lookup key) : after.Tidy lookup key := by
  induction expands with
  | done => exact tidy
  | char _ ih => exact ih tidy
  | escaped _ ih => exact ih tidy
  | remembered _ _ ih => exact ih tidy
  | left _ _ _ ih => exact ih tidy
  | followed unknown unblocked present inside _ within behind =>
    have entered := tidy.enter unknown unblocked
    exact behind ((within entered).leave inside.stack_eq entered present tidy.outermost _)

end Lookup

/-! ## Interpolation -/

namespace PropertyStore

open Lookup

theorem mem_keys_of_raw? {store : PropertyStore} {key value : String}
    (present : store.raw? key = some value) : key ∈ store.keys := by
  obtain ⟨stored, found, _⟩ := Option.map_eq_some_iff.1 present
  rw [← OrderedMap.contains_iff, OrderedMap.contains, found]
  rfl

/-- An interpolation expands the value of each key once at most, and that of its own key not at
    all: besides the text itself there are no more calls than keys in the store.  The last desk is
    that of `Lookup.interpolate`, whose memo has one entry for each call. -/
theorem expands_each_key_once (store : PropertyStore) (key text : String) :
    ∃ after : Desk,
      (∀ out desk, Expands store.raw? (.clear key) (Piece.ofText text.toList) out desk ↔
        out = (interpolate store.raw? key text).toList ∧ desk = after) ∧
      after.calls.map Call.key =
        (writeOut (resolve store.raw? (maxPending - 1) [key]) (Piece.ofText text.toList) []).2.map
          Prod.fst ∧
      after.stack = [key] ∧
      (key :: after.calls.map Call.key).Nodup ∧
      (∀ call ∈ after.calls, call.Orderly store.raw? key) ∧
      after.calls.length ≤ store.keys.dedup.length := by
  have depth : (Desk.clear key).stack.length + (maxPending - 1) = maxPending := rfl
  obtain ⟨after, expands, memo⟩ :
      Agrees store.raw? (maxPending - 1) (.clear key) (Piece.ofText text.toList) := agrees _ depth
  have outcome : (writeOut (resolve store.raw? (maxPending - 1) (Desk.clear key).stack.reverse)
      (Piece.ofText text.toList) (Desk.clear key).memo).1 =
      (interpolate store.raw? key text).toList :=
    String.toList_ofList.symm
  rw [outcome] at expands
  have tidy := expands.tidy (Desk.Tidy.clear store.raw? key)
  have stack : after.stack = [key] := expands.stack_eq
  have once : (key :: after.calls.map Call.key).Nodup := by
    have distinct := tidy.distinct
    rwa [stack, List.singleton_append, ← tidy.listed] at distinct
  refine ⟨after, fun out desk => ⟨fun other => other.unique expands, ?_⟩, memo ▸ tidy.listed, stack,
    once, tidy.orderly, ?_⟩
  · rintro ⟨rfl, rfl⟩
    exact expands
  · -- each call is for a key of the store, and no two are for one key
    have known : after.calls.map Call.key ⊆ store.keys.dedup := by
      intro name member
      obtain ⟨call, inside, rfl⟩ := List.mem_map.1 member
      exact List.mem_dedup.2 (mem_keys_of_raw? (tidy.orderly call inside).stored)
    have fewer := (List.Nodup.subperm (List.nodup_cons.1 once).2 known).length_le
    rwa [List.length_map] at fewer

end PropertyStore

end SegmentCatalog
