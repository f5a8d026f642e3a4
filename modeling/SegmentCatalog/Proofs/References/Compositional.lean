import SegmentCatalog.Config.PropertyStore
import SegmentCatalog.Proofs.References.Memo

/-! # Values as texts of values

Where chains of references neither run into themselves nor grow too long, the text of a key is
its value with every reference replaced by the text of the key that it names
(`PropertyStore.text?_eq_substituted`): neither the keys that are pending nor what is remembered
of earlier references can be told from the outcome.

The situations that an expansion comes into are `Lookup.Entered`.  They are settled here because
no pending key can be reached from a key that is being expanded.
-/

namespace SegmentCatalog

namespace Lookup

variable {lookup : Lookup} {levels : Nat} {pending : List String} {key name other value : String}
  {cs : List Char}

/-! ## The situations of an expansion -/

/-- The situations in which the expansion of `cs`, a text of `key`, comes to a key that it does
    not cut off. -/
def Entered (lookup : Lookup) (key : String) (cs : List Char) : Situations :=
  fun levels pending name => ∃ way text, Trail lookup cs (name :: way) text ∧
    (name :: pending).Nodup ∧ pending = way ++ [key] ∧ levels + way.length = maxPending - 1

theorem followed_entered : Followed lookup (Entered lookup key cs) := by
  rintro levels pending name value other ⟨way, text, trail, simple, rfl, depth⟩ _ present mentions
    there fresh
  obtain ⟨next, present'⟩ := Option.ne_none_iff_exists'.1 there
  obtain rfl := trail.text_eq present
  refine ⟨name :: way, _, trail.step mentions present', List.nodup_cons.2 ⟨fresh, simple⟩, rfl, ?_⟩
  rw [List.length_cons]
  omega

theorem Entered.free (entered : Entered lookup key cs levels pending name) : name ∉ pending := by
  obtain ⟨_, _, _, simple, _, _⟩ := entered
  exact (List.nodup_cons.1 simple).1

theorem Entered.present (entered : Entered lookup key cs levels pending name) :
    lookup name ≠ none := by
  obtain ⟨_, _, trail, _, _, _⟩ := entered
  exact trail.present

theorem entered_of_mention (mentions : Mentions cs name) (there : lookup name ≠ none)
    (free : name ∉ [key]) : Entered lookup key cs (maxPending - 1) [key] name := by
  obtain ⟨value, present⟩ := Option.ne_none_iff_exists'.1 there
  exact ⟨[], _, Trail.of_mention mentions present,
    List.nodup_cons.2 ⟨free, List.pairwise_singleton ..⟩, rfl, rfl⟩

/-! ## Chains that end -/

/-- No chain that goes on behind `way`, which ends in `cs`, is cut off for its length. -/
def Roomy (lookup : Lookup) (key : String) (way : List String) (cs : List Char) : Prop :=
  ∀ more text, Trail lookup cs more text → (more ++ (way ++ [key])).Nodup →
    more.length + way.length < maxPending

theorem Roomy.length_lt {way : List String} (roomy : Roomy lookup key (name :: way) cs)
    (simple : (name :: (way ++ [key])).Nodup) : way.length + 1 < maxPending := by
  have short := roomy [] cs Trail.start simple
  rw [List.length_nil, List.length_cons] at short
  omega

/-- The levels that are left at the end of a chain are enough for whatever follows. -/
theorem Roomy.fits {way : List String} (roomy : Roomy lookup key (name :: way) cs)
    (simple : (name :: (way ++ [key])).Nodup) (depth : levels + way.length = maxPending - 1) :
    ∃ l, levels = l + 1 ∧ lookup.Fits l (name :: (way ++ [key])) cs := by
  have short := roomy.length_lt simple
  refine ⟨levels - 1, by omega, fun more text trail apart => ?_⟩
  have longer := roomy more text trail apart
  rw [List.length_cons] at longer
  omega

/-- Chains of references from `cs` repeat no key, and no more than `maxPending` keys, the one
    that `cs` belongs to included, are pending at a time. -/
def Shallow (lookup : Lookup) (cs : List Char) : Prop :=
  ∀ way text, Trail lookup cs way text → way.Nodup ∧ way.length < maxPending

theorem Shallow.behind (shallow : Shallow lookup cs) (mentions : Mentions cs name)
    (present : lookup name = some value) : Shallow lookup value.toList := by
  intro way text trail
  obtain ⟨simple, short⟩ := shallow _ _ (trail.behind mentions present)
  rw [List.length_append] at short
  exact ⟨(List.nodup_append.1 simple).1, by omega⟩

/-- No chain leads back to the key that it starts from: it could go round again. -/
theorem Shallow.not_reaches (present : lookup key = some value)
    (shallow : Shallow lookup value.toList) : ¬ Reaches lookup value.toList key := by
  rintro ⟨way, text, trail⟩
  obtain rfl := trail.text_eq present
  obtain ⟨simple, _⟩ := shallow _ _ (trail.append trail)
  exact (List.nodup_append.1 simple).2.2 key (List.mem_cons_self ..) key (List.mem_cons_self ..) rfl

theorem shallow_of_rank (rank : String → Nat)
    (start : ∀ {name value}, Mentions cs name → lookup name = some value →
      rank name + 1 < maxPending)
    (falls : ∀ {name value other inner}, lookup name = some value →
      Mentions value.toList other → lookup other = some inner → rank other < rank name) :
    Shallow lookup cs := by
  -- the ranks rise from the last key of a chain to its first, and the first is low
  have ranked : ∀ way text, Trail lookup cs way text →
      way.Pairwise (fun a b => rank a < rank b) ∧
        (∀ name ∈ way.head?, rank name + way.length < maxPending) := by
    intro way text trail
    induction trail with
    | start => exact ⟨List.Pairwise.nil, by simp⟩
    | step before mentions present ih =>
      rename_i way text name value
      obtain ⟨rising, bound⟩ := ih
      cases before with
      | start => exact ⟨List.pairwise_singleton .., by simpa using start mentions present⟩
      | step earlier mentions' present' =>
        rename_i way _ last _
        have below := falls present' mentions present
        have bound := bound last rfl
        refine ⟨List.pairwise_cons.2 ⟨?_, rising⟩, ?_⟩
        · intro a member
          rcases List.mem_cons.1 member with rfl | deeper
          · exact below
          · exact Nat.lt_trans below ((List.pairwise_cons.1 rising).1 a deeper)
        · intro a here
          cases here
          simp only [List.length_cons] at bound ⊢
          omega
  intro way text trail
  obtain ⟨rising, bound⟩ := ranked way text trail
  refine ⟨rising.imp fun lower => ?_, ?_⟩
  · rintro rfl
    exact Nat.lt_irrefl _ lower
  · cases way with
    | nil => decide
    | cons name way =>
      have := bound name rfl
      omega

theorem Shallow.fits (shallow : Shallow lookup cs) (pending : List String) :
    lookup.Fits (maxPending - 1) pending cs := by
  intro way text trail _
  have short := (shallow way text trail).2
  omega

theorem Shallow.roomy {way : List String} {text : List Char} (shallow : Shallow lookup cs)
    (trail : Trail lookup cs way text) : Roomy lookup key way text := by
  intro more target rest _
  have short := (shallow _ _ (trail.append rest)).2
  rwa [List.length_append] at short

/-- The last key of a chain reaches none of the keys before it. -/
theorem Shallow.not_mem_way {way : List String} {text : List Char} (shallow : Shallow lookup cs)
    (trail : Trail lookup cs (name :: way) text) (reaches : Reaches lookup text other) :
    other ∉ way := by
  obtain ⟨more, _, rest⟩ := reaches
  obtain ⟨simple, _⟩ := shallow _ _ (trail.append rest)
  intro passed
  exact (List.nodup_append.1 simple).2.2 other (List.mem_cons_self ..) other
    (List.mem_cons_of_mem _ passed) rfl

theorem Shallow.not_mem_pending {way : List String} {text : List Char}
    (present : lookup key = some value) (shallow : Shallow lookup value.toList)
    (trail : Trail lookup value.toList (name :: way) text) (reaches : Reaches lookup text other) :
    other ∉ way ++ [key] := by
  intro member
  rcases List.mem_append.1 member with passed | start
  · exact shallow.not_mem_way trail reaches passed
  · rw [List.mem_singleton] at start
    subst start
    obtain ⟨more, _, rest⟩ := reaches
    exact shallow.not_reaches present ⟨_, _, trail.append rest⟩

theorem settled_entered (present : lookup key = some value)
    (shallow : Shallow lookup value.toList) :
    Settled lookup (Entered lookup key value.toList) where
  followed := followed_entered
  free := Entered.free
  present := Entered.present
  alike := by
    rintro levels _ levels' _ name ⟨way, _, trail, simple, rfl, depth⟩
      ⟨way', _, trail', simple', rfl, depth'⟩
    obtain ⟨inner, there⟩ := Option.ne_none_iff_exists'.1 trail.present
    obtain rfl := trail.text_eq there
    obtain rfl := trail'.text_eq there
    obtain ⟨l, rfl, fits⟩ := (shallow.roomy trail).fits simple depth
    obtain ⟨l', rfl, fits'⟩ := (shallow.roomy trail').fits simple' depth'
    refine expansion_congr there simple simple' (.inr ⟨fits, fits'⟩) ?_
    -- no pending key is reached again, on either way
    intro n reaches
    exact iff_of_false (shallow.not_mem_pending present trail reaches)
      (shallow.not_mem_pending present trail' reaches)

/-- Interpolation of a value whose chains end needs no memo. -/
theorem interpolate_of_shallow (present : lookup key = some value)
    (shallow : Shallow lookup value.toList) :
    lookup.interpolate key value =
      .ofList (lookup.expandText (maxPending - 1) [key] value.toList) := by
  obtain ⟨text, _⟩ := writeOut_settled (settled_entered present shallow)
    (fun _ => entered_of_mention) sound_nil clean_nil
  exact congrArg String.ofList text

end Lookup

namespace PropertyStore

open Lookup

variable {store : PropertyStore} {key value : String}

/-- Whether `rank` falls along every reference in the values of the store. -/
def isRankedBy (store : PropertyStore) (rank : String → Nat) : Bool :=
  store.entries.all fun (key, value) => (Piece.ofText value.text.toList).all fun
    | .reference name => rank (.ofList name) < rank key
    | _ => true

theorem rank_lt_of_isRankedBy {rank : String → Nat} (ranked : store.isRankedBy rank = true)
    (present : store.raw? key = some value) {name : String}
    (mentions : Mentions value.toList name) : rank name < rank key := by
  obtain ⟨stored, found, rfl⟩ := Option.map_eq_some_iff.1 present
  obtain ⟨front, back, entries, _⟩ := List.lookup_eq_some_iff.1 found
  have here : (key, stored) ∈ store.entries := by
    rw [entries]
    simp
  have falls := List.all_eq_true.1 (List.all_eq_true.1 ranked _ here) _ mentions
  simpa using falls

theorem shallow_of_isRankedBy {rank : String → Nat} (ranked : store.isRankedBy rank = true)
    (low : ∀ name, rank name + 1 < maxPending) (cs : List Char) : Shallow store.raw? cs :=
  shallow_of_rank rank (fun _ _ => low _)
    (fun found mentions _ => rank_lt_of_isRankedBy ranked found mentions)

/-- The text of a key whose chains of references end is its value, every reference to a key that
    is present being replaced by the text of that key. -/
theorem text?_eq_substituted (present : store.raw? key = some value)
    (shallow : Shallow store.raw? value.toList) :
    store.text? key = some (.ofList ((Piece.ofText value.toList).flatMap
      (Piece.substituted fun name => (store.text? name).elim (leftAlone name) String.toList))) := by
  rw [text?, present, Option.map_some, interpolate_of_shallow present shallow]
  refine congrArg (fun cs => some (String.ofList cs)) ?_
  refine Piece.flatMap_substituted_congr fun name mentions => ?_
  cases found : store.raw? name with
  | none =>
    rw [expansion_of_absent found, text?, found]
    rfl
  | some inner =>
    have shallow' := shallow.behind mentions found
    -- the referenced key does not lead back to `key`, so its text is the same by itself
    have unreached : ∀ n, Reaches store.raw? inner.toList n → n ≠ key := by
      rintro n reaches rfl
      exact shallow.not_reaches present (reaches.behind mentions found)
    have free : name ≠ key := by
      rintro rfl
      exact shallow.not_reaches present (Reaches.of_mention mentions found)
    rw [text?, found, Option.map_some, interpolate_of_shallow found shallow', Option.elim_some,
      String.toList_ofList]
    have step : expansion store.raw? (maxPending - 1) [key] name =
        expandText store.raw? (maxPending - 2) [name, key] inner.toList :=
      expansion_succ found (by simpa using free)
    rw [step]
    refine expandText_congr (by simpa using free) (List.pairwise_singleton ..)
      (.inr ⟨?_, shallow'.fits [name]⟩) ?_
    · exact (shallow.fits [key]).behind mentions found
    · intro n reaches
      simp [unreached n reaches]

/-- A key that two other keys refer to, an escaped reference and one to an absent key. -/
def diamond : PropertyStore :=
  [("c", "1"), ("b", "$\x7bc\x7dy"), ("a", "$\x7bc\x7dx"),
    ("k", "$\x7ba\x7d-$\x7bb\x7d $$\x7ba\x7d $\x7bz\x7d")].foldl
    (fun store (key, text) => PropertyStore.set store key text) OrderedMap.empty

/-- The number of references that a chain from a key of `diamond` has at most. -/
def diamondRank (name : String) : Nat :=
  if name = "k" then 2 else if name = "a" ∨ name = "b" then 1 else 0

theorem diamondRank_low (name : String) : diamondRank name + 1 < maxPending := by
  unfold diamondRank
  split
  · decide
  · split <;> decide

theorem text?_eq_substituted_diamond :
    diamond.raw? "k" = some "$\x7ba\x7d-$\x7bb\x7d $$\x7ba\x7d $\x7bz\x7d" ∧
    Shallow diamond.raw? "$\x7ba\x7d-$\x7bb\x7d $$\x7ba\x7d $\x7bz\x7d".toList ∧
    diamond.text? "k" = some "1x-1y $\x7ba\x7d $\x7bz\x7d" := by
  have present : diamond.raw? "k" =
      some "$\x7ba\x7d-$\x7bb\x7d $$\x7ba\x7d $\x7bz\x7d" := rfl
  have ranked : diamond.isRankedBy diamondRank = true := by decide +kernel
  have shallow := shallow_of_isRankedBy ranked diamondRank_low
    "$\x7ba\x7d-$\x7bb\x7d $$\x7ba\x7d $\x7bz\x7d".toList
  refine ⟨present, shallow, (text?_eq_substituted present shallow).trans ?_⟩
  decide +kernel

end PropertyStore

end SegmentCatalog
