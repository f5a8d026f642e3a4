import SegmentCatalog.Proofs.References.Pieces

/-! # Chains of references

A chain of references starts from a text; each reference of it stands in the value of the key
before.  `Trail` lists the keys that a chain passes, the last one first, together with the text
that it ends in.

* `Trail.append` joins chains, `Trail.of_mention` is the chain of one reference;
* `Reaches` says that some chain ends in a key.

Only references to keys that are present count: the others lead nowhere.
-/

namespace SegmentCatalog

/-- The text has a reference to `name`. -/
def Mentions (cs : List Char) (name : String) : Prop :=
  Piece.reference name.toList ∈ Piece.ofText cs

/-- A chain of references from `cs` to the text in which it ends. -/
inductive Trail (lookup : Lookup) (cs : List Char) : List String → List Char → Prop
  | start : Trail lookup cs [] cs
  | step {way : List String} {text : List Char} {name value : String} :
      Trail lookup cs way text → Mentions text name → lookup name = some value →
      Trail lookup cs (name :: way) value.toList

/-- Some chain of references from `cs` ends in `name`. -/
def Reaches (lookup : Lookup) (cs : List Char) (name : String) : Prop :=
  ∃ way text, Trail lookup cs (name :: way) text

variable {lookup : Lookup} {cs text target : List Char} {way more : List String}
  {name other value : String}

namespace Trail

theorem append (first : Trail lookup cs way text) (second : Trail lookup text more target) :
    Trail lookup cs (more ++ way) target := by
  induction second with
  | start => exact first
  | step _ mentions present ih => exact ih.step mentions present

theorem of_mention (mentions : Mentions cs name) (present : lookup name = some value) :
    Trail lookup cs [name] value.toList :=
  start.step mentions present

theorem behind (mentions : Mentions cs name) (present : lookup name = some value)
    (rest : Trail lookup value.toList way text) : Trail lookup cs (way ++ [name]) text :=
  (of_mention mentions present).append rest

theorem present (trail : Trail lookup cs (name :: way) text) : lookup name ≠ none := by
  cases trail with
  | step _ _ present => exact present ▸ Option.some_ne_none _

/-- A chain ends in the value of its last key. -/
theorem text_eq (trail : Trail lookup cs (name :: way) text) (present : lookup name = some value) :
    text = value.toList := by
  cases trail with
  | step _ _ found =>
    rw [present] at found
    cases found
    rfl

/-- A chain goes through each of its keys. -/
theorem reaches_of_mem (trail : Trail lookup cs way text) (member : name ∈ way) :
    Reaches lookup cs name := by
  induction trail with
  | start => cases member
  | step before mentions present ih =>
    rcases List.mem_cons.1 member with rfl | earlier
    · exact ⟨_, _, before.step mentions present⟩
    · exact ih earlier

end Trail

namespace Reaches

theorem of_mention (mentions : Mentions cs name) (present : lookup name = some value) :
    Reaches lookup cs name :=
  ⟨[], _, Trail.of_mention mentions present⟩

theorem behind (mentions : Mentions cs name) (present : lookup name = some value)
    (reaches : Reaches lookup value.toList other) : Reaches lookup cs other := by
  obtain ⟨way, text, trail⟩ := reaches
  exact ⟨_, _, trail.behind mentions present⟩

end Reaches

end SegmentCatalog
