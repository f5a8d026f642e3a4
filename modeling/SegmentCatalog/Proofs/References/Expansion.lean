import SegmentCatalog.Proofs.References.Trails

/-! # Expansion without a memo

`Lookup.expansion` follows references as `Lookup.resolve` does, but remembers nothing: what a
reference stands for depends on the keys that are pending and on the levels left.

`Lookup.expandText_congr` says how little it depends on them: two ways of arriving at a text give
the same expansion if the same pending keys can be reached from it, and if as many levels are left
or no chain of references from it runs out of them.
-/

namespace SegmentCatalog

/-- The text of a piece, references being replaced by `f`. -/
def Piece.substituted (f : String → List Char) : Piece → List Char
  | char c => [c]
  | escaped name => unescaped name
  | reference name => f (.ofList name)

theorem Piece.flatMap_substituted_congr {cs : List Char} {f g : String → List Char}
    (same : ∀ name, Mentions cs name → f name = g name) :
    (ofText cs).flatMap (substituted f) = (ofText cs).flatMap (substituted g) := by
  rw [List.flatMap_def, List.flatMap_def]
  congr 1
  refine List.map_congr_left fun piece member => ?_
  cases piece with
  | char c => rfl
  | escaped name => rfl
  | reference name => exact same _ (by rwa [Mentions, String.toList_ofList])

namespace Lookup

/-- A reference as it stands in a text. -/
def leftAlone (name : String) : List Char := Piece.written (.reference name.toList)

/-- The text of a reference to `name`, worked out anew each time. -/
def expansion (lookup : Lookup) : Nat → List String → String → List Char
  | 0, _, name => leftAlone name
  | levels + 1, pending, name =>
    match lookup name with
    | some value =>
      if name ∈ pending then leftAlone name
      else (Piece.ofText value.toList).flatMap
        (Piece.substituted (expansion lookup levels (name :: pending)))
    | none => leftAlone name

/-- A text with its references expanded. -/
def expandText (lookup : Lookup) (levels : Nat) (pending : List String) (cs : List Char) :
    List Char :=
  (Piece.ofText cs).flatMap (Piece.substituted (lookup.expansion levels pending))

/-- No chain of references from `cs` that repeats no key is longer than `levels`. -/
def Fits (lookup : Lookup) (levels : Nat) (pending : List String) (cs : List Char) : Prop :=
  ∀ way text, Trail lookup cs way text → (way ++ pending).Nodup → way.length ≤ levels

variable {lookup : Lookup} {levels levels' : Nat} {pending pending' : List String}
  {name value : String} {cs : List Char}

theorem expansion_of_absent (absent : lookup name = none) :
    lookup.expansion levels pending name = leftAlone name := by
  cases levels with
  | zero => rfl
  | succ levels => rw [expansion, absent]

theorem expansion_of_pending (cut : name ∈ pending) :
    lookup.expansion levels pending name = leftAlone name := by
  cases levels with
  | zero => rfl
  | succ levels =>
    rw [expansion]
    cases lookup name with
    | none => rfl
    | some value => exact if_pos cut

theorem expansion_succ (present : lookup name = some value) (free : name ∉ pending) :
    lookup.expansion (levels + 1) pending name =
      lookup.expandText levels (name :: pending) value.toList := by
  rw [expansion, present]
  exact if_neg free

theorem Fits.behind (fits : lookup.Fits (levels + 1) pending cs) (mentions : Mentions cs name)
    (present : lookup name = some value) : lookup.Fits levels (name :: pending) value.toList := by
  intro way text trail simple
  have longer := fits (way ++ [name]) text (trail.behind mentions present)
    (by rwa [List.append_assoc, List.singleton_append])
  rw [List.length_append, List.length_singleton] at longer
  omega

theorem Fits.positive (fits : lookup.Fits levels pending cs) (simple : pending.Nodup)
    (mentions : Mentions cs name) (present : lookup name = some value) (free : name ∉ pending) :
    0 < levels :=
  fits [name] _ (Trail.of_mention mentions present) (List.nodup_cons.2 ⟨free, simple⟩)

theorem expandText_congr (simple : pending.Nodup) (simple' : pending'.Nodup)
    (enough : levels = levels' ∨
      (lookup.Fits levels pending cs ∧ lookup.Fits levels' pending' cs))
    (same : ∀ n, Reaches lookup cs n → (n ∈ pending ↔ n ∈ pending')) :
    lookup.expandText levels pending cs = lookup.expandText levels' pending' cs := by
  induction levels using Nat.strong_induction_on generalizing levels' pending pending' cs with
  | h levels ih =>
    refine Piece.flatMap_substituted_congr fun name mentions => ?_
    cases present : lookup name with
    | none => rw [expansion_of_absent present, expansion_of_absent present]
    | some value =>
      have alike := same name (Reaches.of_mention mentions present)
      -- a pending key is left alone here and there, for it is reached from `cs`
      by_cases cut : name ∈ pending
      · rw [expansion_of_pending cut, expansion_of_pending (alike.1 cut)]
      · have cut' : name ∉ pending' := fun member => cut (alike.2 member)
        -- without levels it is left alone as well, and otherwise expanded with one level less
        have step : (levels = 0 ∧ levels' = 0) ∨ ∃ l l', levels = l + 1 ∧ levels' = l' + 1 ∧
            (l = l' ∨ (lookup.Fits l (name :: pending) value.toList ∧
              lookup.Fits l' (name :: pending') value.toList)) := by
          rcases enough with rfl | ⟨fits, fits'⟩
          · cases levels with
            | zero => exact .inl ⟨rfl, rfl⟩
            | succ l => exact .inr ⟨l, l, rfl, rfl, .inl rfl⟩
          · obtain ⟨l, rfl⟩ := Nat.exists_eq_add_one_of_ne_zero
              (fits.positive simple mentions present cut).ne'
            obtain ⟨l', rfl⟩ := Nat.exists_eq_add_one_of_ne_zero
              (fits'.positive simple' mentions present cut').ne'
            exact .inr ⟨l, l', rfl, rfl,
              .inr ⟨fits.behind mentions present, fits'.behind mentions present⟩⟩
        rcases step with ⟨rfl, rfl⟩ | ⟨l, l', rfl, rfl, deeper⟩
        · rfl
        · rw [expansion_succ present cut, expansion_succ present cut']
          refine ih l (Nat.lt_succ_self l) (List.nodup_cons.2 ⟨cut, simple⟩)
            (List.nodup_cons.2 ⟨cut', simple'⟩) deeper ?_
          intro n reaches
          rw [List.mem_cons, List.mem_cons, same n (reaches.behind mentions present)]

theorem expansion_congr (present : lookup name = some value) (simple : (name :: pending).Nodup)
    (simple' : (name :: pending').Nodup)
    (enough : levels = levels' ∨ (lookup.Fits levels (name :: pending) value.toList ∧
      lookup.Fits levels' (name :: pending') value.toList))
    (same : ∀ n, Reaches lookup value.toList n → (n ∈ pending ↔ n ∈ pending')) :
    lookup.expansion (levels + 1) pending name = lookup.expansion (levels' + 1) pending' name := by
  rw [expansion_succ present (List.nodup_cons.1 simple).1,
    expansion_succ present (List.nodup_cons.1 simple').1]
  refine expandText_congr simple simple' enough fun n reaches => ?_
  rw [List.mem_cons, List.mem_cons, same n reaches]

end Lookup

end SegmentCatalog
