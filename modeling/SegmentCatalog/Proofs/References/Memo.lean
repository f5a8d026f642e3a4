import SegmentCatalog.Proofs.References.Expansion

/-! # Expansion with a memo

`Lookup.resolve` threads a memo through the expansion of a text.  The memo cannot be seen in the
outcome as long as every reference that it answers stands for the same text wherever it is met.

* `Situations` are triples of levels left, pending keys and a key to be expanded; a family of
  them is `Followed` if it goes along with the expansion, `Settled` if besides each key stands for
  one text in all its situations;
* `Lookup.resolve_settled` and `Lookup.writeOut_settled`: in a settled family, expansion with a
  sound memo gives what expansion without one gives, and leaves the memo sound;
* `Lookup.lookup_resolve_of_outside`: the memo changes at keys of the family only.
-/

namespace SegmentCatalog

/-! ## Writing out -/

namespace Lookup

variable {lookup : Lookup} {levels : Nat} {pending : List String} {name value : String}
  {pieces : List Piece} {memo : Memo}

/-- Two runs over the same pieces go in step if each reference keeps them in step. -/
theorem writeOut_related {f g : String → Memo → List Char × Memo} {R : Memo → Memo → Prop}
    (step : ∀ name, .reference name ∈ pieces → ∀ m n, R m n →
      (f (.ofList name) m).1 = (g (.ofList name) n).1 ∧
        R (f (.ofList name) m).2 (g (.ofList name) n).2)
    {m n : Memo} (start : R m n) :
    (writeOut f pieces m).1 = (writeOut g pieces n).1 ∧
      R (writeOut f pieces m).2 (writeOut g pieces n).2 := by
  -- along the pieces; only a reference touches the memos
  induction pieces generalizing m n with
  | nil => exact ⟨rfl, start⟩
  | cons piece pieces ih =>
    have later := fun {m n} => ih (m := m) (n := n) fun name member =>
      step name (List.mem_cons_of_mem _ member)
    cases piece with
    | char c =>
      obtain ⟨texts, memos⟩ := later start
      exact ⟨congrArg (c :: ·) texts, memos⟩
    | escaped name =>
      obtain ⟨texts, memos⟩ := later start
      exact ⟨congrArg (Piece.unescaped name ++ ·) texts, memos⟩
    | reference name =>
      obtain ⟨front, between⟩ := step name (List.mem_cons_self ..) m n start
      obtain ⟨texts, memos⟩ := later between
      exact ⟨congrArg₂ (· ++ ·) front texts, memos⟩

/-- A run in which the text of no reference depends on what is remembered, nor adds to it. -/
theorem writeOut_pure {f : String → Memo → List Char × Memo} {g : String → List Char}
    (pure : ∀ name, f name memo = (g name, memo)) :
    writeOut f pieces memo = (pieces.flatMap (Piece.substituted g), memo) := by
  induction pieces with
  | nil => rfl
  | cons piece pieces ih =>
    cases piece with
    | char c => simp only [writeOut, ih]; rfl
    | escaped name => simp only [writeOut, ih]; rfl
    | reference name => simp only [writeOut, pure, ih]; rfl

theorem writeOut_preserves {f : String → Memo → List Char × Memo} {I : Memo → Prop}
    (step : ∀ name, .reference name ∈ pieces → ∀ m, I m → I (f (.ofList name) m).2)
    (start : I memo) : I (writeOut f pieces memo).2 := by
  -- a run goes in step with itself
  have together : ∀ name, .reference name ∈ pieces → ∀ m n, m = n ∧ I m →
      (f (.ofList name) m).1 = (f (.ofList name) n).1 ∧
        ((f (.ofList name) m).2 = (f (.ofList name) n).2 ∧ I (f (.ofList name) m).2) := by
    rintro name member m _ ⟨rfl, keeps⟩
    exact ⟨rfl, rfl, step name member m keeps⟩
  exact (writeOut_related (R := fun m n => m = n ∧ I m) together ⟨rfl, start⟩).2.2

/-! ## One reference -/

/-- A text that is nothing but a reference is written out as its key is resolved. -/
theorem writeOut_leftAlone (filled : name ≠ "") (solid : '}' ∉ name.toList)
    (f : String → Memo → List Char × Memo) :
    writeOut f (Piece.ofText (leftAlone name)) memo = f name memo := by
  have filled' : name.toList ≠ [] := fun empty => filled (String.toList_eq_nil_iff.1 empty)
  have pieces := Piece.ofText_written_append filled' solid (.inl rfl) []
  rw [List.append_nil, Piece.ofText_nil] at pieces
  rw [leftAlone, pieces]
  simp only [writeOut, String.ofList_toList, List.append_nil]

theorem interpolate_leftAlone (filled : name ≠ "") (solid : '}' ∉ name.toList) (key : String) :
    lookup.interpolate key (.ofList (leftAlone name)) =
      .ofList (lookup.resolve (maxPending - 1) [key] name []).1 := by
  rw [interpolate, String.toList_ofList, writeOut_leftAlone filled solid]

theorem resolve_of_memo {text : List Char} (found : memo.lookup name = some text) :
    lookup.resolve levels pending name memo = (text, memo) := by
  cases levels with
  | zero => unfold resolve; simp only [found]
  | succ levels => unfold resolve; simp only [found]

theorem resolve_leftAlone (unknown : memo.lookup name = none)
    (cut : lookup name = none ∨ name ∈ pending ∨ levels = 0) :
    lookup.resolve levels pending name memo = (leftAlone name, memo) := by
  unfold resolve
  cases present : lookup name with
  | none => simp only [unknown]; rfl
  | some value =>
    cases levels with
    | zero => simp only [unknown]; rfl
    | succ levels =>
      have blocked : name ∈ pending := by simpa [present] using cut
      simp only [unknown, if_pos blocked]
      rfl

theorem exists_of_not_blocked (unblocked : ¬ (lookup name = none ∨ name ∈ pending ∨ levels = 0)) :
    ∃ value below, lookup name = some value ∧ name ∉ pending ∧ levels = below + 1 := by
  obtain ⟨there, rest⟩ := not_or.1 unblocked
  obtain ⟨free, more⟩ := not_or.1 rest
  obtain ⟨value, present⟩ := Option.ne_none_iff_exists'.1 there
  obtain ⟨below, same⟩ := Nat.exists_eq_add_one_of_ne_zero more
  exact ⟨value, below, present, free, same⟩

theorem resolve_anew (unknown : memo.lookup name = none) (present : lookup name = some value)
    (free : name ∉ pending) :
    lookup.resolve (levels + 1) pending name memo =
      let out := writeOut (lookup.resolve levels (name :: pending)) (Piece.ofText value.toList) memo
      (out.1, (name, out.1) :: out.2) := by
  rw [resolve.eq_def]
  simp only [unknown, present, if_neg free]

theorem resolve_snd_of_blocked (blocked : lookup name = none ∨ name ∈ pending ∨ levels = 0) :
    (lookup.resolve levels pending name memo).2 = memo := by
  cases found : memo.lookup name with
  | some text => rw [resolve_of_memo found]
  | none => rw [resolve_leftAlone found blocked]

/-! ## Families of situations -/

end Lookup

/-- Levels left, pending keys, and a key that is about to be expanded. -/
abbrev Situations := Nat → List String → String → Prop

/-- With a key, the family has what its value mentions and can be expanded. -/
def Followed (lookup : Lookup) (Q : Situations) : Prop :=
  ∀ {levels pending name value other}, Q (levels + 1) pending name → name ∉ pending →
    lookup name = some value → Mentions value.toList other → lookup other ≠ none →
    other ∉ name :: pending → Q levels (name :: pending) other

namespace Lookup

variable {lookup : Lookup} {levels : Nat} {pending : List String} {name value other : String}
  {memo : Memo} {Q : Situations}

/-- What each key of the family may be added to without harm survives an expansion. -/
theorem resolve_preserves {I : Memo → Prop} (followed : Followed lookup Q)
    (adds : ∀ {levels pending name text memo}, Q levels pending name → name ∉ pending →
      lookup name ≠ none → I memo → I ((name, text) :: memo))
    (inside : Q levels pending name) (start : I memo) :
    I (lookup.resolve levels pending name memo).2 := by
  induction levels generalizing pending name memo with
  | zero => rwa [resolve_snd_of_blocked (.inr (.inr rfl))]
  | succ levels ih =>
    cases found : memo.lookup name with
    | some text => rwa [resolve_of_memo found]
    | none =>
      cases present : lookup name with
      | none => rwa [resolve_snd_of_blocked (.inl present)]
      | some value =>
        by_cases free : name ∈ pending
        · rwa [resolve_snd_of_blocked (.inr (.inl free))]
        · rw [resolve_anew found present free]
          -- the value is written out first, and the key is added when that is done
          refine adds inside free (by simp [present]) (writeOut_preserves ?_ start)
          intro other member m keeps
          by_cases blocked : lookup (.ofList other) = none ∨ .ofList other ∈ name :: pending
          · rwa [resolve_snd_of_blocked (blocked.imp_right .inl)]
          · obtain ⟨there, fresh⟩ := not_or.1 blocked
            refine ih (followed inside free present ?_ there fresh) keeps
            rwa [Mentions, String.toList_ofList]

/-- The memo has no key that is pending or absent. -/
def Clean (lookup : Lookup) (pending : List String) (memo : Memo) : Prop :=
  ∀ name, name ∈ pending ∨ lookup name = none → memo.lookup name = none

theorem Clean.resolve {within : List String} (clean : Clean lookup pending memo)
    (subset : pending ⊆ within) :
    Clean lookup pending (lookup.resolve levels within name memo).2 := by
  -- only keys that are not pending are added, and fewer keys are pending outside than within
  refine resolve_preserves (Q := fun _ within _ => pending ⊆ within) ?_ ?_ subset clean
  · intro levels within name value other subset _ _ _ _ _
    exact List.subset_cons_of_subset name subset
  · intro levels within name text memo subset free present clean n blocked
    have apart : n ≠ name := by
      rintro rfl
      rcases blocked with member | absent
      · exact free (subset member)
      · exact present absent
    rw [List.lookup_cons, beq_false_of_ne apart]
    exact clean n blocked

/-- An expansion remembers nothing of the keys outside its family. -/
theorem lookup_resolve_of_outside (followed : Followed lookup Q)
    (inside : Q levels pending name) (outside : ∀ levels pending, ¬ Q levels pending other) :
    (lookup.resolve levels pending name memo).2.lookup other = memo.lookup other := by
  refine resolve_preserves (I := fun m => m.lookup other = memo.lookup other) followed ?_ inside
    rfl
  intro levels pending name text m inside _ _ keeps
  have apart : other ≠ name := by
    rintro rfl
    exact outside levels pending inside
  rw [List.lookup_cons, beq_false_of_ne apart]
  exact keeps

/-! ## Settled families -/

/-- A family of keys that are present and not pending, each of which stands for the same text
    wherever it is met. -/
structure Settled (lookup : Lookup) (Q : Situations) : Prop where
  followed : Followed lookup Q
  free : ∀ {levels pending name}, Q levels pending name → name ∉ pending
  present : ∀ {levels pending name}, Q levels pending name → lookup name ≠ none
  alike : ∀ {levels pending levels' pending' name}, Q levels pending name →
    Q levels' pending' name →
    lookup.expansion levels pending name = lookup.expansion levels' pending' name

/-- What the memo holds of a key of the family is the text that the key stands for. -/
def Sound (lookup : Lookup) (Q : Situations) (memo : Memo) : Prop :=
  ∀ levels pending name text, Q levels pending name → memo.lookup name = some text →
    text = lookup.expansion levels pending name

theorem sound_nil : Sound lookup Q [] := by
  intro _ _ _ _ _ found
  cases found

theorem Sound.cons (sound : Sound lookup Q memo) {text : List Char}
    (right : ∀ levels pending, Q levels pending name →
      text = lookup.expansion levels pending name) :
    Sound lookup Q ((name, text) :: memo) := by
  intro levels pending n out inside found
  rw [List.lookup_cons] at found
  by_cases here : n = name
  · subst here
    rw [beq_self_eq_true] at found
    cases found
    exact right levels pending inside
  · rw [beq_false_of_ne here] at found
    exact sound levels pending n out inside found

theorem clean_nil : Clean lookup pending [] := fun _ _ => rfl

theorem Clean.cons (clean : Clean lookup pending memo) (unknown : memo.lookup name = none) :
    Clean lookup (name :: pending) memo := by
  rintro n (member | absent)
  -- the key that becomes pending has just been looked up in vain
  · rcases List.mem_cons.1 member with rfl | earlier
    · exact unknown
    · exact clean n (.inl earlier)
  · exact clean n (.inr absent)

/-- A text is written out alike with a clean memo and with `g` if `g` leaves alone what cannot be
    followed and every other reference is resolved alike. -/
theorem writeOut_covered (levels : Nat) (cs : List Char) {g : String → Memo → List Char × Memo}
    {R : Memo → Memo → Prop} (clean : ∀ {m n}, R m n → Clean lookup pending m)
    (leaves : ∀ {name m n}, R m n → lookup name = none ∨ name ∈ pending →
      g name n = (leftAlone name, n))
    (each : ∀ {name m n}, Mentions cs name → lookup name ≠ none → name ∉ pending → R m n →
      (lookup.resolve levels pending name m).1 = (g name n).1 ∧
        R (lookup.resolve levels pending name m).2 (g name n).2)
    {m n : Memo} (start : R m n) :
    (writeOut (lookup.resolve levels pending) (Piece.ofText cs) m).1 =
        (writeOut g (Piece.ofText cs) n).1 ∧
      R (writeOut (lookup.resolve levels pending) (Piece.ofText cs) m).2
        (writeOut g (Piece.ofText cs) n).2 := by
  refine writeOut_related (fun name member m n related => ?_) start
  have mentions : Mentions cs (.ofList name) := by rwa [Mentions, String.toList_ofList]
  by_cases absent : lookup (.ofList name) = none
  · rw [leaves related (.inl absent),
      resolve_leftAlone (clean related _ (.inr absent)) (.inl absent)]
    exact ⟨rfl, related⟩
  · by_cases cut : .ofList name ∈ pending
    · rw [leaves related (.inr cut),
        resolve_leftAlone (clean related _ (.inl cut)) (.inr (.inl cut))]
      exact ⟨rfl, related⟩
    · exact each mentions absent cut related

theorem writeOut_of_resolve {cs : List Char}
    (each : ∀ {name memo}, Q levels pending name → Sound lookup Q memo →
      Clean lookup pending memo →
      (lookup.resolve levels pending name memo).1 = lookup.expansion levels pending name ∧
        Sound lookup Q (lookup.resolve levels pending name memo).2)
    (covers : ∀ name, Mentions cs name → lookup name ≠ none → name ∉ pending →
      Q levels pending name)
    (sound : Sound lookup Q memo) (clean : Clean lookup pending memo) :
    (writeOut (lookup.resolve levels pending) (Piece.ofText cs) memo).1 =
        lookup.expandText levels pending cs ∧
      Sound lookup Q (writeOut (lookup.resolve levels pending) (Piece.ofText cs) memo).2 ∧
      Clean lookup pending (writeOut (lookup.resolve levels pending) (Piece.ofText cs) memo).2 := by
  have alone : writeOut (fun name memo => (lookup.expansion levels pending name, memo))
      (Piece.ofText cs) memo = (lookup.expandText levels pending cs, memo) :=
    writeOut_pure fun _ => rfl
  have together := writeOut_covered levels cs
    (g := fun name memo => (lookup.expansion levels pending name, memo))
    (R := fun m _ => Sound lookup Q m ∧ Clean lookup pending m) And.right ?_ ?_ (n := memo)
    ⟨sound, clean⟩
  · rwa [alone] at together
  · rintro name _ _ - (absent | cut)
    · rw [expansion_of_absent absent]
    · rw [expansion_of_pending cut]
  · rintro name m _ mentions there fresh ⟨sound, clean⟩
    obtain ⟨text, sound'⟩ := each (covers name mentions there fresh) sound clean
    exact ⟨text, sound', clean.resolve (List.Subset.refl _)⟩

theorem resolve_settled (settled : Settled lookup Q) (inside : Q levels pending name)
    (sound : Sound lookup Q memo) (clean : Clean lookup pending memo) :
    (lookup.resolve levels pending name memo).1 = lookup.expansion levels pending name ∧
      Sound lookup Q (lookup.resolve levels pending name memo).2 := by
  -- one level is spent per key, and the family follows to the keys that its value mentions
  induction levels using Nat.strong_induction_on generalizing pending name memo with
  | h levels ih =>
    cases found : memo.lookup name with
    | some text =>
      rw [resolve_of_memo found]
      exact ⟨sound _ _ _ _ inside found, sound⟩
    | none =>
      cases levels with
      | zero =>
        rw [resolve_leftAlone found (.inr (.inr rfl))]
        exact ⟨rfl, sound⟩
      | succ levels =>
        obtain ⟨value, present⟩ := Option.ne_none_iff_exists'.1 (settled.present inside)
        have free := settled.free inside
        obtain ⟨text, sound', _⟩ := writeOut_of_resolve (ih levels (Nat.lt_succ_self _))
          (fun other mentions there fresh =>
            settled.followed inside free present mentions there fresh)
          sound (clean.cons found)
        have right : (writeOut (lookup.resolve levels (name :: pending))
            (Piece.ofText value.toList) memo).1 = lookup.expansion (levels + 1) pending name := by
          rw [text, expansion_succ present free]
        rw [resolve_anew found present free]
        -- what is remembered holds wherever else the key is met
        exact ⟨right, sound'.cons fun _ _ again => right.trans (settled.alike inside again)⟩

theorem writeOut_settled {cs : List Char} (settled : Settled lookup Q)
    (covers : ∀ name, Mentions cs name → lookup name ≠ none → name ∉ pending →
      Q levels pending name)
    (sound : Sound lookup Q memo) (clean : Clean lookup pending memo) :
    (writeOut (lookup.resolve levels pending) (Piece.ofText cs) memo).1 =
        lookup.expandText levels pending cs ∧
      Sound lookup Q (writeOut (lookup.resolve levels pending) (Piece.ofText cs) memo).2 ∧
      Clean lookup pending (writeOut (lookup.resolve levels pending) (Piece.ofText cs) memo).2 :=
  writeOut_of_resolve (resolve_settled settled) covers sound clean

end Lookup

end SegmentCatalog
