import SegmentCatalog.Proofs.References.Compositional

/-! # Lists and their texts

The text of a list joins the items by commas.  It is expanded as a whole, with one memo, while
the items of the list are expanded one by one, each with a memo of its own.  The outcomes agree
if whatever two items lead to stands for the same text in both (`Lookup.Alike`):
`PropertyStore.text?_eq_intercalate_list`.

Two expansions of one item are compared along their way, one with the memo that the items before
it have left and one without.  At a key that an earlier item leads to, both give the text that
the key stands for; at every other key the two memos agree.
-/

namespace SegmentCatalog

namespace Lookup

variable {lookup : Lookup} {levels : Nat} {pending : List String} {key name value : String}
  {m n : Memo} {Q T : Situations}

/-! ## Two memos -/

/-- Both memos are sound for `Q`, and on the keys of `T` that are not in `Q` they agree. -/
structure Interchangeable (lookup : Lookup) (Q T : Situations) (m n : Memo) : Prop where
  left : Sound lookup Q m
  right : Sound lookup Q n
  same : ∀ {levels pending name}, T levels pending name →
    (∀ levels pending, ¬ Q levels pending name) → m.lookup name = n.lookup name

theorem Interchangeable.cons (related : Interchangeable lookup Q T m n)
    (outside : ∀ levels pending, ¬ Q levels pending name) (text : List Char) :
    Interchangeable lookup Q T ((name, text) :: m) ((name, text) :: n) where
  left := related.left.cons fun _ _ inside => absurd inside (outside _ _)
  right := related.right.cons fun _ _ inside => absurd inside (outside _ _)
  same := by
    intro levels pending other inside unshared
    rw [List.lookup_cons, List.lookup_cons, related.same inside unshared]

theorem writeOut_of_interchangeable {cs : List Char}
    (each : ∀ {name m n}, T levels pending name → Interchangeable lookup Q T m n →
      Clean lookup pending m → Clean lookup pending n →
      (lookup.resolve levels pending name m).1 = (lookup.resolve levels pending name n).1 ∧
        Interchangeable lookup Q T (lookup.resolve levels pending name m).2
          (lookup.resolve levels pending name n).2)
    (covers : ∀ name, Mentions cs name → lookup name ≠ none → name ∉ pending →
      T levels pending name)
    (related : Interchangeable lookup Q T m n) (left : Clean lookup pending m)
    (right : Clean lookup pending n) :
    (writeOut (lookup.resolve levels pending) (Piece.ofText cs) m).1 =
        (writeOut (lookup.resolve levels pending) (Piece.ofText cs) n).1 ∧
      Interchangeable lookup Q T
        (writeOut (lookup.resolve levels pending) (Piece.ofText cs) m).2
        (writeOut (lookup.resolve levels pending) (Piece.ofText cs) n).2 := by
  have together := writeOut_covered levels cs (g := lookup.resolve levels pending)
    (R := fun m n => Interchangeable lookup Q T m n ∧ Clean lookup pending m ∧
      Clean lookup pending n) (fun related => related.2.1) ?_ ?_ ⟨related, left, right⟩
  · exact ⟨together.1, together.2.1⟩
  -- what cannot be followed is in neither memo
  · rintro name _ n ⟨_, _, right⟩ blocked
    exact resolve_leftAlone (right name blocked.symm) (blocked.imp_right .inl)
  · rintro name m n mentions there fresh ⟨related, left, right⟩
    obtain ⟨texts, related'⟩ := each (covers name mentions there fresh) related left right
    exact ⟨texts, related', left.resolve (List.Subset.refl _),
      right.resolve (List.Subset.refl _)⟩

/-- At a key of `Q` both memos give what the key stands for, and change at keys of `Q` only. -/
theorem resolve_interchangeable_of_settled (settled : Settled lookup Q)
    (here : Q levels pending name) (related : Interchangeable lookup Q T m n)
    (left : Clean lookup pending m) (right : Clean lookup pending n) :
    (lookup.resolve levels pending name m).1 = (lookup.resolve levels pending name n).1 ∧
      Interchangeable lookup Q T (lookup.resolve levels pending name m).2
        (lookup.resolve levels pending name n).2 := by
  obtain ⟨text, sound⟩ := resolve_settled settled here related.left left
  obtain ⟨text', sound'⟩ := resolve_settled settled here related.right right
  refine ⟨text.trans text'.symm, sound, sound', fun {_ _ other} reached unshared => ?_⟩
  rw [lookup_resolve_of_outside settled.followed here unshared,
    lookup_resolve_of_outside settled.followed here unshared]
  exact related.same reached unshared

theorem resolve_interchangeable (settled : Settled lookup Q) (followed : Followed lookup T)
    (open_ : ∀ {levels pending name}, T levels pending name →
      name ∉ pending ∧ lookup name ≠ none)
    (shared : ∀ {levels pending levels' pending' name}, T levels pending name →
      Q levels' pending' name → Q levels pending name)
    (inside : T levels pending name) (related : Interchangeable lookup Q T m n)
    (left : Clean lookup pending m) (right : Clean lookup pending n) :
    (lookup.resolve levels pending name m).1 = (lookup.resolve levels pending name n).1 ∧
      Interchangeable lookup Q T (lookup.resolve levels pending name m).2
        (lookup.resolve levels pending name n).2 := by
  induction levels using Nat.strong_induction_on generalizing pending name m n with
  | h levels ih =>
    by_cases met : ∃ levels pending, Q levels pending name
    · obtain ⟨_, _, elsewhere⟩ := met
      exact resolve_interchangeable_of_settled settled (shared inside elsewhere) related left right
    -- a key that only this item leads to is looked up alike in both memos
    · have unshared : ∀ levels pending, ¬ Q levels pending name :=
        fun _ _ elsewhere => met ⟨_, _, elsewhere⟩
      have same := related.same inside unshared
      cases found : m.lookup name with
      | some text =>
        rw [resolve_of_memo found, resolve_of_memo (same ▸ found)]
        exact ⟨rfl, related⟩
      | none =>
        have found' : n.lookup name = none := same ▸ found
        cases levels with
        | zero =>
          rw [resolve_leftAlone found (.inr (.inr rfl)), resolve_leftAlone found' (.inr (.inr rfl))]
          exact ⟨rfl, related⟩
        | succ levels =>
          obtain ⟨free, there⟩ := open_ inside
          obtain ⟨value, present⟩ := Option.ne_none_iff_exists'.1 there
          obtain ⟨texts, related'⟩ := writeOut_of_interchangeable (ih levels (Nat.lt_succ_self _))
            (fun other mentions there fresh => followed inside free present mentions there fresh)
            related (left.cons found) (right.cons found')
          rw [resolve_anew found present free, resolve_anew found' present free]
          dsimp only
          rw [texts]
          exact ⟨rfl, related'.cons unshared _⟩

/-! ## What two items share -/

/-- A chain that the expansion of `cs`, a text of `key`, may go along to `name`: it repeats no key,
    does not pass `key`, and has no more references than can be looked at. -/
def Passes (lookup : Lookup) (key : String) (cs : List Char) (name : String)
    (way : List String) : Prop :=
  ∃ text, Trail lookup cs (name :: way) text ∧ (name :: (way ++ [key])).Nodup ∧
    way.length < maxPending

/-- Behind two ways to `name`, whose text is `cs`, the same goes on: of the keys passed before, the
    same ones can be reached again, and the ways are equally long or nothing is cut for its
    length. -/
structure Parallel (lookup : Lookup) (key name : String) (cs : List Char)
    (wayA wayB : List String) : Prop where
  again : ∀ other, Reaches lookup cs other → (other ∈ wayA ↔ other ∈ wayB)
  enough : wayA.length = wayB.length ∨
    (Roomy lookup key (name :: wayA) cs ∧ Roomy lookup key (name :: wayB) cs)

/-- Whatever chains from `a` and from `b` both lead to is expanded alike behind either. -/
def Alike (lookup : Lookup) (key : String) (a b : List Char) : Prop :=
  ∀ name value wayA wayB, lookup name = some value → Passes lookup key a name wayA →
    Passes lookup key b name wayB → Parallel lookup key name value.toList wayA wayB

/-- The situations in which an expansion of one of `items` comes to a key that two of them lead
    to. -/
def Shared (lookup : Lookup) (key : String) (items : List (List Char)) : Situations :=
  fun levels pending name =>
    (∃ a b, [a, b].Sublist items ∧ (∃ way, Passes lookup key a name way) ∧
      ∃ way, Passes lookup key b name way) ∧
    ∃ item ∈ items, Entered lookup key item levels pending name

variable {items : List (List Char)} {a b cs : List Char} {way wayA wayB wayC : List String}
  {other : String}

theorem Entered.passes (entered : Entered lookup key cs levels pending name) :
    ∃ way, Passes lookup key cs name way ∧ pending = way ++ [key] ∧
      levels + way.length = maxPending - 1 := by
  obtain ⟨way, text, trail, simple, rfl, depth⟩ := entered
  have positive : 0 < maxPending := by decide
  exact ⟨way, ⟨text, trail, simple, by omega⟩, rfl, depth⟩

theorem Passes.simple (passes : Passes lookup key cs name way) :
    (name :: (way ++ [key])).Nodup := by
  obtain ⟨_, _, simple, _⟩ := passes
  exact simple

/-- A chain behind one of two parallel ways that are equally long is a chain behind the other. -/
theorem Roomy.of_again (roomy : Roomy lookup key (name :: wayB) cs)
    (simple : (name :: (wayB ++ [key])).Nodup)
    (again : ∀ other, Reaches lookup cs other → (other ∈ wayA ↔ other ∈ wayB))
    (long : wayA.length = wayB.length) : Roomy lookup key (name :: wayA) cs := by
  intro more text trail apart
  obtain ⟨distinct, _, disjoint⟩ := List.nodup_append.1 apart
  have moved : (more ++ (name :: wayB ++ [key])).Nodup := by
    refine List.nodup_append.2 ⟨distinct, simple, fun other later n earlier => ?_⟩
    rintro rfl
    -- a key that is passed on the way to `name` and again behind it is passed on both ways
    have onB : other ∈ name :: wayA ++ [key] := by
      have same := again other (trail.reaches_of_mem later)
      simp only [List.cons_append, List.mem_cons, List.mem_append] at earlier ⊢
      rwa [same]
    exact disjoint other later other onB rfl
  have short := roomy more text trail moved
  rw [List.length_cons] at short ⊢
  rwa [long]

theorem Parallel.symm (parallel : Parallel lookup key name cs wayA wayB) :
    Parallel lookup key name cs wayB wayA where
  again other reaches := (parallel.again other reaches).symm
  enough := parallel.enough.imp Eq.symm And.symm

theorem Parallel.trans (first : Parallel lookup key name cs wayA wayB)
    (second : Parallel lookup key name cs wayB wayC) (simple : (name :: (wayB ++ [key])).Nodup) :
    Parallel lookup key name cs wayA wayC where
  again other reaches := (first.again other reaches).trans (second.again other reaches)
  enough := by
    rcases first.enough with long | ⟨roomyA, roomyB⟩
    · rcases second.enough with long' | ⟨roomyB, roomyC⟩
      · exact .inl (long.trans long')
      · exact .inr ⟨roomyB.of_again simple first.again long, roomyC⟩
    · rcases second.enough with long' | ⟨_, roomyC⟩
      · exact .inr ⟨roomyA, roomyB.of_again simple second.symm.again long'.symm⟩
      · exact .inr ⟨roomyA, roomyC⟩

theorem Alike.symm (alike : Alike lookup key a b) : Alike lookup key b a := by
  intro name value wayB wayA present passesB passesA
  exact (alike name value wayA wayB present passesA passesB).symm

theorem Parallel.expansion_eq {levels' : Nat}
    (parallel : Parallel lookup key name value.toList wayA wayB)
    (present : lookup name = some value) (simpleA : (name :: (wayA ++ [key])).Nodup)
    (simpleB : (name :: (wayB ++ [key])).Nodup) (depthA : levels + wayA.length = maxPending - 1)
    (depthB : levels' + wayB.length = maxPending - 1) :
    lookup.expansion levels (wayA ++ [key]) name =
      lookup.expansion levels' (wayB ++ [key]) name := by
  have same : ∀ other, Reaches lookup value.toList other →
      (other ∈ wayA ++ [key] ↔ other ∈ wayB ++ [key]) := by
    intro other reaches
    rw [List.mem_append, List.mem_append, parallel.again other reaches]
  rcases parallel.enough with long | ⟨roomyA, roomyB⟩
  · obtain rfl : levels = levels' := by omega
    cases levels with
    | zero => rfl
    | succ levels => exact expansion_congr present simpleA simpleB (.inl rfl) same
  · obtain ⟨l, rfl, fits⟩ := roomyA.fits simpleA depthA
    obtain ⟨l', rfl, fits'⟩ := roomyB.fits simpleB depthB
    exact expansion_congr present simpleA simpleB (.inr ⟨fits, fits'⟩) same

/-- One of two related items at different places is related to whatever item there is. -/
theorem related_of_pair {α : Type} {R : α → α → Prop} {l : List α} {a b x : α}
    (symmetric : ∀ {x y}, R x y → R y x) (pairwise : l.Pairwise R) (pair : [a, b].Sublist l)
    (member : x ∈ l) : R x a ∨ R x b := by
  induction l with
  | nil => cases member
  | cons c l ih =>
    obtain ⟨first, rest⟩ := List.pairwise_cons.1 pairwise
    rcases List.mem_cons.1 member with rfl | later
    · cases pair with
      | cons _ pair => exact .inl (first a (pair.subset (List.mem_cons_self ..)))
      | cons_cons _ pair => exact .inr (first b (pair.subset (List.mem_cons_self ..)))
    · cases pair with
      | cons _ pair => exact ih rest pair later
      | cons_cons _ pair => exact .inl (symmetric (first x later))

theorem alike_of_shallow (shallowA : Shallow lookup a) (shallowB : Shallow lookup b) :
    Alike lookup key a b := by
  intro name value wayA wayB present ⟨_, trailA, _⟩ ⟨_, trailB, _⟩
  obtain rfl := trailA.text_eq present
  obtain rfl := trailB.text_eq present
  exact ⟨fun other reaches => iff_of_false (shallowA.not_mem_way trailA reaches)
    (shallowB.not_mem_way trailB reaches), .inr ⟨shallowA.roomy trailA, shallowB.roomy trailB⟩⟩

/-- All ways from the items to a key that two of them lead to are parallel. -/
theorem parallel_of_shared (pairwise : items.Pairwise (Alike lookup key))
    (present : lookup name = some value) (pair : [a, b].Sublist items)
    (passesA : Passes lookup key a name wayA) (passesB : Passes lookup key b name wayB)
    (member : cs ∈ items) (passes : Passes lookup key cs name way) :
    Parallel lookup key name value.toList way wayA := by
  have alikeAB := List.pairwise_iff_forall_sublist.1 pairwise pair
  rcases related_of_pair Alike.symm pairwise pair member with alikeA | alikeB
  · exact alikeA _ _ _ _ present passes passesA
  · have first := alikeB _ _ _ _ present passes passesB
    have second := alikeAB _ _ _ _ present passesA passesB
    exact first.trans second.symm passesB.simple

theorem Passes.step (passes : Passes lookup key a name way) (present : lookup name = some value)
    (mentions : Mentions value.toList other) (there : lookup other ≠ none)
    (fresh : other ∉ name :: (way ++ [key])) (short : way.length + 1 < maxPending) :
    Passes lookup key a other (name :: way) := by
  obtain ⟨_, trail, simple, _⟩ := passes
  obtain ⟨inner, present'⟩ := Option.ne_none_iff_exists'.1 there
  obtain rfl := trail.text_eq present
  exact ⟨_, trail.step mentions present', List.nodup_cons.2 ⟨fresh, simple⟩, short⟩

theorem settled_shared (pairwise : items.Pairwise (Alike lookup key)) :
    Settled lookup (Shared lookup key items) where
  followed := by
    rintro levels pending name value other
      ⟨⟨a, b, pair, ⟨wayA, passesA⟩, wayB, passesB⟩, item, member, entered⟩ free present mentions
      there fresh
    obtain ⟨way, passes, rfl, depth⟩ := entered.passes
    have reaches : Reaches lookup value.toList other := by
      obtain ⟨inner, present'⟩ := Option.ne_none_iff_exists'.1 there
      exact Reaches.of_mention mentions present'
    have here := parallel_of_shared pairwise present pair passesA passesB member passes
    -- a chain from `a` or `b` that had the key on it would put it on the chain from `item`
    have elsewhere : ∀ {c wayC}, c ∈ items → Passes lookup key c name wayC →
        Passes lookup key c other (name :: wayC) := by
      intro c wayC inside passesC
      have parallel := (parallel_of_shared pairwise present pair passesA passesB inside
        passesC).trans here.symm passesA.simple
      refine passesC.step present mentions there ?_ ?_
      · simp only [List.mem_cons, List.mem_append, List.not_mem_nil, or_false] at fresh ⊢
        rwa [parallel.again other reaches]
      · rcases parallel.enough with long | ⟨roomy, _⟩
        · omega
        · exact roomy.length_lt passesC.simple
    exact ⟨⟨a, b, pair, ⟨_, elsewhere (pair.subset (List.mem_cons_self ..)) passesA⟩, _,
      elsewhere (pair.subset (List.mem_cons_of_mem _ (List.mem_cons_self ..))) passesB⟩, item,
      member, followed_entered entered free present mentions there fresh⟩
  free := by
    rintro _ _ _ ⟨_, _, _, entered⟩
    exact entered.free
  present := by
    rintro _ _ _ ⟨_, _, _, entered⟩
    exact entered.present
  alike := by
    rintro levels _ levels' _ name
      ⟨⟨a, b, pair, ⟨wayA, passesA⟩, wayB, passesB⟩, item, member, entered⟩
      ⟨_, item', member', entered'⟩
    obtain ⟨value, present⟩ := Option.ne_none_iff_exists'.1 entered.present
    obtain ⟨way, passes, rfl, depth⟩ := entered.passes
    obtain ⟨way', passes', rfl, depth'⟩ := entered'.passes
    have here := parallel_of_shared pairwise present pair passesA passesB member passes
    have there := parallel_of_shared pairwise present pair passesA passesB member' passes'
    exact (here.trans there.symm passesA.simple).expansion_eq present passes.simple passes'.simple
      depth depth'

/-! ## One item after the other -/

/-- An expansion of `cs`, a text of `key`, that starts with `memo`. -/
def run (lookup : Lookup) (key : String) (cs : List Char) (memo : Memo) : List Char × Memo :=
  writeOut (lookup.resolve (maxPending - 1) [key]) (Piece.ofText cs) memo

theorem writeOut_append (f : String → Memo → List Char × Memo) (front back : List Piece)
    (memo : Memo) :
    (writeOut f (front ++ back) memo).1 =
      (writeOut f front memo).1 ++ (writeOut f back (writeOut f front memo).2).1 := by
  induction front generalizing memo with
  | nil => rfl
  | cons piece front ih =>
    cases piece with
    | char c => exact congrArg (c :: ·) (ih memo)
    | escaped name =>
      refine (congrArg (Piece.unescaped name ++ ·) (ih memo)).trans ?_
      rw [← List.append_assoc]
      rfl
    | reference name =>
      refine (congrArg ((f (.ofList name) memo).1 ++ ·) (ih (f (.ofList name) memo).2)).trans ?_
      rw [← List.append_assoc]
      rfl

theorem run_append_comma (closed : Piece.Closed cs) (more : List Char) (memo : Memo) :
    (lookup.run key (cs ++ ',' :: more) memo).1 =
      (lookup.run key cs memo).1 ++ ',' :: (lookup.run key more (lookup.run key cs memo).2).1 := by
  rw [run, Piece.ofText_append_comma closed, writeOut_append]
  rfl

theorem clean_run {memo : Memo} (clean : Clean lookup [key] memo) :
    Clean lookup [key] (lookup.run key cs memo).2 :=
  writeOut_preserves (fun _ _ _ clean => clean.resolve (List.Subset.refl _)) clean

theorem lookup_run_of_outside {memo : Memo}
    (outside : ∀ levels pending, ¬ Entered lookup key cs levels pending other) :
    (lookup.run key cs memo).2.lookup other = memo.lookup other := by
  refine writeOut_preserves (I := fun m => m.lookup other = memo.lookup other) ?_ rfl
  intro name member m same
  by_cases blocked : lookup (.ofList name) = none ∨ .ofList name ∈ [key]
  · rwa [resolve_snd_of_blocked (blocked.imp_right .inl)]
  · obtain ⟨there, free⟩ := not_or.1 blocked
    have mentions : Mentions cs (.ofList name) := by rwa [Mentions, String.toList_ofList]
    rw [lookup_resolve_of_outside followed_entered (entered_of_mention mentions there free) outside,
      same]

/-- What is remembered of other items does not change the expansion of an item, if it is right for
    the keys that are shared and says nothing of the others. -/
theorem run_eq_fresh {memo : Memo} (pairwise : items.Pairwise (Alike lookup key))
    (member : cs ∈ items) (sound : Sound lookup (Shared lookup key items) memo)
    (clean : Clean lookup [key] memo)
    (silent : ∀ {levels pending name}, Entered lookup key cs levels pending name →
      (∀ levels pending, ¬ Shared lookup key items levels pending name) →
      memo.lookup name = none) :
    (lookup.run key cs memo).1 = (lookup.run key cs []).1 ∧
      Sound lookup (Shared lookup key items) (lookup.run key cs memo).2 := by
  -- compare the run that starts with `memo` and the one that starts with nothing
  have related : Interchangeable lookup (Shared lookup key items) (Entered lookup key cs) memo [] :=
    ⟨sound, sound_nil, silent⟩
  obtain ⟨texts, related'⟩ := writeOut_of_interchangeable
    (resolve_interchangeable (settled_shared pairwise) followed_entered
      (fun entered => ⟨entered.free, entered.present⟩)
      (fun entered shared => ⟨shared.1, cs, member, entered⟩))
    (fun _ => entered_of_mention) related clean clean_nil
  exact ⟨texts, related'.left⟩

/-- Items joined by commas and expanded with one memo come out as the items expanded apart. -/
theorem run_intercalate {memo : Memo} (pairwise : items.Pairwise (Alike lookup key))
    (closed : ∀ item ∈ items, Piece.Closed item) {before rest : List (List Char)}
    (whole : before ++ rest = items) (sound : Sound lookup (Shared lookup key items) memo)
    (clean : Clean lookup [key] memo)
    (silent : ∀ name, (∀ item ∈ before, ∀ levels pending,
      ¬ Entered lookup key item levels pending name) → memo.lookup name = none) :
    (lookup.run key ([','].intercalate rest) memo).1 =
      [','].intercalate (rest.map fun item => (lookup.run key item []).1) := by
  -- along the items that are left; `memo` knows only keys that those in `before` lead to
  induction rest generalizing before memo with
  | nil =>
    rw [List.map_nil, List.intercalate_nil, run, Piece.ofText_nil]
    rfl
  | cons item rest ih =>
    have member : item ∈ items := whole ▸ List.mem_append_right before (List.mem_cons_self ..)
    obtain ⟨texts, sound'⟩ := run_eq_fresh pairwise member sound clean <| by
      intro levels pending name entered unshared
      refine silent name fun earlier inEarlier levels' pending' entered' => ?_
      -- a key that `memo` knows and this item leads to is led to by an earlier item too
      have pair : [earlier, item].Sublist items := whole ▸
        (List.singleton_sublist.2 inEarlier).append
          (List.singleton_sublist.2 (List.mem_cons_self ..))
      obtain ⟨way, passes, _⟩ := entered.passes
      obtain ⟨way', passes', _⟩ := entered'.passes
      exact unshared levels pending
        ⟨⟨earlier, item, pair, ⟨way', passes'⟩, way, passes⟩, item, member, entered⟩
    cases rest with
    | nil => rwa [List.map_singleton, List.intercalate_singleton, List.intercalate_singleton]
    | cons next rest =>
      have whole' : before ++ [item] ++ next :: rest = items := by
        rw [← whole, List.append_assoc, List.singleton_append]
      have later := ih whole' sound' (clean_run clean) <| by
        intro name outside
        rw [lookup_run_of_outside (outside item (by simp))]
        exact silent name fun earlier inEarlier => outside earlier (by simp [inEarlier])
      rw [List.map_cons, List.map_cons, List.intercalate_cons_cons, List.intercalate_cons_cons,
        List.append_assoc, List.singleton_append, run_append_comma (closed item member), texts,
        later, List.map_cons, List.append_assoc, List.singleton_append]

end Lookup

namespace PropertyStore

open Lookup

variable {store before : PropertyStore} {key : String} {items : List String}

/-- The text of a list is its items joined by commas, both after expansion, if any two items are
    alike in what they lead to. -/
theorem text?_eq_intercalate_list (written : store.find? key = (before.setList key items).find? key)
    (closed : ∀ item ∈ items, Piece.Closed item.toList)
    (alike : items.Pairwise fun a b => Alike store.raw? key a.toList b.toList) :
    store.text? key = some (",".intercalate (store.list key)) := by
  have found : store.find? key = some { text := ",".intercalate items, items } := by
    rw [written, setList, OrderedMap.find?_insert, if_pos rfl]
  have pairwise : (items.map String.toList).Pairwise (Alike store.raw? key) :=
    List.pairwise_map.2 alike
  have closed' : ∀ item ∈ items.map String.toList, Piece.Closed item := by
    intro cs member
    obtain ⟨item, inside, rfl⟩ := List.mem_map.1 member
    exact closed item inside
  have clean : Clean store.raw? [key] [] := clean_nil
  have texts := run_intercalate pairwise closed' (List.nil_append _) sound_nil clean
    (fun _ _ => rfl)
  have raw : store.raw? key = some (",".intercalate items) := by rw [raw?, found, Option.map_some]
  have parts : store.list key = items.map (interpolate store.raw? key) := by rw [list, found]
  rw [text?, raw, Option.map_some, parts]
  refine congrArg some (String.toList_injective ?_)
  rw [String.toList_intercalate, List.map_map]
  change (String.ofList (run store.raw? key (",".intercalate items).toList []).1).toList = _
  rw [String.toList_ofList, String.toList_intercalate]
  refine texts.trans ?_
  rw [List.map_map]
  refine congrArg _ (List.map_congr_left fun item _ => ?_)
  exact String.toList_ofList.symm

/-- A list of two items that lead to one key, with an escaped reference and one to an absent
    key. -/
def forked : PropertyStore :=
  diamond.setList "k" ["-$\x7ba\x7d", "$\x7bb\x7d$\x7bz\x7d$$\x7ba\x7d"]

theorem text?_eq_intercalate_list_forked :
    forked.find? "k" =
      (diamond.setList "k" ["-$\x7ba\x7d", "$\x7bb\x7d$\x7bz\x7d$$\x7ba\x7d"]).find? "k" ∧
    forked.text? "k" = some (",".intercalate (forked.list "k")) ∧
    forked.list "k" = ["-1x", "1y$\x7bz\x7d$\x7ba\x7d"] := by
  have ranked : forked.isRankedBy diamondRank = true := by decide +kernel
  have shallow := shallow_of_isRankedBy ranked diamondRank_low
  refine ⟨rfl, text?_eq_intercalate_list rfl ?_ ?_, by decide +kernel⟩
  · intro item member
    simp only [List.mem_cons, List.not_mem_nil, or_false] at member
    rcases member with rfl | rfl
    · exact Piece.Closed.of_getLast? (by decide)
    · exact Piece.Closed.of_getLast? (by decide)
  · refine List.pairwise_pair.2 ?_
    exact alike_of_shallow (shallow _) (shallow _)

/-- Two keys that refer to each other, and a list of references to both. -/
def ring : PropertyStore :=
  ((PropertyStore.set OrderedMap.empty "a" "$\x7bb\x7d").set "b" "$\x7ba\x7d").setList "k"
    ["$\x7ba\x7d", "$\x7bb\x7d"]

/-- In a ring of references the text of a list need not be its items: the text of the first item
    is remembered for the second. -/
theorem not_text?_eq_intercalate_list :
    ¬ ∀ (store before : PropertyStore) (key : String) (items : List String),
      store.find? key = (before.setList key items).find? key → items ≠ [] →
      (∀ item ∈ items, Piece.Closed item.toList) →
      store.text? key = some (",".intercalate (store.list key)) := by
  intro always
  have text : ring.text? "k" = some "$\x7ba\x7d,$\x7ba\x7d" := by decide +kernel
  have list : ring.list "k" = ["$\x7ba\x7d", "$\x7bb\x7d"] := by decide +kernel
  have same := always ring ring "k" ["$\x7ba\x7d", "$\x7bb\x7d"] rfl (by decide) <| by
    intro item member
    simp only [List.mem_cons, List.not_mem_nil, or_false] at member
    rcases member with rfl | rfl
    · exact Piece.Closed.of_getLast? (by decide)
    · exact Piece.Closed.of_getLast? (by decide)
  rw [text, list] at same
  exact absurd same (by decide)

end PropertyStore

end SegmentCatalog
