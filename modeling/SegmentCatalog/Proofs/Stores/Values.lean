import SegmentCatalog.Proofs.PropertyFile.Items
import SegmentCatalog.Proofs.Stores.Continuation

/-! # The values of a store

A store is built definition by definition, and a key that is defined again goes on with the value
that it has.  So what holds of every definition of a file, and passes from two values to the one
that follows the other with the other, holds of every value of the store: `everywhere_of_parse`.

One such property is that the text of a value joins its items by commas (`Joined`).  It holds of the
definition of a line whose value has no white space to trim, hence of everything that is read from
a file of such lines: `raw?_eq_intercalate_items`.
-/

namespace SegmentCatalog

theorem exists_error_iff {ε α : Type} {x : Except ε α} :
    (∃ e, x = .error e) ↔ ¬ ∃ a, x = .ok a := by
  cases x with
  | error e => simp
  | ok a => simp

theorem PropertyFile.exists_line_of_mem {text : String} {all : List Definition} {d : Definition}
    (read : definitions text = .ok all) (member : d ∈ all) :
    ∃ line ∈ logicalLines text.toList, readLine line = .ok (some d) := by
  obtain ⟨outcomes, each, kept⟩ := bind_eq_ok.1 read
  cases kept
  obtain ⟨outcome, inside, found⟩ := List.mem_filterMap.1 member
  cases (found : outcome = some d)
  exact exists_item_of_mapM each inside

/-- The text is the items, joined by commas. -/
structure PropertyValue.Joined (value : PropertyValue) : Prop where
  filled : value.items ≠ []
  text : value.text = ",".intercalate value.items

theorem PropertyValue.Joined.followedBy {first second : PropertyValue} (joined : first.Joined)
    (joined' : second.Joined) : (first.followedBy second).Joined where
  filled := by simp [PropertyValue.followedBy, joined.filled]
  text := by
    rw [PropertyValue.followedBy, joined.text, joined'.text,
      String.intercalate_append_of_ne_nil joined.filled joined'.filled]

namespace PropertyStore

variable {P : PropertyValue → Prop} {store : PropertyStore}

/-- All values of the store have the property. -/
def Everywhere (P : PropertyValue → Prop) (store : PropertyStore) : Prop :=
  ∀ key, ∀ value ∈ store.find? key, P value

namespace Everywhere

theorem empty : Everywhere P OrderedMap.empty := by
  intro key value found
  cases found

theorem add (all : store.Everywhere P) (follows : ∀ x y, P x → P y → P (x.followedBy y))
    (key : String) {value : PropertyValue} (new : P value) :
    (store.add key value).Everywhere P := by
  intro other stored found
  rw [find?_add] at found
  by_cases here : other = key
  · rw [if_pos here] at found
    cases before : store.find? key with
    | none =>
      rw [before] at found
      cases found
      exact new
    | some old =>
      rw [before] at found
      cases found
      exact follows old value (all key old before) new
  · rw [if_neg here] at found
    exact all other stored found

theorem foldl_add (all : store.Everywhere P) (follows : ∀ x y, P x → P y → P (x.followedBy y))
    {definitions : List PropertyFile.Definition}
    (each : ∀ d ∈ definitions, P { text := d.text, items := d.items }) :
    Everywhere P (definitions.foldl
      (fun store d => store.add d.key { text := d.text, items := d.items }) store) := by
  induction definitions generalizing store with
  | nil => exact all
  | cons d definitions ih =>
    obtain ⟨here, later⟩ := List.forall_mem_cons.1 each
    exact ih (all.add follows d.key here) later

end Everywhere

/-- What every line defines is what every value is made of. -/
theorem everywhere_of_parse {text : String} (parsed : parse text = .ok store)
    (follows : ∀ x y, P x → P y → P (x.followedBy y))
    (each : ∀ line ∈ PropertyFile.logicalLines text.toList, ∀ d,
      PropertyFile.readLine line = .ok (some d) → P { text := d.text, items := d.items }) :
    store.Everywhere P := by
  obtain ⟨definitions, read, built⟩ := bind_eq_ok.1 parsed
  cases built
  apply Everywhere.empty.foldl_add follows
  intro d member
  obtain ⟨line, isLine, outcome⟩ := PropertyFile.exists_line_of_mem read member
  exact each line isLine d outcome

/-- A value is read as a whole or item by item: it is refused as a whole if and only if one of its
    items is refused, and what the whole is read as is what the items are read as, joined by
    commas.  So if no value of a file has white space at its ends or next to a comma that is not
    protected, the value that is stored for a key is its items joined by commas, even if the key is
    defined several times. -/
theorem raw?_eq_intercalate_items :
    (∀ raw, ((∃ e, Literal.unescaped raw = .error e) ↔
        ∃ part ∈ PropertyFile.rawItems raw, ∃ e, Literal.unescaped part = .error e) ∧
      ∀ whole items, Literal.unescaped raw = .ok whole →
        (PropertyFile.rawItems raw).mapM Literal.unescaped = .ok items →
        ",".intercalate items = whole) ∧
    ∀ text store, parse text = .ok store →
      (∀ line ∈ PropertyFile.logicalLines text.toList, (PropertyFile.splitLine line).1 ≠ [] →
        PropertyFile.Tight (PropertyFile.splitLine line).2) →
      ∀ key value, store.find? key = some value →
        store.raw? key = some (",".intercalate value.items) := by
  refine ⟨fun raw => ⟨?_, ?_⟩, ?_⟩
  · have accepted : (∃ text, Literal.unescaped raw = .ok text) ↔
        ∀ part ∈ PropertyFile.rawItems raw, ∃ item, Literal.unescaped part = .ok item := by
      rw [← exists_mapM_eq_ok_iff]
      simp [PropertyFile.unescaped_eq_ok_iff_items]
    simp only [exists_error_iff, accepted, not_forall, exists_prop]
  · intro whole items read each
    obtain ⟨items', each', joined⟩ := PropertyFile.unescaped_eq_ok_iff_items.1 read
    rw [each, Except.ok.injEq] at each'
    rw [joined, each']
  · intro text store parsed tight key value found
    have joined : store.Everywhere PropertyValue.Joined := by
      refine everywhere_of_parse parsed (fun _ _ first second => first.followedBy second) ?_
      intro line member d read
      have named := (PropertyFile.readLine_eq_some_iff.1 read).1
      have whole := PropertyFile.text_eq_of_tight read (tight line member named)
      exact ⟨whole.1, whole.2⟩
    rw [raw?, found, Option.map_some, (joined key value found).text]

/-- A file with commas that are escaped, by a backslash and by their code, and with a key that is
    defined twice. -/
def listed : PropertyStore where
  entries :=
    [("p", { text := "1,,,b, c", items := ["1", ",", "b, c"] }),
      ("q", { text := "A", items := ["A"] })]

/-- A code that a comma cuts off is refused, in the whole and in the part in front of the comma. -/
theorem raw?_eq_intercalate_items_listed :
    (∃ part ∈ PropertyFile.rawItems "\\u00,41", ∃ e, Literal.unescaped part = .error e) ∧
    ",".intercalate ["a,b", "é"] = "a,b,é" ∧
    parse "p = 1,\\u002c\nq = \\101\np: b\\, c" = .ok listed ∧
    listed.raw? "p" = some (",".intercalate ["1", ",", "b, c"]) := by
  have refused : Literal.unescaped "\\u00,41" = .error (.invalidEscape "\\u00,41") := by
    decide +kernel
  have whole : Literal.unescaped "a\\,b,\\u00e9" = .ok "a,b,é" := by decide +kernel
  have items : (PropertyFile.rawItems "a\\,b,\\u00e9").mapM Literal.unescaped =
      .ok ["a,b", "é"] := by
    decide +kernel
  have parsed : parse "p = 1,\\u002c\nq = \\101\np: b\\, c" = .ok listed := by decide +kernel
  obtain ⟨values, files⟩ := raw?_eq_intercalate_items
  refine ⟨(values _).1.1 ⟨_, refused⟩, (values _).2 _ _ whole items, parsed, ?_⟩
  exact files _ listed parsed (by decide +kernel) "p" _ rfl

end PropertyStore

end SegmentCatalog
