import SegmentCatalog.Proofs.PropertyFile.Verbatim
import SegmentCatalog.Proofs.References.Pieces
import SegmentCatalog.Proofs.Stores.Values
import SegmentCatalog.Segment

/-! # Stores that can be exchanged

A store that is read from a file splits a value when it is read, and goes on with the items when
the key is defined again.  A map of plain texts splits the whole value when it is asked for it.
As long as the file has neither escapes nor references, both come to the same.

What carries this through the file is that every value so far has its comma parts as items
(`AllListed`): the first definition of a key has, and two such values joined by a comma have.
Since there are no references either, the two stores are then one configuration
(`AllListed.config_eq`), and no reader can tell them apart.
-/

namespace SegmentCatalog.PropertyStore

/-- The map of plain texts that has the values of the store as they are stored. -/
def plain (store : PropertyStore) : PlainMap where
  entries := store.entries.map fun (key, value) => (key, value.text)

theorem find?_plain (store : PropertyStore) (key : String) :
    store.plain.find? key = store.raw? key := by
  obtain ⟨entries⟩ := store
  induction entries with
  | nil => rfl
  | cons entry entries ih =>
    obtain ⟨k, value⟩ := entry
    simp only [plain, raw?, OrderedMap.find?, List.map_cons, List.lookup_cons] at ih ⊢
    cases key == k with
    | true => rfl
    | false => exact ih

/-- Every value is verbatim and has its comma parts as items. -/
def AllListed (store : PropertyStore) : Prop :=
  ∀ key, ∀ value ∈ store.find? key, PropertyFile.Listed value.text value.items

namespace AllListed

variable {store : PropertyStore}

theorem empty : AllListed OrderedMap.empty := Everywhere.empty

theorem foldl_add (listed : store.AllListed) {definitions : List PropertyFile.Definition}
    (each : ∀ d ∈ definitions, PropertyFile.Listed d.text d.items) :
    AllListed (definitions.foldl
      (fun store d => store.add d.key { text := d.text, items := d.items }) store) :=
  Everywhere.foldl_add listed (fun _ _ first second => first.join second) each

/-- A map with the same texts is the same configuration. -/
theorem config_eq (listed : store.AllListed) {m : PlainMap}
    (same : ∀ key, m.find? key = store.raw? key) : m.config = store.config := by
  have raws : m.find? = store.raw? := funext same
  have texts : store.text? = store.raw? := by
    funext key
    cases found : store.find? key with
    | none => simp [raw?, text?, found]
    | some value =>
      have free := (listed key value found).verbatim.noReference
      simp [raw?, text?, found, Lookup.interpolate_of_no_opening _ key free]
  have lists : m.list = store.list := by
    funext key
    cases found : store.find? key with
    | none => simp [PlainMap.list, list, same, raw?, found]
    | some value =>
      have whole := listed key value found
      calc m.list key
        _ = PropertyFile.commaParts value.text := by
          simp [PlainMap.list, same, raw?, found, PropertyFile.commaParts]
        _ = value.items := whole.items.symm
        _ = value.items.map id := (List.map_id _).symm
        _ = value.items.map (Lookup.interpolate store.raw? key) :=
          List.map_congr_left fun item member =>
            (Lookup.interpolate_of_no_opening _ key (whole.item member).noReference).symm
        _ = store.list key := by simp [list, found]
  rw [PlainMap.config, config, raws, texts, lists]

end AllListed

/-- A file with neither escapes nor references is always read, whatever else is in it, and the
    store is as good as a map that has for each key the text that the store has: every column has
    the same outcome in both, and so has the segment. -/
theorem interchangeable_of_parse {text : String} (noEscape : '\\' ∉ text.toList)
    (noReference : ¬ ['$', '{'] <:+: text.toList) :
    ∃ store, parse text = .ok store ∧ (∀ key, store.plain.find? key = store.raw? key) ∧
      ∀ m : PlainMap, (∀ key, m.find? key = store.raw? key) →
        (∀ column, Column.decode m.config column = Column.decode store.config column) ∧
        Segment.decode m.config = Segment.decode store.config := by
  obtain ⟨definitions, read, each⟩ := PropertyFile.definitions_of_verbatim ⟨noEscape, noReference⟩
  refine ⟨_, bind_eq_ok.2 ⟨definitions, read, rfl⟩, find?_plain _, ?_⟩
  intro m same
  rw [(AllListed.empty.foldl_add each).config_eq same]
  exact ⟨fun _ => rfl, rfl⟩

/-- A file with blanks in a list, a value that is empty, and a key that is defined twice. -/
def padded : PropertyStore where
  entries :=
    [("a", { text := "1 , 2,3", items := ["1", "2", "3"] }), ("b", { text := "", items := [""] })]

theorem interchangeable_of_parse_padded :
    parse "a =  1 , 2\nb =\na = 3" = .ok padded ∧
    (∀ column, Column.decode padded.plain.config column = Column.decode padded.config column) ∧
    Segment.decode padded.plain.config = Segment.decode padded.config := by
  have noDollar : '$' ∉ "a =  1 , 2\nb =\na = 3".toList := by decide
  obtain ⟨store, parsed, same, interchangeable⟩ :=
    interchangeable_of_parse (show '\\' ∉ "a =  1 , 2\nb =\na = 3".toList by decide)
      fun inside => noDollar (inside.mem (List.mem_cons_self ..))
  have read : parse "a =  1 , 2\nb =\na = 3" = .ok padded := by decide +kernel
  rw [read, Except.ok.injEq] at parsed
  subst parsed
  exact ⟨read, interchangeable _ same⟩

end SegmentCatalog.PropertyStore
