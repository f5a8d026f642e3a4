import Mathlib.Data.List.Nodup
import SegmentCatalog.Proofs.PropertyFile.Layout
import SegmentCatalog.Proofs.Stores.Continuation
import SegmentCatalog.Segment

/-! # Stores read from files that are arranged anew

The lines of a file may be put into another order, remarks be put in between, and other line ends be
used: as long as no two lines define the same key, the store that is read has the same values
(`PropertyStore.parse_rearranged`), though not the same order of keys.

What a store says of a key depends on the values alone, not on the order of the keys, also where a
value refers to other keys (`PropertyStore.SameValues.config_eq`).  Two definitions of different
keys may be added in either order (`PropertyStore.SameValues.add_comm`), and so may any number of
them (`PropertyStore.SameValues.foldl_add_of_perm`).
-/

namespace SegmentCatalog.PropertyStore

/-- The stores agree at every key, in whichever order they have their keys. -/
def SameValues (first second : PropertyStore) : Prop := ∀ key, first.find? key = second.find? key

namespace SameValues

variable {first second third : PropertyStore}

theorem trans (same : SameValues first second) (next : SameValues second third) :
    SameValues first third :=
  fun key => (same key).trans (next key)

theorem config_eq (same : SameValues first second) : first.config = second.config := by
  have values : first.find? = second.find? := funext same
  have raws : first.raw? = second.raw? := by
    funext key
    rw [raw?, raw?, values]
  have texts : first.text? = second.text? := by
    funext key
    rw [text?, text?, raws]
  have lists : first.list = second.list := by
    funext key
    rw [list, list, values, raws]
  rw [config, config, raws, texts, lists]

theorem add (same : SameValues first second) (key : String) (value : PropertyValue) :
    SameValues (first.add key value) (second.add key value) := by
  intro other
  rw [find?_add, find?_add, same key, same other]

theorem add_comm (same : SameValues first second) {key key' : String} (distinct : key ≠ key')
    (value value' : PropertyValue) :
    SameValues ((first.add key value).add key' value')
      ((second.add key' value').add key value) := by
  intro other
  simp only [find?_add, same key, same key', same other, if_neg distinct, if_neg distinct.symm]
  by_cases here : other = key
  · subst here
    rw [if_neg distinct, if_pos rfl, if_pos rfl]
  · rw [if_neg here, if_neg here]

theorem foldl_add (same : SameValues first second) (definitions : List PropertyFile.Definition) :
    SameValues
      (definitions.foldl (fun store d => store.add d.key { text := d.text, items := d.items })
        first)
      (definitions.foldl (fun store d => store.add d.key { text := d.text, items := d.items })
        second) := by
  induction definitions generalizing first second with
  | nil => exact same
  | cons d definitions ih => exact ih (same.add d.key _)

/-- Definitions of distinct keys may be added in any order. -/
theorem foldl_add_of_perm {definitions definitions' : List PropertyFile.Definition}
    (rearranged : definitions.Perm definitions')
    (distinct : (definitions.map PropertyFile.Definition.key).Nodup)
    (same : SameValues first second) :
    SameValues
      (definitions.foldl (fun store d => store.add d.key { text := d.text, items := d.items })
        first)
      (definitions'.foldl (fun store d => store.add d.key { text := d.text, items := d.items })
        second) := by
  induction rearranged generalizing first second with
  | nil => exact same
  | cons d _ ih => exact ih (List.nodup_cons.1 distinct).2 (same.add d.key _)
  | swap d d' definitions =>
    have apart : d'.key ≠ d.key := by
      intro shared
      simp [shared] at distinct
    exact (same.add_comm apart _ _).foldl_add definitions
  | trans before _ ih ih' =>
    have distinct' := (before.map PropertyFile.Definition.key).nodup_iff.1 distinct
    exact (ih distinct same).trans (ih' distinct' fun _ => rfl)

end SameValues

/-- The lines of a file that is read may be put into any order, with remarks in between, and be
    ended in either way: if no two of them define the same key, the new file is read as well, all
    keys have the same values, texts and lists in it, and so the segment is the same, or is refused
    for the same reason. -/
theorem parse_rearranged {lines remarks lines' : List (List Char)} {text text' : String}
    {store : PropertyStore}
    (separate : ∀ line ∈ lines ++ remarks, PropertyFile.Separate line)
    (remark : ∀ line ∈ remarks, PropertyFile.isRemark (Text.trimStart line) = true)
    (distinct : ((lines.filterMap PropertyFile.defined?).map PropertyFile.Definition.key).Nodup)
    (laid : PropertyFile.LaidOut lines text.toList) (read : parse text = .ok store)
    (rearranged : lines'.Perm (lines ++ remarks))
    (laid' : PropertyFile.LaidOut lines' text'.toList) :
    ∃ store', parse text' = .ok store' ∧
      (∀ key, store'.raw? key = store.raw? key ∧ store'.text? key = store.text? key ∧
        store'.list key = store.list key) ∧
      Segment.decode store'.config = Segment.decode store.config := by
  obtain ⟨definitions, found, built⟩ := bind_eq_ok.1 read
  cases built
  obtain ⟨before, after⟩ := List.forall_mem_append.1 separate
  obtain ⟨readable, rfl⟩ := (PropertyFile.definitions_eq_ok_iff laid before).1 found
  have separate' : ∀ line ∈ lines', PropertyFile.Separate line := fun line member =>
    separate line (rearranged.mem_iff.1 member)
  have readable' : ∀ line ∈ lines', PropertyFile.Readable line := by
    intro line member
    rcases List.mem_append.1 (rearranged.mem_iff.1 member) with old | new
    · exact readable line old
    · intro noRemark
      rw [remark line new] at noRemark
      cases noRemark
  have nothing : remarks.filterMap PropertyFile.defined? = [] := by
    rw [List.filterMap_eq_nil_iff]
    intro line member
    rw [PropertyFile.defined?, if_pos (remark line member)]
  have order : (lines.filterMap PropertyFile.defined?).Perm
      (lines'.filterMap PropertyFile.defined?) := by
    have whole := (rearranged.filterMap PropertyFile.defined?).symm
    rwa [List.filterMap_append, nothing, List.append_nil] at whole
  have found' := (PropertyFile.definitions_eq_ok_iff laid' separate').2 ⟨readable', rfl⟩
  have same := (SameValues.foldl_add_of_perm order distinct
    (fun _ => rfl : SameValues OrderedMap.empty OrderedMap.empty)).config_eq
  refine ⟨_, bind_eq_ok.2 ⟨_, found', rfl⟩, ?_, congrArg Segment.decode same.symm⟩
  intro key
  exact ⟨congrFun (congrArg Config.raw? same.symm) key,
    congrFun (congrArg Config.text? same.symm) key,
    congrFun (congrArg Config.list same.symm) key⟩

/-- The store of a file in which a value refers to a key that is defined behind it. -/
def referring : PropertyStore where
  entries :=
    [("b", { text := "${a}", items := ["${a}"] }), ("a", { text := "1, 2", items := ["1", "2"] })]

def referringLines : List (List Char) := ["b = ${a}".toList, "\ta : 1, 2".toList]

/-- Remarks, the first of which ends in a backslash. -/
def insertedRemarks : List (List Char) := ["  # note \\".toList, []]

def rearrangedLines : List (List Char) :=
  ["\ta : 1, 2".toList, "  # note \\".toList, "b = ${a}".toList, []]

theorem parse_rearranged_referring :
    parse "b = ${a}\n\ta : 1, 2\n" = .ok referring ∧
    ∃ store', parse "\ta : 1, 2\r\n  # note \\\r\nb = ${a}\r\n\r\n" = .ok store' ∧
      store'.list "a" = ["1", "2"] ∧ store'.text? "b" = some "1, 2" ∧
      Segment.decode store'.config = Segment.decode referring.config := by
  have separate : ∀ line ∈ referringLines ++ insertedRemarks, PropertyFile.Separate line := by
    decide
  have laid : "b = ${a}\n\ta : 1, 2\n".toList = PropertyFile.ended referringLines := by decide
  have laid' : "\ta : 1, 2\r\n  # note \\\r\nb = ${a}\r\n\r\n".toList =
      rearrangedLines.flatMap (· ++ ['\r', '\n']) := by
    decide
  have read : parse "b = ${a}\n\ta : 1, 2\n" = .ok referring := by decide +kernel
  obtain ⟨store', read', same, decoded⟩ := parse_rearranged separate (by decide)
    (by decide +kernel) (laid ▸ PropertyFile.LaidOut.feeds referringLines) read
    (by decide : rearrangedLines.Perm (referringLines ++ insertedRemarks))
    (laid' ▸ PropertyFile.LaidOut.returnFeeds rearrangedLines)
  obtain ⟨_, _, lists⟩ := same "a"
  obtain ⟨_, texts, _⟩ := same "b"
  refine ⟨read, store', read', ?_, ?_, decoded⟩
  · rw [lists]
    decide +kernel
  · rw [texts]
    decide +kernel

end SegmentCatalog.PropertyStore
