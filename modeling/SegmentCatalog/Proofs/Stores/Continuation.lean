import SegmentCatalog.Proofs.PropertyFile.Concatenation
import SegmentCatalog.Proofs.Stores.Edits

/-! # Stores read from files put one behind the other

A file may be cut behind any of its lines that is not continued, and the two parts be read on their
own: what is read from the whole is the store of the first part, continued by that of the second
(`PropertyStore.parse_append`).

`Continues first second whole` says what that means for the keys and for their values.  The stores
are built definition by definition, and the same definition, added to the second store and to the
whole, keeps the whole a continuation of the first by the second (`Continues.add`).
-/

namespace SegmentCatalog

/-- A value that goes on with the list of another one. -/
def PropertyValue.followedBy (first second : PropertyValue) : PropertyValue where
  text := first.text ++ "," ++ second.text
  items := first.items ++ second.items

theorem PropertyValue.followedBy_assoc (x y z : PropertyValue) :
    (x.followedBy y).followedBy z = x.followedBy (y.followedBy z) := by
  simp only [followedBy, String.append_assoc, List.append_assoc]

namespace PropertyStore

/-- The keys of the second store that the first one lacks come behind those of the first, in their
    order; a value that both have is that of the first, followed by that of the second. -/
structure Continues (first second whole : PropertyStore) : Prop where
  keys : whole.keys = first.keys ++ second.keys.filter (· ∉ first.keys)
  values : ∀ key, whole.find? key =
    (first.find? key).merge PropertyValue.followedBy (second.find? key)

theorem find?_add (store : PropertyStore) (key other : String) (value : PropertyValue) :
    (store.add key value).find? other =
      if other = key then (store.find? key).merge PropertyValue.followedBy (some value)
      else store.find? other := by
  rw [add, OrderedMap.find?_extend]
  cases store.find? key <;> rfl

namespace Continues

variable {first second whole : PropertyStore}

theorem empty (first : PropertyStore) : Continues first OrderedMap.empty first where
  keys := (List.append_nil _).symm
  values _ := (Option.merge_none_right ..).symm

theorem add (continues : Continues first second whole) (key : String) (value : PropertyValue) :
    Continues first (second.add key value) (whole.add key value) where
  keys := by
    rw [PropertyStore.add, PropertyStore.add, OrderedMap.keys_extend, OrderedMap.keys_extend,
      continues.keys]
    by_cases old : key ∈ first.keys
    -- a key of the first store keeps its place there, wherever the second has it
    · rw [if_pos (List.mem_append_left _ old)]
      split
      · rfl
      · simp [old]
    · have known : key ∈ first.keys ++ second.keys.filter (· ∉ first.keys) ↔ key ∈ second.keys := by
        simp [old]
      by_cases again : key ∈ second.keys
      · rw [if_pos (known.2 again), if_pos again]
      · rw [if_neg (mt known.1 again), if_neg again]
        simp [old]
  values other := by
    rw [find?_add, find?_add, continues.values, continues.values]
    split
    · rename_i here
      subst here
      cases first.find? other <;> cases second.find? other <;>
        simp [PropertyValue.followedBy_assoc]
    · rfl

theorem foldl_add (continues : Continues first second whole)
    (definitions : List PropertyFile.Definition) :
    Continues first
      (definitions.foldl (fun store d => store.add d.key { text := d.text, items := d.items })
        second)
      (definitions.foldl (fun store d => store.add d.key { text := d.text, items := d.items })
        whole) := by
  induction definitions generalizing second whole with
  | nil => exact continues
  | cons d definitions ih => exact ih (continues.add ..)

end Continues

/-- A file is read by parts: where it is cut behind a line that is not continued, it is refused for
    what the first part is refused for, or else for what the second part is; and if both parts are
    read, so is the whole, as the store of the first part continued by that of the second. -/
theorem parse_append {a b : String} (ended : a = "" ∨ a.toList.getLast? = some '\n')
    (finished : ∀ line ∈ (PropertyFile.physicalLines a.toList).getLast?,
      PropertyFile.continues line = false) :
    (∀ e, parse (a ++ b) = .error e ↔
      parse a = .error e ∨ ∃ first, parse a = .ok first ∧ parse b = .error e) ∧
    ∀ first second, parse a = .ok first → parse b = .ok second →
      ∃ whole, parse (a ++ b) = .ok whole ∧ Continues first second whole ∧ whole.keys.Nodup := by
  have split := PropertyFile.definitions_append (b := b) ended finished
  constructor
  · intro e
    simp only [parse, split]
    cases PropertyFile.definitions a with
    | error _ => simp [bind, Except.bind]
    | ok _ => cases PropertyFile.definitions b <;> simp [bind, Except.bind, pure, Except.pure]
  · intro first second readFirst readSecond
    obtain ⟨definitions, found, builtFirst⟩ := bind_eq_ok.1 readFirst
    obtain ⟨definitions', found', builtSecond⟩ := bind_eq_ok.1 readSecond
    cases builtFirst
    cases builtSecond
    have whole : PropertyFile.definitions (a ++ b) = .ok (definitions ++ definitions') := by
      rw [split, found, found']
      rfl
    have read : parse (a ++ b) = .ok _ := bind_eq_ok.2 ⟨_, whole, rfl⟩
    refine ⟨_, read, ?_, nodup_keys_parse read⟩
    rw [List.foldl_append]
    exact (Continues.empty _).foldl_add definitions'

/-- The store of a file in which a line is continued, though not the last one. -/
def folded : PropertyStore where
  entries :=
    [("p", { text := "1", items := ["1"] }), ("q", { text := "x, y", items := ["x", "y"] })]

/-- The store of a file that defines one key twice. -/
def resumed : PropertyStore where
  entries :=
    [("r", { text := "", items := [""] }), ("p", { text := "3,4", items := ["3", "4"] })]

/-- Both files define a key that goes on with its list, in the place where it was first. -/
theorem parse_append_folded :
    parse "p = 1\nq = x, \\\n  y\n" = .ok folded ∧ parse "r =\np: 3\n\tp 4" = .ok resumed ∧
    ∃ whole, parse ("p = 1\nq = x, \\\n  y\n" ++ "r =\np: 3\n\tp 4") = .ok whole ∧
      whole.keys = ["p", "q", "r"] ∧
      whole.find? "p" = some { text := "1,3,4", items := ["1", "3", "4"] } := by
  have first : parse "p = 1\nq = x, \\\n  y\n" = .ok folded := by decide +kernel
  have second : parse "r =\np: 3\n\tp 4" = .ok resumed := by decide +kernel
  obtain ⟨whole, read, continues, _⟩ :=
    (parse_append (.inr (by decide)) (by decide)).2 folded resumed first second
  refine ⟨first, second, whole, read, ?_, ?_⟩
  · rw [continues.keys]
    decide
  · rw [continues.values]
    decide

end PropertyStore

end SegmentCatalog
