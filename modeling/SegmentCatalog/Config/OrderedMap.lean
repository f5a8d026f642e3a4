/-! # Maps that remember their order

An `OrderedMap` pairs keys with values and keeps the keys in the order in which they came.

* `insert` replaces the value of a key in its place, or adds the key at the end;
* `extend` does the same with a value that may depend on the one already there;
* `erase` removes a key and keeps the order of the rest.

`find?_insert` and `find?_erase` say what a look-up sees afterwards, `keys_insert` and
`keys_erase` which keys there are and in which order.  A key never occurs twice in a map that
these operations have made (`nodup_keys_extend`, `nodup_keys_erase`).
-/

namespace SegmentCatalog

structure OrderedMap (β : Type) where
  entries : List (String × β)
  deriving DecidableEq

namespace OrderedMap

variable {β : Type}

def empty : OrderedMap β := ⟨[]⟩

instance : Inhabited (OrderedMap β) := ⟨empty⟩

def keys (m : OrderedMap β) : List String := m.entries.map Prod.fst

def size (m : OrderedMap β) : Nat := m.entries.length

def isEmpty (m : OrderedMap β) : Bool := m.entries.isEmpty

def find? (m : OrderedMap β) (key : String) : Option β := m.entries.lookup key

def contains (m : OrderedMap β) (key : String) : Bool := (m.find? key).isSome

/-- Sets the value of `key` to `update old`, where `old` is its value so far. -/
def alter (key : String) (update : Option β → β) : List (String × β) → List (String × β)
  | [] => [(key, update none)]
  | (k, v) :: rest =>
    if k = key then (k, update (some v)) :: rest else (k, v) :: alter key update rest

def extend (m : OrderedMap β) (key : String) (update : Option β → β) : OrderedMap β :=
  ⟨alter key update m.entries⟩

def insert (m : OrderedMap β) (key : String) (value : β) : OrderedMap β :=
  m.extend key fun _ => value

def erase (m : OrderedMap β) (key : String) : OrderedMap β :=
  ⟨m.entries.filter fun entry => entry.1 ≠ key⟩

/-! ## Look-ups afterwards -/

@[simp] theorem find?_empty (key : String) : (empty : OrderedMap β).find? key = none := rfl

theorem lookup_alter (key other : String) (update : Option β → β)
    (entries : List (String × β)) :
    (alter key update entries).lookup other =
      if other = key then some (update (entries.lookup key)) else entries.lookup other := by
  induction entries with
  | nil =>
    by_cases h : other = key
    · rw [if_pos h, h, alter, List.lookup_cons_self, List.lookup_nil]
    · rw [if_neg h, alter, List.lookup_cons, beq_false_of_ne h]
  | cons entry rest ih =>
    obtain ⟨k, v⟩ := entry
    by_cases hk : k = key
    · subst hk
      rw [alter, if_pos rfl, List.lookup_cons_self]
      by_cases h : other = k
      · rw [if_pos h, h, List.lookup_cons_self]
      · rw [if_neg h, List.lookup_cons, List.lookup_cons, beq_false_of_ne h]
    · rw [alter, if_neg hk, List.lookup_cons, List.lookup_cons, List.lookup_cons, ih,
        beq_false_of_ne (Ne.symm hk)]
      by_cases h : other = k
      · subst h
        simp [hk]
      · simp [beq_false_of_ne h]

theorem find?_extend (m : OrderedMap β) (key other : String) (update : Option β → β) :
    (m.extend key update).find? other =
      if other = key then some (update (m.find? key)) else m.find? other :=
  lookup_alter ..

theorem find?_insert (m : OrderedMap β) (key other : String) (value : β) :
    (m.insert key value).find? other = if other = key then some value else m.find? other :=
  find?_extend ..

theorem lookup_filter_ne (key other : String) (entries : List (String × β)) :
    (entries.filter fun entry => entry.1 ≠ key).lookup other =
      if other = key then none else entries.lookup other := by
  induction entries with
  | nil => simp
  | cons entry rest ih =>
    obtain ⟨k, v⟩ := entry
    by_cases hk : k = key
    · subst hk
      rw [List.filter_cons_of_neg (by simp), ih, List.lookup_cons]
      by_cases h : other = k
      · rw [if_pos h, if_pos h]
      · rw [beq_false_of_ne h]
    · rw [List.filter_cons_of_pos (by simpa using hk), List.lookup_cons, List.lookup_cons, ih]
      by_cases h : other = k
      · subst h
        simp [hk]
      · simp [beq_false_of_ne h]

theorem find?_erase (m : OrderedMap β) (key other : String) :
    (m.erase key).find? other = if other = key then none else m.find? other :=
  lookup_filter_ne ..

/-! ## Keys afterwards -/

@[simp] theorem keys_empty : (empty : OrderedMap β).keys = [] := rfl

@[simp] theorem length_keys (m : OrderedMap β) : m.keys.length = m.size :=
  List.length_map ..

@[simp] theorem isEmpty_iff {m : OrderedMap β} : m.isEmpty = true ↔ m.keys = [] := by
  simp [isEmpty, keys]

theorem isSome_lookup_iff {key : String} {entries : List (String × β)} :
    (entries.lookup key).isSome = true ↔ key ∈ entries.map Prod.fst := by
  induction entries with
  | nil => simp
  | cons entry rest ih =>
    obtain ⟨k, v⟩ := entry
    by_cases h : key = k
    · simp [h, List.lookup_cons_self]
    · simp only [List.lookup_cons, beq_false_of_ne h, ih, List.map_cons, List.mem_cons, h,
        false_or]

/-- A map knows a key if and only if the key is listed. -/
theorem contains_iff {m : OrderedMap β} {key : String} : m.contains key = true ↔ key ∈ m.keys :=
  isSome_lookup_iff

theorem find?_eq_none_iff {m : OrderedMap β} {key : String} :
    m.find? key = none ↔ key ∉ m.keys := by
  rw [← contains_iff, contains]
  simp

theorem keys_alter (key : String) (update : Option β → β) (entries : List (String × β)) :
    (alter key update entries).map Prod.fst =
      if key ∈ entries.map Prod.fst then entries.map Prod.fst
      else entries.map Prod.fst ++ [key] := by
  induction entries with
  | nil => simp [alter]
  | cons entry rest ih =>
    obtain ⟨k, v⟩ := entry
    by_cases hk : k = key
    · simp [alter, hk]
    · rw [alter, if_neg hk, List.map_cons, ih, List.map_cons]
      by_cases later : key ∈ rest.map Prod.fst
      · simp [later]
      · simp [later, Ne.symm hk]

/-- A key that is there keeps its place, a new one comes last. -/
theorem keys_extend (m : OrderedMap β) (key : String) (update : Option β → β) :
    (m.extend key update).keys = if key ∈ m.keys then m.keys else m.keys ++ [key] :=
  keys_alter ..

theorem keys_insert (m : OrderedMap β) (key : String) (value : β) :
    (m.insert key value).keys = if key ∈ m.keys then m.keys else m.keys ++ [key] :=
  keys_extend ..

theorem keys_erase (m : OrderedMap β) (key : String) :
    (m.erase key).keys = m.keys.filter (· ≠ key) := by
  rw [keys, keys, erase, List.filter_map]
  rfl

theorem nodup_keys_extend {m : OrderedMap β} (unique : m.keys.Nodup) (key : String)
    (update : Option β → β) : (m.extend key update).keys.Nodup := by
  rw [keys_extend]
  split
  · exact unique
  · rename_i fresh
    rw [List.nodup_append]
    refine ⟨unique, by simp, fun other member last inLast same => ?_⟩
    rw [List.mem_singleton] at inLast
    rw [same, inLast] at member
    exact fresh member

theorem nodup_keys_erase {m : OrderedMap β} (unique : m.keys.Nodup) (key : String) :
    (m.erase key).keys.Nodup := by
  rw [keys_erase]
  exact unique.sublist List.filter_sublist

/-- What is done to a key depends on the value it has so far, and on nothing else. -/
theorem extend_congr {m : OrderedMap β} {key : String} {first second : Option β → β}
    (same : first (m.find? key) = second (m.find? key)) :
    m.extend key first = m.extend key second := by
  obtain ⟨entries⟩ := m
  rw [extend, extend]
  congr 1
  induction entries with
  | nil => simpa [find?, alter] using same
  | cons entry rest ih =>
    obtain ⟨k, v⟩ := entry
    by_cases hk : k = key
    · subst hk
      rw [find?, List.lookup_cons_self] at same
      rw [alter, alter, if_pos rfl, if_pos rfl, same]
    · rw [find?, List.lookup_cons, beq_false_of_ne (Ne.symm hk)] at same
      rw [alter, alter, if_neg hk, if_neg hk, ih same]

end OrderedMap

end SegmentCatalog
