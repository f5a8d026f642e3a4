import SegmentCatalog.Partition.Ids

/-! # Sets of partitions as rising lists

A set of partitions is kept as the list of its members in rising order, so that equal sets are
equal lists.

* `PartitionIds.mem_union` says which numbers a union holds;
* `PartitionIds.ascending_of_parse` says that what is read from a list of entries rises;
* `PartitionIds.foldl_union_singletons` that a rising list is the union of its members, one
  after the other.
-/

namespace SegmentCatalog

namespace PartitionIds

/-- The numbers rise, so that none occurs twice. -/
def Ascending (ids : PartitionIds) : Prop := ids.Pairwise fun a b => a.toInt < b.toInt

theorem mem_union {id : Int32} (as bs : List Int32) : id ∈ union as bs ↔ id ∈ as ∨ id ∈ bs := by
  fun_induction union as bs with
  | case1 bs => simp
  | case2 as _ => simp
  | case3 a as b bs _ ih => simp [ih, or_assoc]
  | case4 a as b bs _ _ ih =>
    simp only [List.mem_cons, ih]
    exact or_left_comm
  | case5 a as b bs notBelow notAbove ih =>
    -- neither is below the other, so they are one number
    have same : a = b := Int32.toInt_inj.1 (by omega)
    subst same
    simp only [List.mem_cons, ih]
    exact or_or_distrib_left

theorem ascending_union {as bs : List Int32} (left : Ascending as) (right : Ascending bs) :
    Ascending (union as bs) := by
  fun_induction union as bs with
  | case1 bs => exact right
  | case2 as _ => exact left
  | case3 a as b bs below ih =>
    obtain ⟨first, rest⟩ := List.pairwise_cons.1 left
    -- `a` comes first: it is below the rest of its own list, and below `b`, the least of the other
    refine List.pairwise_cons.2 ⟨fun id member => ?_, ih rest right⟩
    rcases (mem_union _ _).1 member with inLeft | inRight
    · exact first id inLeft
    · rcases List.mem_cons.1 inRight with rfl | later
      · exact below
      · exact Int.lt_trans below ((List.pairwise_cons.1 right).1 id later)
  | case4 a as b bs _ above ih =>
    obtain ⟨first, rest⟩ := List.pairwise_cons.1 right
    refine List.pairwise_cons.2 ⟨fun id member => ?_, ih left rest⟩
    rcases (mem_union _ _).1 member with inLeft | inRight
    · rcases List.mem_cons.1 inLeft with rfl | later
      · exact above
      · exact Int.lt_trans above ((List.pairwise_cons.1 left).1 id later)
    · exact first id inRight
  | case5 a as b bs notBelow notAbove ih =>
    have same : a = b := Int32.toInt_inj.1 (by omega)
    subst same
    obtain ⟨firstLeft, restLeft⟩ := List.pairwise_cons.1 left
    obtain ⟨firstRight, restRight⟩ := List.pairwise_cons.1 right
    refine List.pairwise_cons.2 ⟨fun id member => ?_, ih restLeft restRight⟩
    rcases (mem_union _ _).1 member with inLeft | inRight
    · exact firstLeft id inLeft
    · exact firstRight id inRight

/-- The numbers of an entry rise; none of them leaves the range of 32 bits. -/
theorem ascending_members (entry : PartitionEntry) : Ascending entry.members := by
  rw [Ascending, PartitionEntry.members, List.pairwise_map]
  refine List.Pairwise.imp_of_mem (fun {i j} hi hj before => ?_) List.pairwise_lt_range
  have lower := entry.first.le_toInt
  have upper := entry.last.toInt_lt
  rw [List.mem_range] at hi hj
  -- between the ends of the entry nothing wraps round
  rw [Int32.toInt_ofInt_of_le (by omega) (by omega), Int32.toInt_ofInt_of_le (by omega) (by omega)]
  omega

theorem ascending_foldl_union (entries : List PartitionEntry) {ids : PartitionIds}
    (start : Ascending ids) :
    Ascending (entries.foldl (fun ids entry => union ids entry.members) ids) := by
  induction entries generalizing ids with
  | nil => exact start
  | cons entry entries ih => exact ih (ascending_union start (ascending_members entry))

theorem ascending_of_parse {values : List String} {ids : PartitionIds}
    (parsed : parse values = .ok ids) : Ascending ids := by
  rw [parse] at parsed
  cases read : values.mapM PartitionEntry.parse with
  | error e => rw [read] at parsed; cases parsed
  | ok entries =>
    rw [read] at parsed
    cases parsed
    exact ascending_foldl_union _ List.Pairwise.nil

theorem union_singleton {as : List Int32} {id : Int32} (above : ∀ a ∈ as, a.toInt < id.toInt) :
    union as [id] = as ++ [id] := by
  induction as with
  | nil => rw [union, List.nil_append]
  | cons a as ih =>
    obtain ⟨here, later⟩ := List.forall_mem_cons.1 above
    rw [union, if_pos here, ih later, List.cons_append]

theorem foldl_union_append {front ids : List Int32} (rising : Ascending (front ++ ids)) :
    ids.foldl (fun ids id => union ids [id]) front = front ++ ids := by
  induction ids generalizing front with
  | nil => rw [List.foldl_nil, List.append_nil]
  | cons id ids ih =>
    have above : ∀ a ∈ front, a.toInt < id.toInt := fun a member =>
      (List.pairwise_append.1 rising).2.2 a member id (List.mem_cons_self ..)
    have moved : front ++ id :: ids = front ++ [id] ++ ids := by simp
    rw [List.foldl_cons, union_singleton above, ih (moved ▸ rising), moved]

theorem foldl_union_singletons {ids : PartitionIds} (rising : ids.Ascending) :
    ids.foldl (fun ids id => union ids [id]) [] = ids :=
  foldl_union_append (List.nil_append ids ▸ rising)

end PartitionIds

end SegmentCatalog
