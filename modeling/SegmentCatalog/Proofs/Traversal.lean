import Mathlib.Data.List.Forall2
import SegmentCatalog.Proofs.Decoding

/-! # Reading one thing after the other

A list is read item by item, and reading stops at the first item that is refused.

* `mapM_eq_ok_iff`: it succeeds with the outcomes of the items, each in its place, and it does
  succeed if every item can be read (`exists_mapM_eq_ok_iff`);
* `mapM_eq_error_iff`: it fails with the error of the first item that fails.
-/

namespace SegmentCatalog

variable {ε α β : Type} {read : α → Except ε β}

theorem bind_eq_error {x : Except ε α} {f : α → Except ε β} {e : ε} :
    (x >>= f) = .error e ↔ x = .error e ∨ ∃ a, x = .ok a ∧ f a = .error e := by
  cases x <;> simp [bind, Except.bind]

theorem mapM_eq_ok_iff {items : List α} {outcomes : List β} :
    items.mapM read = .ok outcomes ↔
      List.Forall₂ (fun item outcome => read item = .ok outcome) items outcomes := by
  induction items generalizing outcomes with
  | nil => cases outcomes <;> simp [pure, Except.pure]
  | cons item items ih =>
    simp only [List.mapM_cons, bind_eq_ok, List.forall₂_cons_left_iff, ih]
    constructor
    · rintro ⟨outcome, here, outcomes, later, same⟩
      cases same
      exact ⟨outcome, outcomes, here, later, rfl⟩
    · rintro ⟨outcome, outcomes, here, later, rfl⟩
      exact ⟨outcome, here, outcomes, later, rfl⟩

theorem exists_item_of_mapM {items : List α} {outcomes : List β}
    (all : items.mapM read = .ok outcomes) {outcome : β} (member : outcome ∈ outcomes) :
    ∃ item ∈ items, read item = .ok outcome := by
  rw [mapM_eq_ok_iff] at all
  induction all with
  | nil => cases member
  | cons here _ ih =>
    cases member with
    | head => exact ⟨_, List.mem_cons_self .., here⟩
    | tail _ later =>
      obtain ⟨item, inside, found⟩ := ih later
      exact ⟨item, List.mem_cons_of_mem _ inside, found⟩

theorem exists_outcome_of_mapM {items : List α} {outcomes : List β}
    (all : items.mapM read = .ok outcomes) {item : α} (member : item ∈ items) :
    ∃ outcome ∈ outcomes, read item = .ok outcome := by
  rw [mapM_eq_ok_iff] at all
  induction all with
  | nil => cases member
  | cons here _ ih =>
    cases member with
    | head => exact ⟨_, List.mem_cons_self .., here⟩
    | tail _ later =>
      obtain ⟨outcome, inside, found⟩ := ih later
      exact ⟨outcome, List.mem_cons_of_mem _ inside, found⟩

theorem exists_mapM_eq_ok_iff {items : List α} :
    (∃ outcomes, items.mapM read = .ok outcomes) ↔
      ∀ item ∈ items, ∃ outcome, read item = .ok outcome := by
  induction items with
  | nil => simp [pure, Except.pure]
  | cons item items ih =>
    simp only [mapM_eq_ok_iff, List.forall₂_cons_left_iff, List.forall_mem_cons] at ih ⊢
    rw [← ih]
    constructor
    · rintro ⟨_, outcome, outcomes, here, later, -⟩
      exact ⟨⟨outcome, here⟩, outcomes, later⟩
    · rintro ⟨⟨outcome, here⟩, outcomes, later⟩
      exact ⟨_, outcome, outcomes, here, later, rfl⟩

theorem mapM_eq_error_iff {items : List α} {e : ε} :
    items.mapM read = .error e ↔ ∃ before item after, items = before ++ item :: after ∧
      (∀ earlier ∈ before, ∃ outcome, read earlier = .ok outcome) ∧ read item = .error e := by
  induction items with
  | nil => simp [pure, Except.pure]
  | cons first items ih =>
    simp only [List.mapM_cons, bind_eq_error, ih, List.cons_eq_append_iff]
    constructor
    · rintro (refused | ⟨outcome, here, later⟩)
      · exact ⟨[], first, items, .inl ⟨rfl, rfl⟩, by simp, refused⟩
      · obtain ⟨before, item, after, rfl, accepted, refused⟩ | ⟨_, _, same⟩ := later
        · refine ⟨first :: before, item, after, .inr ⟨before, rfl, rfl⟩, ?_, refused⟩
          simpa using ⟨⟨outcome, here⟩, accepted⟩
        · cases same
    · rintro ⟨before, item, after, ⟨rfl, same⟩ | ⟨rest, rfl, rfl⟩, accepted, refused⟩
      · cases same
        exact .inl refused
      · obtain ⟨⟨outcome, here⟩, accepted⟩ := List.forall_mem_cons.1 accepted
        exact .inr ⟨outcome, here, .inl ⟨rest, item, after, rfl, accepted, refused⟩⟩

end SegmentCatalog
