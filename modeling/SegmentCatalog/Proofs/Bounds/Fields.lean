import SegmentCatalog.Proofs.JsonViews

/-! # Bounds in the JSON view

In the JSON view of a column the field of a bound is `null` if there is no such bound; but it is
`null` too if the bound is an infinite number or no number at all, for these have no JSON value
(`Scalar.json_eq_null_iff`).  Of all other bounds, and so of all that are no floating point numbers,
the field tells whether there is one: `Column.field?_eq_null_iff`.
-/

namespace SegmentCatalog

namespace Json

/-- The value of the first field with the given name. -/
def field? (name : String) : Json → Option Json
  | .object fields => (fields.find? (·.1 == name)).map Prod.snd
  | _ => none

theorem ofOption_eq_null_iff {α : Type} {f : α → Json} {x : Option α} :
    ofOption f x = .null ↔ ∀ a, x = some a → f a = .null := by
  cases x with
  | none => simp [ofOption]
  | some a => simp [ofOption]

end Json

theorem Binary.json_eq_null_of_not_isFinite {F : Format} {x : Binary F} (layout : NumberLayout)
    (infinite : ¬ x.IsFinite) : x.json layout = .null := by
  have beyond : (x.isNaN || x.isInfinite) = true := by
    simp only [IsFinite] at infinite
    simp only [isNaN, isInfinite, Bool.or_eq_true, decide_eq_true_iff, beq_iff_eq]
    omega
  rw [json, if_pos beyond]

namespace Scalar

theorem json_eq_null_iff {x : Scalar} : x.json = .null ↔ ¬ x.IsFinite := by
  refine ⟨fun written finite => json_ne_null finite written, fun infinite => ?_⟩
  cases x with
  | float x => exact x.json_eq_null_of_not_isFinite .single infinite
  | double x => exact x.json_eq_null_of_not_isFinite .double infinite
  | int _ | long _ | string _ | bytes _ => exact absurd trivial infinite

theorem dataType_of_not_isFinite {x : Scalar} (infinite : ¬ x.IsFinite) :
    x.dataType = .float ∨ x.dataType = .double := by
  cases x with
  | float _ => exact .inl rfl
  | double _ => exact .inr rfl
  | int _ | long _ | string _ | bytes _ => exact absurd trivial infinite

end Scalar

namespace Column

def bound (c : Column) : BoundSide → Option Scalar
  | .min => c.minValue
  | .max => c.maxValue

variable {config : Config} {name : String} {c : Column} {view : Json}

theorem field?_json (c : Column) (side : BoundSide) :
    c.json.field? side.property.name = some (.ofOption Scalar.json (c.bound side)) := by
  cases side with
  | min => rfl
  | max => rfl

/-- In the JSON view of a decoded column the field of a bound is `null` exactly if there is no such
    bound, or if it is a floating point number that is not finite. -/
theorem field?_eq_null_iff (decoded : decode config name = .ok c) (plain : view.Plain)
    (written : view.pretty = c.jsonText) (side : BoundSide) :
    view.field? side.property.name = some .null ↔
      c.bound side = none ∨ ((c.dataType = .float ∨ c.dataType = .double) ∧
        ∃ x, c.bound side = some x ∧ ¬ x.IsFinite) := by
  have same : view = c.json := Json.pretty_injective plain c.plain_json written
  rw [same, field?_json, Option.some.injEq, Json.ofOption_eq_null_iff]
  simp only [Scalar.json_eq_null_iff]
  cases present : c.bound side with
  | none => simp
  | some x =>
    have typed : x.dataType = c.dataType := by
      refine (coherent_of_decode decoded).boundTypes x ?_
      cases side with
      | min => exact .inl present
      | max => exact .inr present
    constructor
    · intro infinite
      have beyond := infinite x rfl
      exact .inr ⟨typed ▸ Scalar.dataType_of_not_isFinite beyond, x, rfl, beyond⟩
    · simp

/-- The upper bound of this column is there, and is no number. -/
theorem field?_eq_null_iff_sample :
    decode sample.config "t.x" = .ok sampleColumn ∧
    sampleColumn.json.field? "minValue" ≠ some .null ∧
    sampleColumn.json.field? "maxValue" = some .null := by
  have each := field?_eq_null_iff decode_sample sampleColumn.plain_json rfl
  refine ⟨decode_sample, (each .min).not.2 ?_, (each .max).2 ?_⟩
  · rintro (absent | ⟨_, x, present, infinite⟩)
    · cases absent
    · cases present
      exact infinite (by decide : (Binary.ofMagnitude true 0x3f000000 : Binary .single).IsFinite)
  · exact .inr ⟨.inl rfl, _, rfl,
      (by decide : ¬ (Binary.ofMagnitude false 0x7fc00000 : Binary .single).IsFinite)⟩

/-- So it is not only where a bound is absent that its field is `null`. -/
theorem not_field?_eq_null_iff_absent :
    ¬ ∀ config name c view (side : BoundSide), decode config name = .ok c → Json.Plain view →
      view.pretty = c.jsonText →
        (view.field? side.property.name = some .null ↔ c.bound side = none) := by
  intro each
  have absent := (each _ _ _ _ .max decode_sample sampleColumn.plain_json rfl).1 rfl
  cases absent

end Column

end SegmentCatalog
