import SegmentCatalog.Config.Basic
import SegmentCatalog.Proofs.Decimal.Literals
import SegmentCatalog.Proofs.Text.Letters
import SegmentCatalog.Proofs.Traversal
import SegmentCatalog.Schema.Vocabulary

/-! # Conditions that are checked in turn

A reader of several steps stops at the first step that fails.  A `Condition` is what a step asks
for and the errors that it may report, said without the step; `Checks x conditions` says that `x`
has an outcome if and only if all the conditions hold, and otherwise the error that the first one
to fail reports.

Readers that check lists of conditions can be run one after the other (`Checks.bind`), so the
conditions of a long reader are found step by step.  `Kind` is about the steps that read the value
of one key, and `Kind.required` and `Kind.optional` are their conditions.
-/

namespace SegmentCatalog

/-- What is asked for, and the errors that are reported where it is not so. -/
structure Condition where
  holds : Prop
  reports : DecodeError → Prop

/-- The first of the conditions that does not hold reports the error. -/
inductive FirstViolation (e : DecodeError) : List Condition → Prop
  | here {k : Condition} {conditions : List Condition} :
      ¬ k.holds → k.reports e → FirstViolation e (k :: conditions)
  | later {k : Condition} {conditions : List Condition} :
      k.holds → FirstViolation e conditions → FirstViolation e (k :: conditions)

variable {α β : Type} {x : Except DecodeError α} {f : α → Except DecodeError β} {e : DecodeError}
  {k : Condition} {conditions more : List Condition}

theorem firstViolation_cons : FirstViolation e (k :: conditions) ↔
    ¬ k.holds ∧ k.reports e ∨ k.holds ∧ FirstViolation e conditions := by
  constructor
  · intro violation
    cases violation with
    | here violated reported => exact .inl ⟨violated, reported⟩
    | later held violation => exact .inr ⟨held, violation⟩
  · intro violation
    cases violation with
    | inl first => exact .here first.1 first.2
    | inr rest => exact .later rest.1 rest.2

/-- An error is that of the first violation if the list can be split where it is. -/
theorem firstViolation_iff : FirstViolation e conditions ↔ ∃ before k after,
    conditions = before ++ k :: after ∧ (∀ earlier ∈ before, earlier.holds) ∧
    ¬ k.holds ∧ k.reports e := by
  constructor
  · intro violation
    induction violation with
    | here violated reported => exact ⟨[], _, _, rfl, by simp, violated, reported⟩
    | later held _ ih =>
      obtain ⟨before, k, after, rfl, all, violated, reported⟩ := ih
      exact ⟨_ :: before, k, after, rfl, List.forall_mem_cons.2 ⟨held, all⟩, violated, reported⟩
  · intro ⟨before, k, after, shape, all, violated, reported⟩
    subst shape
    induction before with
    | nil => exact .here violated reported
    | cons first before ih =>
      obtain ⟨held, all⟩ := List.forall_mem_cons.1 all
      exact .later held (ih all)

theorem FirstViolation.not_all (violation : FirstViolation e conditions) :
    ¬ ∀ k ∈ conditions, k.holds := by
  induction violation with
  | here violated _ => exact fun all => violated (all _ (List.mem_cons_self ..))
  | later _ _ ih => exact fun all => ih fun k member => all k (List.mem_cons_of_mem _ member)

theorem firstViolation_append : FirstViolation e (conditions ++ more) ↔
    FirstViolation e conditions ∨ (∀ k ∈ conditions, k.holds) ∧ FirstViolation e more := by
  induction conditions with
  | nil =>
    have none : ¬ FirstViolation e [] := nofun
    simp [none]
  | cons k conditions ih =>
    simp only [List.cons_append, firstViolation_cons, ih, List.forall_mem_cons, and_or_left,
      or_assoc, and_assoc]

/-! ## Readers that check conditions -/

/-- `x` has an outcome if all the conditions hold, else the error of the first that does not. -/
structure Checks (x : Except DecodeError α) (conditions : List Condition) : Prop where
  ok_iff : (∃ a, x = .ok a) ↔ ∀ k ∈ conditions, k.holds
  error_iff : ∀ e, x = .error e ↔ FirstViolation e conditions

namespace Checks

theorem nil (a : α) : Checks (.ok a) [] where
  ok_iff := by simp
  error_iff e := ⟨nofun, nofun⟩

theorem pass (held : k.holds) (rest : Checks x conditions) : Checks x (k :: conditions) where
  ok_iff := by rw [rest.ok_iff, List.forall_mem_cons, and_iff_right held]
  error_iff e := by simp [rest.error_iff, firstViolation_cons, held]

theorem fail (violated : ¬ k.holds) (reported : ∀ e', k.reports e' ↔ e' = e) :
    Checks (.error e : Except DecodeError α) (k :: conditions) where
  ok_iff := by simp [violated]
  error_iff e' := by simp [firstViolation_cons, violated, reported, eq_comm]

theorem pass_all (all : ∀ k ∈ conditions, k.holds) (rest : Checks x more) :
    Checks x (conditions ++ more) := by
  induction conditions with
  | nil => exact rest
  | cons k conditions ih =>
    obtain ⟨held, all⟩ := List.forall_mem_cons.1 all
    exact .pass held (ih all)

theorem of_all (all : ∀ k ∈ conditions, k.holds) (a : α) :
    Checks (.ok a : Except DecodeError α) conditions := by
  rw [← List.append_nil conditions]
  exact pass_all all (.nil a)

/-- What is checked first is all that counts if it fails. -/
theorem append_of_error (first : Checks (.error e : Except DecodeError α) conditions) :
    Checks (.error e : Except DecodeError β) (conditions ++ more) := by
  have violated : ¬ ∀ k ∈ conditions, k.holds := ((first.error_iff e).1 rfl).not_all
  refine ⟨⟨nofun, fun all => ?_⟩, fun e' => ?_⟩
  · exact absurd (fun k member => all k (List.mem_append_left more member)) violated
  · have same := first.error_iff e'
    rw [Except.error.injEq] at same ⊢
    rw [firstViolation_append, same, or_iff_left fun later => violated later.1]

/-- Of two readers in a row, the second checks its conditions only if the first has an outcome. -/
theorem bind (first : Checks x conditions) (second : ∀ a, x = .ok a → Checks (f a) more) :
    Checks (x >>= f) (conditions ++ more) := by
  cases x with
  | ok a => exact pass_all (first.ok_iff.1 ⟨a, rfl⟩) (second a rfl)
  | error e => exact append_of_error first

/-- A condition that is asked for in some cases only, of which this is one. -/
theorem under {p : Prop} (this : p) (checks : Checks x [k]) :
    Checks x [{ holds := p → k.holds, reports := k.reports }] := by
  have same : (p → k.holds) = k.holds := propext (forall_prop_of_true this)
  rw [same]
  exact checks

theorem cons (first : Checks x [k]) (second : ∀ a, x = .ok a → Checks (f a) more) :
    Checks (x >>= f) (k :: more) :=
  first.bind second

end Checks

/-! ## Values of one key -/

/-- What the text of a value may be, and the error that any other text under a key is refused
    with. -/
structure Kind where
  accepts : String → Prop
  refusal : String → String → DecodeError

namespace Kind

/-- A number of 32 bits. -/
def integer : Kind where
  accepts text := ∃ n : Int32, Decimal.Spells (Text.trim text.toList) n.toInt
  refusal := .malformedNumber

/-- One of the words for a truth value, in any case. -/
def truth : Kind where
  accepts text := ∃ word ∈ Literal.trueWords ++ Literal.falseWords,
    Text.SameLetters (Text.trim text.toList) word.toList
  refusal := .malformedBoolean

/-- The name of a member, in any case. -/
def keyword (α : Type) [Vocabulary α] : Kind where
  accepts text := ∃ x : α, (Vocabulary.name x).toList = Text.upper (Text.trim text.toList)
  refusal _ text := .unrecognized (Vocabulary.kind α) text

/-- `read` reads the texts of this kind, and refuses all others as the values of `key`. -/
def Reads (kind : Kind) (key : String) (read : String → Except DecodeError α) : Prop :=
  ∀ text, (kind.accepts text ∧ ∃ a, read text = .ok a) ∨
    (¬ kind.accepts text ∧ read text = .error (kind.refusal key text))

theorem integer_reads (key : String) : integer.Reads key (Literal.int32 key) := by
  intro text
  simp only [integer, Literal.int32, ← Decimal.int32?_eq_some_iff]
  cases Decimal.int32? (Text.trim text.toList) with
  | none => simp
  | some n => simp

theorem boolean?_isSome_iff {text : String} :
    (Literal.boolean? text).isSome = true ↔ truth.accepts text := by
  have small : ∀ word ∈ Literal.trueWords ++ Literal.falseWords,
      Text.lower word.toList = word.toList := by decide
  have known : (Literal.boolean? text).isSome = true ↔
      String.ofList (Text.lower (Text.trim text.toList)) ∈
        Literal.trueWords ++ Literal.falseWords := by
    rw [List.mem_append, Literal.boolean?]
    split
    · simp [*]
    · split
      · simp [*]
      · simp [*]
  rw [known]
  exact Text.lower_mem_iff small

theorem truth_reads (key : String) : truth.Reads key (Literal.boolean key) := by
  intro text
  rw [← boolean?_isSome_iff, Literal.boolean]
  cases Literal.boolean? text with
  | none => simp [truth]
  | some b => simp

theorem keyword_reads (α : Type) [Vocabulary α] (key : String) :
    (keyword α).Reads key (Literal.member α) := by
  intro text
  simp only [keyword, Literal.member, ← Vocabulary.find?_eq_some_iff]
  cases Vocabulary.find? α text with
  | none => simp
  | some x => simp

variable {kind : Kind} {config : Config} {key : String}

/-- The key is there, with a value of the kind. -/
def required (kind : Kind) (config : Config) (key : String) : Condition where
  holds := ∃ text, config.text? key = some text ∧ kind.accepts text
  reports e := e = (config.text? key).elim (.missingProperty key) (kind.refusal key)

/-- The key is absent, or has a value of the kind. -/
def optional (kind : Kind) (config : Config) (key : String) : Condition where
  holds := ∀ text, config.text? key = some text → kind.accepts text
  reports e := ∃ text, config.text? key = some text ∧ e = kind.refusal key text

theorem required_checks {read : String → Except DecodeError α} (reads : kind.Reads key read) :
    Checks (config.required key >>= read) [kind.required config key] := by
  cases found : config.text? key with
  | none =>
    rw [Config.required_of_absent found]
    refine .fail ?_ fun e => ?_
    · simp [required, found]
    · simp [required, found]
  | some text =>
    rw [Config.required, found]
    show Checks (read text) _
    cases reads text with
    | inl accepted =>
      obtain ⟨accepted, a, read⟩ := accepted
      rw [read]
      exact .pass ⟨text, found, accepted⟩ (.nil a)
    | inr refused =>
      rw [refused.2]
      refine .fail ?_ fun e => ?_
      · simp [required, found, refused.1]
      · simp [required, found]

/-- A reader that has nothing to read has an outcome, whatever it is. -/
theorem optional_checks {read : String → Except DecodeError α} (reads : kind.Reads key read)
    (present : ∀ text, config.text? key = some text → x = read text)
    (absent : config.text? key = none → ∃ a, x = .ok a) :
    Checks x [kind.optional config key] := by
  cases found : config.text? key with
  | none =>
    obtain ⟨a, rfl⟩ := absent found
    exact .pass (by simp [optional, found]) (.nil a)
  | some text =>
    rw [present text found]
    cases reads text with
    | inl accepted =>
      obtain ⟨accepted, a, read⟩ := accepted
      rw [read]
      exact .pass (by simpa [optional, found] using accepted) (.nil a)
    | inr refused =>
      rw [refused.2]
      refine .fail ?_ fun e => ?_
      · simpa [optional, found] using refused.1
      · simp [optional, found]

/-! ## Readers of a key -/

theorem int_checks (config : Config) (key : String) :
    Checks (config.int key) [integer.required config key] :=
  required_checks (integer_reads key)

theorem boolean_checks (config : Config) (key : String) :
    Checks (config.boolean key) [truth.required config key] :=
  required_checks (truth_reads key)

theorem booleanOr_checks (config : Config) (key : String) (default : Bool) :
    Checks (config.booleanOr key default) [truth.optional config key] := by
  apply optional_checks (truth_reads key)
  · intro text found
    rw [Config.booleanOr, found]
  · intro absent
    exact ⟨default, by rw [Config.booleanOr, absent]⟩

/-- A keyword with a default, which is a keyword itself. -/
theorem member_checks {α : Type} [Vocabulary α] (config : Config) (key : String) (default : α) :
    Checks (Literal.member α (config.textOr key (Vocabulary.name default)))
      [(keyword α).optional config key] := by
  apply optional_checks (keyword_reads α key)
  · intro text found
    rw [Config.textOr, found, Option.getD_some]
  · intro absent
    refine ⟨default, ?_⟩
    rw [Config.textOr, absent, Option.getD_none, Literal.member, Vocabulary.find?_name]

end Kind

end SegmentCatalog
