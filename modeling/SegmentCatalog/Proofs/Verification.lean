import SegmentCatalog.CommandLine.Report
import SegmentCatalog.Proofs.Coherence
import SegmentCatalog.Proofs.Orders.Scalars
import SegmentCatalog.Proofs.PropertyFile.Written
import SegmentCatalog.Proofs.Segments

/-! # The verdict on a file

`CommandLine.verify` loads a file and asks of each column whether its bounds are in order.  Bounds
that cannot be compared are not in order either, so that a column passes if its minimum is at most
its maximum (`Column.InOrder`), and not if it is not known to be higher.

What the columns are that do not pass is said by type, without comparing (`Column.Offends`): the
minimum is greater than the maximum, or one of two floating point bounds stands for no number.  The
columns of a file have bounds of their own type, and there the two are opposites
(`Column.Coherent.not_inOrder_iff`).  Then `CommandLine.verify_verdict` tells how a call ends and
what it prints.
-/

namespace SegmentCatalog

/-! ## Greater values -/

theorem Binary.compare?_eq_gt_iff {F : Format} (wide : 2 ≤ F.exponentBits) {x y : Binary F} :
    x.compare? y = some .gt ↔ ∃ v w, x.value? = some v ∧ y.value? = some w ∧ w < v := by
  simp only [compare?_eq wide, Option.bind_eq_some_iff, Option.map_eq_some_iff, compare_gt_iff_gt]
  constructor
  · intro ⟨v, left, w, right, lower⟩
    exact ⟨v, w, left, right, lower⟩
  · intro ⟨v, w, left, right, lower⟩
    exact ⟨v, left, w, right, lower⟩

namespace Scalar

open Text (storedBytes)

variable {a b : Scalar}

/-- `a` is greater than `b`, as a number or as a word of bytes. -/
def Exceeds : Scalar → Scalar → Prop
  | int m, int n => n.toInt < m.toInt
  | long m, long n => n.toInt < m.toInt
  | float x, float y => ∃ v w, x.value? = some v ∧ y.value? = some w ∧ w < v
  | double x, double y => ∃ v w, x.value? = some v ∧ y.value? = some w ∧ w < v
  | string s, string t => (storedBytes t).map UInt8.toNat < (storedBytes s).map UInt8.toNat
  | bytes bs, bytes cs => cs.map UInt8.toNat < bs.map UInt8.toNat
  | _, _ => False

theorem compare_eq_gt_iff (as bs : List Nat) : compare as bs = .gt ↔ bs < as := by
  induction as generalizing bs with
  | nil => cases bs <;> simp [compare, List.compareLex]
  | cons a as ih =>
    cases bs with
    | nil => simp [compare, List.compareLex]
    | cons b bs =>
      rw [List.compare_cons_cons, List.cons_lt_cons_iff, Ordering.then_eq_gt, ih,
        Nat.compare_eq_gt, Nat.compare_eq_eq, eq_comm]

theorem compareWords_eq_gt_iff (bs cs : List UInt8) :
    compareWords bs cs = .gt ↔ cs.map UInt8.toNat < bs.map UInt8.toNat := by
  rw [compareWords_eq_compare, compare_eq_gt_iff]

theorem compare?_eq_gt_iff : a.compare? b = some .gt ↔ Exceeds a b := by
  cases a <;> cases b
  case int.int m n | long.long m n => simp [compare?, Exceeds, Int.compare_eq_gt]
  case float.float x y | double.double x y => exact Binary.compare?_eq_gt_iff (by decide)
  case string.string s t =>
    rw [compare?_string, Option.some.injEq, compareWords_eq_gt_iff, Exceeds]
  case bytes.bytes bs cs => rw [compare?, Option.some.injEq, compareWords_eq_gt_iff, Exceeds]
  all_goals simp [compare?, Exceeds]

instance : Decidable (Exceeds a b) := decidable_of_iff _ compare?_eq_gt_iff

instance : Decidable a.IsNaN :=
  match a with
  | float x => inferInstanceAs (Decidable (x.value? = none))
  | double x => inferInstanceAs (Decidable (x.value? = none))
  | int _ | long _ | string _ | bytes _ => inferInstanceAs (Decidable False)

theorem IsNaN.dataType (undefined : a.IsNaN) : a.dataType = .float ∨ a.dataType = .double := by
  cases a with
  | float => exact .inl rfl
  | double => exact .inr rfl
  | int | long | string | bytes => cases undefined

/-- Values of one type that are not in order are the other way round, or one is no number. -/
theorem not_atMost_iff (types : a.dataType = b.dataType) :
    ¬ AtMost a b ↔ Exceeds a b ∨ a.IsNaN ∨ b.IsNaN := by
  rw [← compare?_eq_gt_iff, AtMost]
  by_cases comparable : Comparable a b
  · obtain ⟨order, answered⟩ := Option.isSome_iff_exists.1 (isSome_compare?_iff.2 comparable)
    rw [answered]
    cases order <;> simp [comparable.2]
  · have undefined : a.IsNaN ∨ b.IsNaN := by
      rw [Comparable, and_iff_right types, ← not_or, not_not] at comparable
      exact comparable
    simp [compare?_of_not_comparable comparable, undefined]

end Scalar

/-! ## Columns -/

namespace Column

variable {c : Column}

/-- The minimum is at most the maximum, if there are bounds. -/
def InOrder (c : Column) : Prop :=
  ∀ min, c.minValue = some min → ∀ max, c.maxValue = some max → min.AtMost max

/-- The minimum is greater than the maximum, or one of two floating point bounds is no number. -/
def Offends (c : Column) : Prop :=
  match c.minValue, c.maxValue with
  | some min, some max =>
    min.Exceeds max ∨ (c.dataType = .float ∨ c.dataType = .double) ∧ (min.IsNaN ∨ max.IsNaN)
  | _, _ => False

instance : DecidablePred Offends := fun c =>
  match low : c.minValue, high : c.maxValue with
  | some min, some max =>
    decidable_of_iff
      (min.Exceeds max ∨ (c.dataType = .float ∨ c.dataType = .double) ∧ (min.IsNaN ∨ max.IsNaN))
      (by rw [Offends, low, high])
  | none, _ => isFalse (by simp [Offends, low])
  | some _, none => isFalse (by simp [Offends, high])

theorem inOrder_iff_of_bounds {min max : Scalar} (low : c.minValue = some min)
    (high : c.maxValue = some max) : c.InOrder ↔ min.AtMost max := by
  simp only [InOrder, low, high, Option.some.injEq, forall_eq']

theorem isVerified_iff : c.isVerified = true ↔ c.InOrder := by
  cases low : c.minValue with
  | none => simp [isVerified, InOrder, low]
  | some min =>
    cases high : c.maxValue with
    | none => simp [isVerified, InOrder, high]
    | some max =>
      rw [inOrder_iff_of_bounds low high, Scalar.AtMost]
      simp only [isVerified, low, high]
      cases min.compare? max with
      | none => simp
      | some order => simp [Ordering.isLE_iff_eq_lt_or_eq_eq]

/-- Bounds of the column's own type are in order unless the column offends. -/
theorem Coherent.not_inOrder_iff (coherent : c.Coherent) : ¬ c.InOrder ↔ c.Offends := by
  cases low : c.minValue with
  | none => simp [InOrder, Offends, low]
  | some min =>
    cases high : c.maxValue with
    | none => simp [InOrder, Offends, high]
    | some max =>
      have lowTyped := coherent.boundTypes min (.inl low)
      have highTyped := coherent.boundTypes max (.inr high)
      have floating : min.IsNaN ∨ max.IsNaN → c.dataType = .float ∨ c.dataType = .double := by
        intro undefined
        cases undefined with
        | inl undefined => exact lowTyped ▸ undefined.dataType
        | inr undefined => exact highTyped ▸ undefined.dataType
      simp only [Offends, low, high]
      rw [inOrder_iff_of_bounds low high, Scalar.not_atMost_iff (lowTyped.trans highTyped.symm),
        and_iff_right_of_imp floating]

end Column

/-! ## Segments that are loaded -/

namespace Segment

variable {file : Option ByteArray} {segment : Segment} {c : Column}

theorem coherent_of_load (loaded : load file = .ok segment) (member : c ∈ segment.columns) :
    c.Coherent := by
  obtain ⟨store, _, decoded⟩ := bind_eq_ok.1 loaded
  exact Column.coherent_of_decode (decode_name_of_mem decoded member)

theorem nodup_columnNames_of_load (loaded : load file = .ok segment) :
    segment.columnNames.Nodup := by
  obtain ⟨store, _, decoded⟩ := bind_eq_ok.1 loaded
  rw [columnNames_of_decode decoded]
  exact nodup_eraseDups _

/-- A written file is loaded as the segment that the lists written into it describe. -/
theorem load_written (hex : Text.HexDigits) {pairs : List (String × List String)}
    (distinct : (pairs.map Prod.fst).Nodup) (named : ∀ pair ∈ pairs, pair.1 ≠ "")
    (filled : ∀ pair ∈ pairs, pair.2 ≠ []) :
    load (some (String.ofList (PropertyFile.written hex pairs)).toUTF8) =
      decode (PropertyStore.setLists OrderedMap.empty pairs).config := by
  have text (s : String) : String.fromUTF8? s.toUTF8 = some s := dif_pos s.isValidUTF8
  have plain : ∀ line ∈ PropertyFile.writtenLines hex pairs, PropertyFile.Plain line := by
    intro line member
    obtain ⟨pair, inside, rfl⟩ := List.mem_map.1 member
    exact PropertyFile.plain_writtenLine (named pair inside)
  have lines : PropertyFile.logicalLines (String.ofList (PropertyFile.written hex pairs)).toList =
      PropertyFile.writtenLines hex pairs := by
    rw [String.toList_ofList, PropertyFile.written, PropertyFile.logicalLines_ended plain]
  rw [load, PropertyStore.load, text]
  simp only [PropertyStore.parse_of_lines lines distinct named filled]
  rfl

end Segment

/-! ## The verdict -/

namespace CommandLine

/-- The columns that are named as out of order are those that offend. -/
theorem filter_not_isVerified_of_load {file : Option ByteArray} {segment : Segment}
    (loaded : Segment.load file = .ok segment) :
    segment.columns.filter (!·.isVerified) = segment.columns.filter (·.Offends) := by
  apply List.filter_congr
  intro c member
  rw [Bool.eq_iff_iff, Bool.not_eq_true', ← Bool.not_eq_true, Column.isVerified_iff,
    (Segment.coherent_of_load loaded member).not_inOrder_iff, decide_eq_true_iff]

theorem forall_inOrder_iff {columns : List Column} :
    (∀ c ∈ columns, c.InOrder) ↔ columns.filter (!·.isVerified) = [] := by
  simp [List.filter_eq_nil_iff, ← Column.isVerified_iff]

theorem verify_of_error {path : String} {file : Option ByteArray} {e : DecodeError}
    (failed : Segment.load file = .error e) :
    verify path file =
      { exit := 1, stdout := "Verifying " ++ path ++ "... FAILED\n"
        stderr := "Error: " ++ e.message ++ "\n" } := by
  simp [verify, failed, errorLine, String.append_assoc]

theorem verify_of_inOrder {path : String} {file : Option ByteArray} {segment : Segment}
    (loaded : Segment.load file = .ok segment) (ordered : ∀ c ∈ segment.columns, c.InOrder) :
    verify path file =
      { exit := 0, stderr := ""
        stdout := "Verifying " ++ path ++ "... OK (" ++ Decimal.text segment.columns.length ++
          " columns)\n" } := by
  have count : "... OK " ++ (countText segment ++ "\n") =
      "... OK (" ++ (Decimal.text segment.columns.length ++ " columns)\n") := by
    rw [countText, String.append_assoc, String.append_assoc, ← String.append_assoc]
    rfl
  simp [verify, loaded, forall_inOrder_iff.1 ordered, count, String.append_assoc]

theorem verify_of_not_inOrder {path : String} {file : Option ByteArray} {segment : Segment}
    (loaded : Segment.load file = .ok segment) (disordered : ¬ ∀ c ∈ segment.columns, c.InOrder) :
    verify path file =
      { exit := 1, stdout := "Verifying " ++ path ++ "... FAILED\n"
        stderr := String.join ((segment.columns.filter (·.Offends)).map fun c =>
          "Error: column " ++ c.name ++ " has minValue > maxValue\n") } := by
  have line : disorderLine = fun c =>
      "Error: column " ++ c.name ++ " has minValue > maxValue\n" := by
    funext c
    simp only [disorderLine, errorLine, String.append_assoc]
    rw [← String.append_assoc]
    rfl
  rw [forall_inOrder_iff, filter_not_isVerified_of_load loaded] at disordered
  simp [verify, loaded, filter_not_isVerified_of_load loaded, line, String.append_assoc]

/-- A call of `verify` exits with zero if and only if the file loads and all bounds are in order,
    and then says so with the number of columns.  For a file that does not load it prints why, and
    for any other a line for each column that offends, in the order of the segment; no two columns
    have the same name. -/
theorem verify_verdict (path : String) (file : Option ByteArray) :
    ((verify path file).exit = 0 ↔
      ∃ segment, Segment.load file = .ok segment ∧ ∀ c ∈ segment.columns, c.InOrder) ∧
    (∀ e, Segment.load file = .error e → verify path file =
      { exit := 1, stdout := "Verifying " ++ path ++ "... FAILED\n"
        stderr := "Error: " ++ e.message ++ "\n" }) ∧
    ∀ segment, Segment.load file = .ok segment →
      ((∀ c ∈ segment.columns, c.InOrder) → verify path file =
        { exit := 0, stderr := ""
          stdout := "Verifying " ++ path ++ "... OK (" ++
            Decimal.text segment.columns.length ++ " columns)\n" }) ∧
      (¬ (∀ c ∈ segment.columns, c.InOrder) → verify path file =
        { exit := 1, stdout := "Verifying " ++ path ++ "... FAILED\n"
          stderr := String.join ((segment.columns.filter (·.Offends)).map fun c =>
            "Error: column " ++ c.name ++ " has minValue > maxValue\n") }) ∧
      (∀ c ∈ segment.columns, ¬ c.InOrder ↔ c.Offends) ∧ segment.columnNames.Nodup := by
  refine ⟨?_, fun e failed => verify_of_error failed, ?_⟩
  · cases loaded : Segment.load file with
    | error e => simp [verify_of_error loaded]
    | ok segment =>
      by_cases ordered : ∀ c ∈ segment.columns, c.InOrder
      · rw [verify_of_inOrder loaded ordered]
        exact iff_of_true rfl ⟨segment, rfl, ordered⟩
      · simp [verify_of_not_inOrder loaded ordered, ordered]
  · intro segment loaded
    exact ⟨verify_of_inOrder loaded, verify_of_not_inOrder loaded,
      fun c member => (Segment.coherent_of_load loaded member).not_inOrder_iff,
      Segment.nodup_columnNames_of_load loaded⟩

/-- The properties of a column with the given bounds. -/
def bounded (column type min max : String) : List (String × List String) :=
  [("dataType", type), ("columnType", "DIMENSION"), ("cardinality", "2"), ("totalDocs", "9"),
    ("bitsPerElement", "1"), ("dictionaryElementSize", "0"), ("isSorted", "n"),
    ("hasNullValue", "n"), ("hasInvertedIndex", "n"), ("isSingleValued", "y"),
    ("maxMultiValueElements", "0"), ("totalNumberOfEntries", "9"), ("minValue", min),
    ("maxValue", max)].map fun (property, value) => (columnKey column property, [value])

/-- Seven and ten as numbers and as texts, and bounds that are no numbers. -/
def mixed : List (String × List String) :=
  (SegmentKey.dimensionColumns.name, ["a", "b", "c"]) :: bounded "a" "INT" "7" "10" ++
    bounded "b" "STRING" "7" "10" ++ bounded "c" "DOUBLE" "nan" "nan"

def mixedFile : ByteArray :=
  (String.ofList (PropertyFile.written Text.HexDigits.capital mixed)).toUTF8

theorem load_mixedFile : Segment.load (some mixedFile) =
    Segment.decode (PropertyStore.setLists OrderedMap.empty mixed).config :=
  Segment.load_written .capital (by decide) (by decide) (by decide)

theorem verify_verdict_mixed :
    verify "s" none =
      { exit := 1, stdout := "Verifying s... FAILED\n"
        stderr := "Error: IO error: No such file or directory (os error 2)\n" } ∧
    verify "s" (some "".toUTF8) = { stdout := "Verifying s... OK (0 columns)\n" } ∧
    verify "s" (some mixedFile) =
      { exit := 1, stdout := "Verifying s... FAILED\n"
        stderr := "Error: column b has minValue > maxValue\n" ++
          "Error: column c has minValue > maxValue\n" } := by
  refine ⟨(verify_verdict "s" none).2.1 _ rfl, ?_, ?_⟩
  · have distinct : (([] : List (String × List String)).map Prod.fst).Nodup := List.nodup_nil
    have loaded : Segment.load (some "".toUTF8) = .ok ⟨[]⟩ :=
      Segment.load_written .capital distinct (List.forall_mem_nil _) (List.forall_mem_nil _)
    obtain ⟨passed, _⟩ := (verify_verdict "s" (some "".toUTF8)).2.2 _ loaded
    exact passed (by simp)
  · have loaded := load_mixedFile
    have offending : (Segment.decode (PropertyStore.setLists OrderedMap.empty mixed).config).map
        (fun segment => (segment.columns.filter (·.Offends)).map (·.name)) = .ok ["b", "c"] := by
      decide +kernel
    cases decoded : Segment.decode (PropertyStore.setLists OrderedMap.empty mixed).config with
    | error e =>
      rw [decoded] at offending
      cases offending
    | ok segment =>
      rw [decoded] at loaded offending
      have names : (segment.columns.filter (·.Offends)).map (·.name) = ["b", "c"] :=
        Except.ok.inj offending
      obtain ⟨_, refused, opposite, _⟩ := (verify_verdict "s" (some mixedFile)).2.2 _ loaded
      have lines : (segment.columns.filter (·.Offends)).map (fun c =>
            "Error: column " ++ c.name ++ " has minValue > maxValue\n") =
          ["b", "c"].map fun name => "Error: column " ++ name ++ " has minValue > maxValue\n" := by
        rw [← names, List.map_map]
        rfl
      rw [refused ?_, lines]
      · rfl
      · intro ordered
        have none : segment.columns.filter (·.Offends) = [] := by
          simp only [List.filter_eq_nil_iff, decide_eq_true_iff]
          intro c member offends
          exact (opposite c member).2 offends (ordered c member)
        rw [none] at names
        cases names

end CommandLine

end SegmentCatalog
