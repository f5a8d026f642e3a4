import SegmentCatalog.Proofs.Verification

/-! # The commands on one file

The three commands load the file that they are given in the same way, and print what they have to
say of its columns one after the other.  `commands_agree` compares their runs on one file: which of
them succeed, that a description of the file is the descriptions of its columns in their order, and
that the table has one row for each of them (`Row`).

A single column is found by its name.  The names of a segment are distinct, so that each of its
columns is found (`Segment.find?_name_of_load`), and the table of places that comes with the
segment finds the same (`Segment.Indexed.load_eq`).
-/

namespace SegmentCatalog

/-! ## Columns by name -/

namespace Segment

variable {file : Option ByteArray} {segment : Segment} {c : Column}

theorem find?_name_of_load (loaded : load file = .ok segment) (member : c ∈ segment.columns) :
    segment.find? c.name = some c := by
  obtain ⟨store, _, decoded⟩ := bind_eq_ok.1 loaded
  exact find?_name_of_decode decoded member

/-- The segment of a properties file, with the table of places of its columns. -/
def Indexed.load (file : Option ByteArray) : Except DecodeError Indexed := do
  let store ← PropertyStore.load file
  walk store.config

theorem Indexed.load_eq (file : Option ByteArray) :
    Indexed.load file = (Segment.load file).map fun segment => ofColumns segment.columns := by
  unfold Indexed.load Segment.load
  cases PropertyStore.load file with
  | error e => rfl
  | ok store => exact walk_eq store.config

theorem Indexed.find?_ofColumns_of_load (loaded : Segment.load file = .ok segment) (name : String) :
    (ofColumns segment.columns).find? name = segment.find? name := by
  have inStep := inStep_ofColumns (nodup_columnNames_of_load loaded)
  rw [inStep.find?_eq, segment_ofColumns]

end Segment

namespace CommandLine

variable {file : Option ByteArray} {segment : Segment} {c : Column} {name : String} {e : DecodeError}

/-! ## Single runs -/

theorem describe_of_error (failed : Segment.load file = .error e) (column : Option String)
    (json : Bool) : describe file column json = failure e.diagnostic := by
  simp [describe, failed]

theorem describe_all (loaded : Segment.load file = .ok segment) (json : Bool) :
    describe file none json = { stdout := describeColumns json segment.columns } := by
  simp [describe, loaded, select]

theorem describe_of_found (loaded : Segment.load file = .ok segment)
    (found : segment.find? name = some c) (json : Bool) :
    describe file (some name) json = { stdout := describeColumns json [c] } := by
  simp [describe, loaded, select, found]

theorem describe_of_absent (loaded : Segment.load file = .ok segment)
    (absent : name ∉ segment.columnNames) (json : Bool) :
    describe file (some name) json = failure (Text.quote ("Column not found: " ++ name)) := by
  have none : segment.find? name = none := by
    rwa [← Option.not_isSome_iff_eq_none, Segment.find?_isSome_iff]
  simp [describe, loaded, select, none]

theorem listColumns_of_error (failed : Segment.load file = .error e) :
    listColumns file = failure e.diagnostic := by
  simp [listColumns, failed]

theorem listColumns_of_load (loaded : Segment.load file = .ok segment) :
    listColumns file = { stdout := table segment } := by
  simp [listColumns, loaded]

theorem exit_describe_all_iff (json : Bool) :
    (describe file none json).exit = 0 ↔ ∃ segment, Segment.load file = .ok segment := by
  cases loaded : Segment.load file with
  | error e => simp [describe_of_error loaded, failure]
  | ok segment => simp [describe_all loaded]

theorem exit_listColumns_iff :
    (listColumns file).exit = 0 ↔ ∃ segment, Segment.load file = .ok segment := by
  cases loaded : Segment.load file with
  | error e => simp [listColumns_of_error loaded, failure]
  | ok segment => simp [listColumns_of_load loaded]

theorem exists_load_of_exit_verify {path : String} (passed : (verify path file).exit = 0) :
    ∃ segment, Segment.load file = .ok segment := by
  cases loaded : Segment.load file with
  | error e =>
    rw [verify_of_error loaded] at passed
    cases passed
  | ok segment => exact ⟨segment, rfl⟩

/-! ## Descriptions -/

theorem describeColumns_singleton (c : Column) : describeColumns false [c] = c.display ++ "\n" := by
  simp [describeColumns]

theorem describe_name (loaded : Segment.load file = .ok segment) (member : c ∈ segment.columns) :
    describe file (some c.name) false = { stdout := c.display ++ "\n" } := by
  rw [describe_of_found loaded (Segment.find?_name_of_load loaded member),
    describeColumns_singleton]

/-- Columns in full are described one after the other. -/
theorem describeColumns_of_load (loaded : Segment.load file = .ok segment) :
    describeColumns false segment.columns =
      String.join (segment.columnNames.map fun name =>
        (describe file (some name) false).stdout) := by
  have each : segment.columns.map (fun c => (describe file (some c.name) false).stdout) =
      segment.columns.map fun c => c.display ++ "\n" :=
    List.map_congr_left fun c member => by rw [describe_name loaded member]
  rw [Segment.columnNames, List.map_map]
  show _ = String.join (segment.columns.map fun c => (describe file (some c.name) false).stdout)
  rw [each]
  rfl

/-! ## The table -/

/-- The text at the left of a field of at least the given width. -/
def LeftAligned (width : Nat) (text field : String) : Prop :=
  ∃ n, field = text ++ .ofList (List.replicate n ' ') ∧ field.length = max width text.length

def RightAligned (width : Nat) (text field : String) : Prop :=
  ∃ n, field = .ofList (List.replicate n ' ') ++ text ∧ field.length = max width text.length

/-- The text is the row of a column: its name, its type, its role and its cardinality. -/
inductive Row (c : Column) : String → Prop
  | fields {name type role cardinality : String} (named : LeftAligned 20 c.name name)
      (typed : LeftAligned 8 c.dataType.name type) (placed : LeftAligned 10 c.fieldType.name role)
      (counted : RightAligned 12 (cardinalityText c) cardinality) :
      Row c (name ++ " " ++ type ++ " " ++ role ++ " " ++ cardinality ++ "\n")

theorem leftAligned_padRight (width : Nat) (text : String) :
    LeftAligned width text (padRight width text) := by
  refine ⟨width - text.length, rfl, ?_⟩
  rw [padRight, String.length_append, String.length_ofList, List.length_replicate]
  omega

theorem rightAligned_padLeft (width : Nat) (text : String) :
    RightAligned width text (padLeft width text) := by
  refine ⟨width - text.length, rfl, ?_⟩
  rw [padLeft, String.length_append, String.length_ofList, List.length_replicate]
  omega

theorem row_columnRow (c : Column) : Row c (columnRow c) :=
  .fields (leftAligned_padRight 20 _) (leftAligned_padRight 8 _) (leftAligned_padRight 10 _)
    (rightAligned_padLeft 12 _)

theorem Row.starts {row : String} (shown : Row c row) : ∃ rest, row = c.name ++ rest := by
  obtain ⟨⟨n, rfl, _⟩, _, _, _⟩ := shown
  simp only [String.append_assoc]
  exact ⟨_, rfl⟩

/-- The header and the rule. -/
def heading : String :=
  "COLUMN               TYPE     ROLE        CARDINALITY\n" ++
  "-----------------------------------------------------\n"

theorem table_eq (segment : Segment) :
    table segment = heading ++ String.join (segment.columns.map columnRow) ++ "\n" ++
      "(" ++ Decimal.text segment.columnNames.length ++ " columns)\n" := by
  have top : tableRow "COLUMN" "TYPE" "ROLE" "CARDINALITY" ++
      .ofList (List.replicate 53 '-') ++ "\n" = heading := by decide
  have count : segment.columnNames.length = segment.size := List.length_map _
  have bottom : " columns)" ++ "\n" = " columns)\n" := rfl
  rw [table, top, countText, count, ← bottom]
  simp only [String.append_assoc]

/-- The table of a loaded segment has a row for each of its names. -/
theorem rows_of_load (loaded : Segment.load file = .ok segment) :
    List.Forall₂ (fun name row => (∃ c, segment.find? name = some c ∧ Row c row) ∧
      ∃ rest, row = name ++ rest) segment.columnNames (segment.columns.map columnRow) := by
  rw [Segment.columnNames, List.forall₂_map_left_iff, List.forall₂_map_right_iff,
    List.forall₂_same]
  intro c member
  have shown := row_columnRow c
  exact ⟨⟨c, Segment.find?_name_of_load loaded member, shown⟩, shown.starts⟩

/-! ## All commands -/

/-- On one file, a description of all columns and the table are printed if and only if the file
    loads, and the verdict is not favourable unless it does; if it does not, neither prints anything.
    If it does, the description in full is that of one column after the other, by name and in their
    order, each of which is found; of any other name there is none.  The table has a heading, a row
    for each name in the same order, which begins with the name and is that of the column, an empty
    line and the number of names.  It makes no difference whether columns are looked up among the
    columns or in the table of places. -/
theorem commands_agree (files : Files) (input : String) :
    (∀ json, (execute files (.describe input none json)).exit = 0 ↔
      ∃ segment, Segment.load (files input) = .ok segment) ∧
    ((execute files (.columns input)).exit = 0 ↔
      ∃ segment, Segment.load (files input) = .ok segment) ∧
    ((execute files (.verify input)).exit = 0 →
      ∃ segment, Segment.load (files input) = .ok segment) ∧
    (∀ e, Segment.load (files input) = .error e →
      (∀ column json, (execute files (.describe input column json)).exit = 1 ∧
        (execute files (.describe input column json)).stdout = "") ∧
      (execute files (.columns input)).exit = 1 ∧ (execute files (.columns input)).stdout = "") ∧
    ∀ segment, Segment.load (files input) = .ok segment →
      (execute files (.describe input none false)).stdout =
        String.join (segment.columnNames.map fun name =>
          (execute files (.describe input (some name) false)).stdout) ∧
      (∀ name ∈ segment.columnNames, ∃ c, segment.find? name = some c ∧ c.name = name ∧
        execute files (.describe input (some name) false) = { stdout := c.display ++ "\n" }) ∧
      (∀ name ∉ segment.columnNames, ∀ json,
        (execute files (.describe input (some name) json)).exit = 1 ∧
        (execute files (.describe input (some name) json)).stdout = "") ∧
      (∃ rows, (execute files (.columns input)).stdout =
          heading ++ String.join rows ++ "\n" ++
            "(" ++ Decimal.text segment.columnNames.length ++ " columns)\n" ∧
        List.Forall₂ (fun name row => (∃ c, segment.find? name = some c ∧ Row c row) ∧
          ∃ rest, row = name ++ rest) segment.columnNames rows) ∧
      ∃ s, Segment.Indexed.load (files input) = .ok s ∧ s.segment = segment ∧
        ∀ name, s.find? name = segment.find? name := by
  simp only [execute]
  refine ⟨exit_describe_all_iff, exit_listColumns_iff, exists_load_of_exit_verify, ?_, ?_⟩
  · intro e failed
    simp [describe_of_error failed, listColumns_of_error failed, failure]
  · intro segment loaded
    refine ⟨?_, ?_, ?_, ?_, ?_⟩
    · rw [describe_all loaded, describeColumns_of_load loaded]
    · intro name listed
      obtain ⟨c, member, rfl⟩ := List.mem_map.1 listed
      exact ⟨c, Segment.find?_name_of_load loaded member, rfl, describe_name loaded member⟩
    · intro name absent json
      simp [describe_of_absent loaded absent, failure]
    · rw [listColumns_of_load loaded]
      exact ⟨_, table_eq segment, rows_of_load loaded⟩
    · refine ⟨Segment.Indexed.ofColumns segment.columns, ?_,
        Segment.Indexed.segment_ofColumns _, Segment.Indexed.find?_ofColumns_of_load loaded⟩
      rw [Segment.Indexed.load_eq, loaded]
      rfl

/-- A file with three columns, and one that is not there. -/
theorem commands_agree_mixed :
    (∃ segment, Segment.load (some mixedFile) = .ok segment ∧
      segment.columnNames = ["a", "b", "c"] ∧
      (execute (fun _ => some mixedFile) (.describe "s" none false)).stdout =
        String.join (segment.columnNames.map fun name =>
          (execute (fun _ => some mixedFile) (.describe "s" (some name) false)).stdout) ∧
      "d" ∉ segment.columnNames ∧
      (execute (fun _ => some mixedFile) (.describe "s" (some "d") true)).exit = 1) ∧
    Segment.load none = .error (.unreadable .notFound) ∧
    (execute (fun _ => none) (.columns "s")).stdout = "" := by
  have loaded := load_mixedFile
  have names : (Segment.decode (PropertyStore.setLists OrderedMap.empty mixed).config).map
      Segment.columnNames = .ok ["a", "b", "c"] := by
    decide +kernel
  cases decoded : Segment.decode (PropertyStore.setLists OrderedMap.empty mixed).config with
  | error e =>
    rw [decoded] at names
    cases names
  | ok segment =>
    rw [decoded] at loaded names
    have named : segment.columnNames = ["a", "b", "c"] := Except.ok.inj names
    have absent : "d" ∉ segment.columnNames := by
      rw [named]
      decide
    obtain ⟨_, _, _, _, runs⟩ := commands_agree (fun _ => some mixedFile) "s"
    obtain ⟨joined, _, refused, _⟩ := runs segment loaded
    obtain ⟨_, _, _, fails, _⟩ := commands_agree (fun _ => none) "s"
    have missing : Segment.load none = .error (.unreadable .notFound) := rfl
    exact ⟨⟨segment, loaded, named, joined, absent, (refused "d" absent true).1⟩, missing,
      (fails _ missing).2.2⟩

end CommandLine

end SegmentCatalog
