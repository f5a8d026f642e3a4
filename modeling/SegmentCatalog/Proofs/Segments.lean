import Mathlib.Data.List.Induction
import Mathlib.Data.List.Nodup
import SegmentCatalog.Proofs.Traversal
import SegmentCatalog.Segment

/-! # Segments column by column

A segment is read list by list: a name that is empty or has been read already is passed over,
every other column is read, added at the end and entered in a table of places
(`Segment.Indexed.visit`, `Segment.Indexed.walk`).  `Segment.Indexed.walk_eq` says that this reads
each of `Segment.names` once and nothing else; the table stays in step with the columns
(`Segment.Indexed.InStep.push`), so that it finds what looking through them finds.

`Segment.decode_by_name` says what comes out: the columns are those of the names in the four lists
(`Segment.names_eq`), in their order, and looking one up by its name gives what reading that column
alone gives.
-/

namespace SegmentCatalog

/-! ## First occurrences -/

section FirstOccurrences

variable {α : Type} [BEq α]

theorem idxOf?_concat (items : List α) (last item : α) :
    (items ++ [last]).idxOf? item =
      (items.idxOf? item).or (if last == item then some items.length else none) := by
  simp [List.idxOf?, List.findIdx?_append]

variable [LawfulBEq α]

theorem eraseDups_concat_of_mem {items : List α} {item : α} (met : item ∈ items) :
    (items ++ [item]).eraseDups = items.eraseDups := by
  simp [List.eraseDups_append, List.removeAll, met]

theorem eraseDups_concat_of_not_mem {items : List α} {item : α} (fresh : item ∉ items) :
    (items ++ [item]).eraseDups = items.eraseDups ++ [item] := by
  simp [List.eraseDups_append, List.removeAll, List.eraseDups_cons, fresh]

theorem nodup_eraseDups (items : List α) : items.eraseDups.Nodup := by
  induction items using List.reverseRecOn with
  | nil => simp
  | append_singleton items item ih =>
    by_cases met : item ∈ items
    · rwa [eraseDups_concat_of_mem met]
    · rw [eraseDups_concat_of_not_mem met]
      exact List.concat_eq_append ▸ ih.concat (mt List.mem_eraseDups.1 met)

end FirstOccurrences

namespace Segment

variable {config : Config} {segment : Segment} {name : String} {names : List String}
  {c d : Column}

/-- The names of a list that are not empty, where they first occur. -/
def distinct (listed : List String) : List String := (listed.filter (· ≠ "")).eraseDups

theorem distinct_concat (listed : List String) (name : String) :
    distinct (listed ++ [name]) =
      if name = "" ∨ name ∈ distinct listed then distinct listed
      else distinct listed ++ [name] := by
  rw [distinct, List.filter_append]
  by_cases empty : name = ""
  · simp [empty, distinct]
  · have kept : [name].filter (· ≠ "") = [name] := by simp [empty]
    rw [kept]
    by_cases met : name ∈ listed.filter (· ≠ "")
    · rw [eraseDups_concat_of_mem met, if_pos (.inr (List.mem_eraseDups.2 met)), distinct]
    · have fresh : name ∉ distinct listed := mt List.mem_eraseDups.1 met
      rw [eraseDups_concat_of_not_mem met, if_neg (not_or.2 ⟨empty, fresh⟩), distinct]

/-- The lists of a segment are those of its dimensions, its metrics, its time column and its columns
    of dates and times, in this order. -/
theorem names_eq (config : Config) :
    Segment.names config = distinct (config.list "segment.dimension.column.names" ++
      config.list "segment.metric.column.names" ++ config.list "segment.time.column.name" ++
      config.list "segment.datetime.column.names") := by
  simp only [Segment.names, SegmentKey.columnLists, List.flatMap_cons, List.flatMap_nil,
    List.append_nil, ← List.append_assoc]
  rfl

/-! ## Columns and their names -/

/-- What is read name by name bears the names it was read for. -/
theorem map_name_of_mapM {columns : List Column}
    (read : names.mapM (Column.decode config) = .ok columns) : columns.map Column.name = names := by
  rw [mapM_eq_ok_iff] at read
  induction read with
  | nil => rfl
  | cons here _ ih => rw [List.map_cons, (Column.decodes_of_decode here).name, ih]

theorem find?_isSome_iff : (segment.find? name).isSome = true ↔ name ∈ segment.columnNames := by
  simp [find?, columnNames, List.find?_isSome]

/-! ## Columns with an index -/

/-- A segment with a table of the places of its columns by name. -/
structure Indexed where
  segment : Segment
  index : Std.HashMap String Nat

namespace Indexed

def empty : Indexed := ⟨{ columns := [] }, ∅⟩

/-- Adds a column at the end. -/
def push (s : Indexed) (name : String) (c : Column) : Indexed where
  segment := { columns := s.segment.columns ++ [c] }
  index := s.index.insert name s.segment.size

/-- The column at the place that the table has for a name. -/
def find? (s : Indexed) (name : String) : Option Column :=
  s.index[name]?.bind fun i => s.segment.columns[i]?

def ofColumns (columns : List Column) : Indexed :=
  columns.foldl (fun s c => s.push c.name c) empty

/-- The table has the place of every column of the segment, and no other. -/
def InStep (s : Indexed) : Prop := ∀ name, s.index[name]? = s.segment.columnNames.idxOf? name

variable {s : Indexed}

theorem ofColumns_concat (columns : List Column) (c : Column) :
    ofColumns (columns ++ [c]) = (ofColumns columns).push c.name c := by
  simp [ofColumns]

theorem segment_ofColumns (columns : List Column) : (ofColumns columns).segment = ⟨columns⟩ := by
  induction columns using List.reverseRecOn with
  | nil => rfl
  | append_singleton columns c ih => rw [ofColumns_concat, push, ih]

theorem InStep.push (inStep : s.InStep) (fresh : c.name ∉ s.segment.columnNames) :
    (s.push c.name c).InStep := by
  intro name
  have names : (s.push c.name c).segment.columnNames = s.segment.columnNames ++ [c.name] := by
    simp [Indexed.push, columnNames]
  have size : s.segment.columnNames.length = s.segment.size := by simp [columnNames, Segment.size]
  rw [names, idxOf?_concat, size, Indexed.push, Std.HashMap.getElem?_insert, inStep name]
  by_cases same : c.name = name
  · subst same
    simp [List.idxOf?_eq_none_iff.2 fresh]
  · simp [same]

theorem inStep_ofColumns {columns : List Column} (distinct : (columns.map Column.name).Nodup) :
    (ofColumns columns).InStep := by
  induction columns using List.reverseRecOn with
  | nil => exact fun name => Std.HashMap.getElem?_empty
  | append_singleton columns c ih =>
    rw [List.map_append, List.nodup_append] at distinct
    rw [ofColumns_concat]
    apply (ih distinct.1).push
    rw [segment_ofColumns]
    intro member
    exact distinct.2.2 _ member _ (List.mem_singleton_self _) rfl

theorem InStep.contains_iff (inStep : s.InStep) :
    s.index.contains name = true ↔ name ∈ s.segment.columnNames := by
  rw [← Std.HashMap.isSome_getElem?_eq_contains, inStep]
  simp

theorem InStep.find?_eq (inStep : s.InStep) (name : String) :
    s.find? name = s.segment.find? name := by
  rw [find?, inStep, Segment.find?, columnNames]
  induction s.segment.columns with
  | nil => rfl
  | cons c columns ih =>
    by_cases same : c.name = name
    · simp [List.idxOf?_cons, same]
    · rw [List.map_cons, List.idxOf?_cons, beq_false_of_ne same, if_neg Bool.false_ne_true,
        Option.bind_map, List.find?_cons_of_neg (by simpa using same), ← ih]
      rfl

/-! ## The walk -/

/-- Takes a listed name into a segment. -/
def visit (config : Config) (s : Indexed) (name : String) : Except DecodeError Indexed :=
  if name = "" ∨ s.index.contains name then return s
  else do
    let c ← Column.decode config name
    return s.push name c

/-- Takes in the names of all lists, one after the other. -/
def walk (config : Config) : Except DecodeError Indexed :=
  SegmentKey.columnLists.foldlM
    (fun s key => (config.list key.name).foldlM (visit config) s) empty

/-- A visit reads one more name, unless it is empty or among those that have been read. -/
theorem visit_ofColumns {columns : List Column}
    (read : names.mapM (Column.decode config) = .ok columns) (distinct : names.Nodup)
    (name : String) :
    visit config (ofColumns columns) name = do
      let columns ← (if name = "" ∨ name ∈ names then names else names ++ [name]).mapM
        (Column.decode config)
      return ofColumns columns := by
  have named := map_name_of_mapM read
  have inStep : (ofColumns columns).InStep := inStep_ofColumns (named ▸ distinct)
  have known : (ofColumns columns).index.contains name = true ↔ name ∈ names := by
    rw [inStep.contains_iff, segment_ofColumns, columnNames, named]
  simp only [visit, known]
  split
  · rw [read]
    rfl
  · rw [List.mapM_append, read, List.mapM_cons, List.mapM_nil]
    cases here : Column.decode config name with
    | error e => rfl
    | ok c =>
      show _ = Except.ok (ofColumns (columns ++ [c]))
      rw [ofColumns_concat, (Column.decodes_of_decode here).name]
      rfl

/-- The walk so far has read the distinct names met so far. -/
theorem foldlM_visit (config : Config) (listed : List String) :
    listed.foldlM (visit config) empty = do
      let columns ← (distinct listed).mapM (Column.decode config)
      return ofColumns columns := by
  induction listed using List.reverseRecOn with
  | nil => rfl
  | append_singleton listed name ih =>
    rw [List.foldlM_append, ih, distinct_concat]
    cases read : (distinct listed).mapM (Column.decode config) with
    | error e =>
      -- a walk that has failed reads nothing more
      split
      · rw [read]
        rfl
      · rw [List.mapM_append, read]
        rfl
    | ok columns =>
      simp only [List.foldlM_cons, List.foldlM_nil, bind_pure]
      exact visit_ofColumns read (nodup_eraseDups _) name

/-- Reading a segment is the walk along its lists. -/
theorem walk_eq (config : Config) :
    walk config = (decode config).map fun segment => ofColumns segment.columns := by
  have along : walk config = (SegmentKey.columnLists.flatMap fun key =>
      config.list key.name).foldlM (visit config) empty := by
    simp [walk, SegmentKey.columnLists, List.foldlM_append]
  rw [along, foldlM_visit, decode]
  show (do
    let columns ← (Segment.names config).mapM (Column.decode config)
    return ofColumns columns) = _
  cases (Segment.names config).mapM (Column.decode config) <;> rfl

theorem segment_walk (config : Config) : (walk config).map Indexed.segment = decode config := by
  rw [walk_eq]
  cases decode config with
  | error e => rfl
  | ok segment => simp [Except.map, segment_ofColumns]

end Indexed

/-! ## What comes out -/

theorem columns_of_decode (decoded : decode config = .ok segment) :
    (Segment.names config).mapM (Column.decode config) = .ok segment.columns := by
  obtain ⟨columns, read, same⟩ := bind_eq_ok.1 decoded
  cases same
  exact read

theorem columnNames_of_decode (decoded : decode config = .ok segment) :
    segment.columnNames = Segment.names config :=
  map_name_of_mapM (columns_of_decode decoded)

/-- The table finds the columns that are there, each under its name. -/
theorem Indexed.find?_walk {s : Indexed} (walked : walk config = .ok s) (name : String) :
    s.find? name = s.segment.find? name := by
  rw [walk_eq] at walked
  cases decoded : decode config with
  | error e =>
    rw [decoded] at walked
    cases walked
  | ok segment =>
    rw [decoded] at walked
    cases walked
    have distinct : segment.columnNames.Nodup := columnNames_of_decode decoded ▸ nodup_eraseDups _
    exact (inStep_ofColumns distinct).find?_eq name

/-- A column of a segment is what is read for its name. -/
theorem decode_name_of_mem (decoded : decode config = .ok segment) (member : c ∈ segment.columns) :
    Column.decode config c.name = .ok c := by
  obtain ⟨name, _, here⟩ := exists_item_of_mapM (columns_of_decode decoded) member
  rwa [(Column.decodes_of_decode here).name]

theorem find?_eq_some_iff_of_decode (decoded : decode config = .ok segment) :
    segment.find? name = some c ↔
      name ∈ Segment.names config ∧ Column.decode config name = .ok c := by
  -- the column that a look-up finds is in the segment, and bears the name looked for
  have read : ∀ {d}, segment.find? name = some d → Column.decode config name = .ok d := by
    intro d found
    have named : d.name = name := by simpa using List.find?_some found
    rw [← named]
    exact decode_name_of_mem decoded (List.mem_of_find?_eq_some found)
  have known : (segment.find? name).isSome = true ↔ name ∈ Segment.names config := by
    rw [find?_isSome_iff, columnNames_of_decode decoded]
  constructor
  · intro found
    exact ⟨known.1 (by rw [found, Option.isSome_some]), read found⟩
  · rintro ⟨listed, here⟩
    obtain ⟨d, found⟩ := Option.isSome_iff_exists.1 (known.2 listed)
    have same := read found
    rw [here, Except.ok.injEq] at same
    rw [found, same]

/-- Every column is found under its name. -/
theorem find?_name_of_decode (decoded : decode config = .ok segment)
    (member : c ∈ segment.columns) : segment.find? c.name = some c := by
  have listed : c.name ∈ Segment.names config := by
    rw [← columnNames_of_decode decoded]
    exact List.mem_map_of_mem member
  exact (find?_eq_some_iff_of_decode decoded).2 ⟨listed, decode_name_of_mem decoded member⟩

/-- Time unit and padding are read from keys of the segment, which name no column. -/
theorem shared_of_decode (decoded : decode config = .ok segment) (member : c ∈ segment.columns)
    (member' : d ∈ segment.columns) : c.timeUnit = d.timeUnit ∧ c.padding = d.padding := by
  have h := Column.decodes_of_decode (decode_name_of_mem decoded member)
  have h' := Column.decodes_of_decode (decode_name_of_mem decoded member')
  have unit := h.timeUnit.symm.trans h'.timeUnit
  have padding := h.padding.symm.trans h'.padding
  rw [Except.ok.injEq] at unit padding
  exact ⟨unit, padding⟩

/-- Take the names in the four lists of a segment, one list after the other, without the empty ones
    and each where it first occurs.  The walk along the lists reads the segment if and only if each
    of these columns can be read, and else it is refused for the first that is refused.  The columns
    are then those of the names, in their order; looking a name up gives what is read for that
    column alone; and the columns share the time unit and the padding character, which belong to the
    segment. -/
theorem decode_by_name (config : Config) {listed names : List String}
    (lists : listed = config.list "segment.dimension.column.names" ++
      config.list "segment.metric.column.names" ++ config.list "segment.time.column.name" ++
      config.list "segment.datetime.column.names")
    (kept : names = (listed.filter (· ≠ "")).eraseDups) :
    (Indexed.walk config).map Indexed.segment = decode config ∧
    (∀ s, Indexed.walk config = .ok s → ∀ name, s.find? name = s.segment.find? name) ∧
    ((∃ segment, decode config = .ok segment) ↔
      ∀ name ∈ names, ∃ c, Column.decode config name = .ok c) ∧
    (∀ e, decode config = .error e ↔ ∃ before name after, names = before ++ name :: after ∧
      (∀ earlier ∈ before, ∃ c, Column.decode config earlier = .ok c) ∧
      Column.decode config name = .error e) ∧
    ∀ segment, decode config = .ok segment →
      segment.columnNames = names ∧ names.Nodup ∧ segment.size = names.length ∧
      (∀ name c, segment.find? name = some c ↔
        name ∈ names ∧ Column.decode config name = .ok c) ∧
      (∀ name ∈ names, ∃ c, segment.find? name = some c ∧ c.name = name) ∧
      (∀ i : Nat, names[i]?.bind segment.find? = segment.columns[i]?) ∧
      ∀ c ∈ segment.columns, ∀ d ∈ segment.columns,
        c.timeUnit = d.timeUnit ∧ c.padding = d.padding := by
  have same : names = Segment.names config := by
    rw [kept, lists]
    exact (names_eq config).symm
  subst same
  refine ⟨Indexed.segment_walk config, fun _ => Indexed.find?_walk, ?_, fun e => ?_,
    fun segment decoded => ?_⟩
  · rw [← exists_mapM_eq_ok_iff]
    constructor
    · rintro ⟨segment, decoded⟩
      exact ⟨_, columns_of_decode decoded⟩
    · rintro ⟨columns, read⟩
      exact ⟨⟨columns⟩, bind_eq_ok.2 ⟨columns, read, rfl⟩⟩
  · rw [decode, bind_eq_error, mapM_eq_error_iff]
    -- once all names have been read, nothing is left that could fail
    refine or_iff_left ?_
    rintro ⟨columns, _, failed⟩
    cases failed
  have listed := columnNames_of_decode decoded
  refine ⟨listed, nodup_eraseDups _, ?_, fun _ _ => find?_eq_some_iff_of_decode decoded,
    fun name member => ?_, fun i => ?_, fun _ inside _ => shared_of_decode decoded inside⟩
  · rw [← listed, size, columnNames, List.length_map]
  · rw [← listed, ← find?_isSome_iff] at member
    obtain ⟨c, here⟩ := Option.isSome_iff_exists.1 member
    exact ⟨c, here, by simpa using List.find?_some here⟩
  · rw [← listed, columnNames, List.getElem?_map]
    cases here : segment.columns[i]? with
    | none => rfl
    | some c => exact find?_name_of_decode decoded (List.mem_of_getElem? here)

/-- Two columns, each listed twice, with an empty name between them; and what else is listed as the
    column of the time. -/
def relisted (time : String) : PlainMap where
  entries :=
    [("segment.dimension.column.names", "b, ,a,b"), ("segment.metric.column.names", "a"),
      ("segment.time.column.name", time)] ++
      ["a", "b"].flatMap fun column =>
        [("dataType", "INT"), ("columnType", "DIMENSION"), ("cardinality", "2"), ("totalDocs", "9"),
          ("bitsPerElement", "1"), ("dictionaryElementSize", "0"), ("isSorted", "n"),
          ("hasNullValue", "n"), ("hasInvertedIndex", "n"), ("isSingleValued", "y"),
          ("maxMultiValueElements", "0"), ("totalNumberOfEntries", "9")].map
            fun (property, value) => (columnKey column property, value)

/-- The two columns are read once each, where they first occur.  With a third one, of which nothing
    is known, the segment is refused for that one. -/
theorem decode_by_name_relisted :
    (relisted "").config.list "segment.dimension.column.names" = ["b", "", "a", "b"] ∧
    (∃ segment, decode (relisted "").config = .ok segment ∧ segment.columnNames = ["b", "a"] ∧
      ∃ c, segment.find? "a" = some c ∧ c.name = "a") ∧
    decode (relisted "a,c").config = .error (.missingProperty "c.dataType") := by
  have readable : ∀ time ∈ ["", "a,c"], ∀ name ∈ ["b", "a"],
      (Column.decode (relisted time).config name).isOk = true := by
    decide +kernel
  have read : ∀ time ∈ ["", "a,c"], ∀ name ∈ ["b", "a"],
      ∃ c, Column.decode (relisted time).config name = .ok c := by
    intro time among name listed
    have readable := readable time among name listed
    cases outcome : Column.decode (relisted time).config name with
    | error e =>
      rw [outcome] at readable
      cases readable
    | ok c => exact ⟨c, rfl⟩
  refine ⟨by decide, ?_, ?_⟩
  · have kept : ["b", "a"] = (["b", "", "a", "b", "a", ""].filter (· ≠ "")).eraseDups := by decide
    obtain ⟨_, _, succeeds, _, columns⟩ := decode_by_name (relisted "").config rfl kept
    obtain ⟨segment, decoded⟩ := succeeds.2 (read _ (by decide))
    obtain ⟨named, _, _, _, found, _⟩ := columns segment decoded
    exact ⟨segment, decoded, named, found "a" (by decide)⟩
  · have kept : ["b", "a", "c"] =
        (["b", "", "a", "b", "a", "a", "c"].filter (· ≠ "")).eraseDups := by
      decide
    obtain ⟨_, _, _, refused, _⟩ := decode_by_name (relisted "a,c").config rfl kept
    exact (refused _).2 ⟨["b", "a"], "c", [], rfl, read _ (by decide), rfl⟩

end Segment

end SegmentCatalog
