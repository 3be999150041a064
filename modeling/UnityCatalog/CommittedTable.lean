import UnityCatalog.CreateTable
import UnityCatalog.WireSchema
import UnityCatalog.YyjsonTails
import UnityCatalog.YyjsonWrite

/-!
# UC is told what the log says

`ReadCommittedTable` reads version 0 back and `UCAPI::CreateTable` posts what it found, so that the
catalog cannot describe a table that differs from its log. Here the body is a text: it is put
together as the format string has it, and read again as the server would.

A log is a list of actions, written one a line. Each action's texts go through C strings on the way,
a timestamp of 0 counts as none, and a null `inCommitTimestamp` hides the `timestamp` beside it.
Where none of this happens the body says what the log says, `UCAPI.told_iff`.
-/

namespace UnityCatalog

open Yyjson

/-! ## The body -/

/-- `JsonStringArray` -/
def jsonStringArray (values : List String) : List Char :=
  '[' :: (", ".toList.intercalate (values.map writeString) ++ [']'])

/-- `JsonStringMap` -/
def jsonStringMap (values : List (String × String)) : List Char :=
  let encoded := values.map fun value => writeString value.1 ++ ": ".toList ++ writeString value.2
  '{' :: (", ".toList.intercalate encoded ++ ['}'])

/-- `UCAPI::WireSchema` -/
def UCAPI.wireSchemaText (F : RealFormat) (schema_json : String) : Except Exception (List Char) :=
  (UCAPI.wireDocument schema_json).map (writeValue F)

/-- The body that `UCAPI::CreateTable` posts, which `RequestBody.registerTable` stands for. -/
def UCAPI.createTableBody (F : RealFormat) (table : UCAPICommittedTable) (table_type : String) :
    Except Exception String := do
  let columns ← UCAPI.wireSchemaText F table.schema_json
  return String.ofList (
    "\x7b\"name\": ".toList ++ writeString table.name ++
    ", \"location\": ".toList ++ writeString table.location ++
    ", \"table-type\": ".toList ++ writeString table_type ++
    ", \"columns\": ".toList ++ columns ++
    ", \"partition-columns\": ".toList ++ jsonStringArray table.partition_columns ++
    ", \"protocol\": \x7b\"min-reader-version\": ".toList ++
      (toString table.min_reader_version).toList ++
    ", \"min-writer-version\": ".toList ++ (toString table.min_writer_version).toList ++
    ", \"reader-features\": ".toList ++ jsonStringArray table.reader_features ++
    ", \"writer-features\": ".toList ++ jsonStringArray table.writer_features ++
    "\x7d, \"properties\": ".toList ++ jsonStringMap table.properties ++
    ", \"last-commit-timestamp-ms\": ".toList ++ (toString table.last_commit_timestamp_ms).toList ++
    "\x7d".toList)

/-- What a body says of the protocol. -/
def protocolBody (table : UCAPICommittedTable) : Val :=
  .obj [("min-reader-version", .num (Num.ofInt table.min_reader_version)),
    ("min-writer-version", .num (Num.ofInt table.min_writer_version)),
    ("reader-features", .arr (table.reader_features.map .str)),
    ("writer-features", .arr (table.writer_features.map .str))]

/-- What a body says, with its columns. -/
def tableBody (table : UCAPICommittedTable) (table_type : String) (columns : Val) : Val :=
  .obj [("name", .str table.name), ("location", .str table.location),
    ("table-type", .str table_type), ("columns", columns),
    ("partition-columns", .arr (table.partition_columns.map .str)),
    ("protocol", protocolBody table),
    ("properties", .obj (table.properties.map fun value => (value.1, .str value.2))),
    ("last-commit-timestamp-ms", .num (Num.ofInt table.last_commit_timestamp_ms))]

/-- The text of its protocol. -/
def protocolText (table : UCAPICommittedTable) : List Char :=
  objectText [' '] [("min-reader-version", (toString table.min_reader_version).toList),
    ("min-writer-version", (toString table.min_writer_version).toList),
    ("reader-features", jsonStringArray table.reader_features),
    ("writer-features", jsonStringArray table.writer_features)]

/-- Its text, member by member. -/
def tableText (table : UCAPICommittedTable) (table_type : String) (columns : List Char) :
    List Char :=
  objectText [' '] [("name", writeString table.name), ("location", writeString table.location),
    ("table-type", writeString table_type), ("columns", columns),
    ("partition-columns", jsonStringArray table.partition_columns),
    ("protocol", protocolText table),
    ("properties", jsonStringMap table.properties),
    ("last-commit-timestamp-ms", (toString table.last_commit_timestamp_ms).toList)]

/-- A 64-bit integer. -/
def IsInt64 (n : ℤ) : Prop := -2 ^ 63 ≤ n ∧ n < 2 ^ 63

theorem isSpace_of_mem_gap : ∀ c ∈ ([' '] : List Char), isSpace c = true := by
  simp [isSpace]

theorem reads_jsonStringArray (values : List String) :
    Reads (jsonStringArray values) (some (.arr (values.map .str))) := by
  refine reads_array isSpace_of_mem_gap ?_
  rw [ReadsItems, List.forall₂_map_left_iff, List.forall₂_map_right_iff, List.forall₂_same]
  exact fun value _ => reads_writeString value

theorem reads_jsonStringMap (values : List (String × String)) :
    Reads (jsonStringMap values)
      (some (.obj (values.map fun value => (value.1, .str value.2)))) := by
  have htexts :
    (values.map fun value => writeString value.1 ++ ": ".toList ++ writeString value.2) =
      (values.map fun value => (value.1, writeString value.2)).map (memberText [' ']) := by
    rw [List.map_map]
    refine List.map_congr_left fun value _ => ?_
    simp [memberText]
  rw [jsonStringMap, htexts]
  refine reads_fields isSpace_of_mem_gap ?_
  rw [ReadsMembers, List.forall₂_map_left_iff, List.forall₂_map_right_iff, List.forall₂_same]
  exact fun value _ => ⟨rfl, reads_writeString value.2⟩

set_option maxRecDepth 2000 in
/-- The format strings of the source put the members together: the body is the text of one
object. -/
theorem UCAPI.createTableBody_eq (F : RealFormat) (table : UCAPICommittedTable)
    (table_type : String) :
    UCAPI.createTableBody F table table_type =
      (UCAPI.wireSchemaText F table.schema_json).map fun columns =>
        String.ofList (tableText table table_type columns) := by
  rw [UCAPI.createTableBody]
  cases UCAPI.wireSchemaText F table.schema_json with
  | error e => rfl
  | ok columns =>
    refine congrArg (fun cs => Except.ok (String.ofList cs)) ?_
    simp only [tableText, protocolText, objectText, joinTexts_cons_cons, joinTexts_singleton,
      memberText, List.map_cons, List.map_nil, List.append_assoc, List.cons_append,
      List.nil_append]
    rfl

/-- The body is JSON, and says what the table has. -/
theorem UCAPI.read_createTableBody (F : RealFormat) (table : UCAPICommittedTable) {schema : Val}
    (hschema : read table.schema_json = some schema) (hreader : IsInt64 table.min_reader_version)
    (hwriter : IsInt64 table.min_writer_version)
    (htimestamp : IsInt64 table.last_commit_timestamp_ms)
    (table_type : String) :
    ∃ body columns, UCAPI.createTableBody F table table_type = .ok body ∧
      read body = some (tableBody table table_type columns) ∧
      columns.canon F = (wireSchemaCopy schema).canon F := by
  obtain ⟨columns, hcolumns, hcanon⟩ := reads_writeValue F (wireSchemaCopy schema)
  have hwire : UCAPI.wireSchemaText F table.schema_json =
      .ok (writeValue F (wireSchemaCopy schema)) := by
    rw [UCAPI.wireSchemaText, UCAPI.wireDocument, hschema]
    rfl
  have hprotocol : Reads (protocolText table) (some (protocolBody table)) :=
    reads_fields isSpace_of_mem_gap <|
      .cons _ (reads_int hreader.1 hreader.2) <| .cons _ (reads_int hwriter.1 hwriter.2) <|
      .cons _ (reads_jsonStringArray table.reader_features) <|
      .cons _ (reads_jsonStringArray table.writer_features) .nil
  have hbody : Reads (tableText table table_type (writeValue F (wireSchemaCopy schema)))
      (some (tableBody table table_type columns)) :=
    reads_fields isSpace_of_mem_gap <|
      .cons _ (reads_writeString table.name) <| .cons _ (reads_writeString table.location) <|
      .cons _ (reads_writeString table_type) <| .cons _ hcolumns <|
      .cons _ (reads_jsonStringArray table.partition_columns) <| .cons _ hprotocol <|
      .cons _ (reads_jsonStringMap table.properties) <|
      .cons _ (reads_int htimestamp.1 htimestamp.2) .nil
  refine ⟨_, columns, ?_, hbody.read, hcanon⟩
  rw [UCAPI.createTableBody_eq, hwire]
  rfl

/-! ## The log -/

/-- A `protocol` action. -/
structure LogProtocol where
  min_reader_version : ℤ := 0
  min_writer_version : ℤ := 0
  reader_features : List String := []
  writer_features : List String := []

/-- A `metaData` action, as far as it describes the table. -/
structure LogMetadata where
  schema_string : Option String := none
  partition_columns : List String := []
  configuration : List (String × String) := []

/-- A `commitInfo` action. -/
structure LogCommitInfo where
  timestamp : Option ℤ := none
  /-- `none` where it is not written, and nothing in it where it is written as null -/
  in_commit_timestamp : Option (Option ℤ) := none

/-- An action of a log. -/
inductive LogAction where
  | protocol (p : LogProtocol)
  | metaData (m : LogMetadata)
  | commitInfo (c : LogCommitInfo)
  /-- `add`, `txn`, and the like -/
  | other

/-- The integer is written, and fits 64 bits. -/
def WritesInt (v : Option Val) (n : ℤ) : Prop :=
  IsInt64 n ∧ ∃ num, v = some (.num num) ∧ IsInteger num ∧ num.value = n

/-- The integer is written where there is one. -/
def WritesOptionalInt (v : Option Val) (n : Option ℤ) : Prop :=
  Absent v ∧ n = none ∨ ∃ m, WritesInt v m ∧ n = some m

/-- The texts are written as an array, or nothing is. -/
def WritesStrings (v : Option Val) (texts : List String) : Prop :=
  v = some (.arr (texts.map .str)) ∨ Absent v ∧ texts = []

/-- The pairs are written as an object, or nothing is. -/
def WritesMap (v : Option Val) (pairs : List (String × String)) : Prop :=
  v = some (.obj (pairs.map fun pair => (pair.1, .str pair.2))) ∨ Absent v ∧ pairs = []

/-- The value is written as a `protocol`. -/
structure IsProtocol (v : Val) (p : LogProtocol) : Prop where
  min_reader_version : WritesInt (objGet (some v) "minReaderVersion") p.min_reader_version
  min_writer_version : WritesInt (objGet (some v) "minWriterVersion") p.min_writer_version
  reader_features : WritesStrings (objGet (some v) "readerFeatures") p.reader_features
  writer_features : WritesStrings (objGet (some v) "writerFeatures") p.writer_features

/-- The value is written as a `metaData`, with a schema that is JSON. -/
structure IsMetadata (v : Val) (m : LogMetadata) : Prop where
  schema_string : Absent (objGet (some v) "schemaString") ∧ m.schema_string = none ∨
    ∃ s, objGet (some v) "schemaString" = some (.str s) ∧ m.schema_string = some s ∧ (read s).isSome
  partition_columns : WritesStrings (objGet (some v) "partitionColumns") m.partition_columns
  configuration : WritesMap (objGet (some v) "configuration") m.configuration

/-- The value is written as a `commitInfo`. -/
structure IsCommitInfo (v : Val) (c : LogCommitInfo) : Prop where
  timestamp : WritesOptionalInt (objGet (some v) "timestamp") c.timestamp
  in_commit_timestamp : objGet (some v) "inCommitTimestamp" = none ∧ c.in_commit_timestamp = none ∨
    ∃ t, WritesOptionalInt (objGet (some v) "inCommitTimestamp") t ∧
      c.in_commit_timestamp = some t ∧
      objGet (some v) "inCommitTimestamp" ≠ none

/-- The value is written as an action: an object with the action under its name. -/
inductive IsAction : Val → LogAction → Prop
  | protocol {v : Val} {p : LogProtocol} :
    IsProtocol v p → IsAction (.obj [("protocol", v)]) (.protocol p)
  | metaData {v : Val} {m : LogMetadata} : IsMetadata v m →
    IsAction (.obj [("metaData", v)]) (.metaData m)
  | commitInfo {v : Val} {c : LogCommitInfo} :
    IsCommitInfo v c → IsAction (.obj [("commitInfo", v)]) (.commitInfo c)
  | other {key : String} {v : Val} : key ∉ ["protocol", "metaData", "commitInfo"] →
    IsAction (.obj [(key, v)]) .other

/-- The lines are the actions, with blank ones among them; a CR may stand at the end of each. -/
inductive AreActionLines : List (List Char) → List LogAction → Prop
  | nil : AreActionLines [] []
  | blank {line : List Char} {lines : List (List Char)} {actions : List LogAction} :
    (∀ c ∈ line, c = ' ' ∨ c = '\t' ∨ c = '\r') → AreActionLines lines actions →
    AreActionLines (line :: lines) actions
  | action {text cr : List Char} {root : Val} {a : LogAction} {lines : List (List Char)}
    {actions : List LogAction} :
    cr = [] ∨ cr = ['\r'] → read (String.ofList text) = some root → IsAction root a →
    AreActionLines lines actions → AreActionLines ((text ++ cr) :: lines) (a :: actions)

/-- The contents of a log file are the actions. -/
def IsLog (contents : String) (actions : List LogAction) : Prop :=
  AreActionLines (contents.toList.splitOn '\n') actions

/-! ## What a log says -/

/-- The last of the actions that is such. -/
def lastAction {α : Type} (pick : LogAction → Option α) (actions : List LogAction) : Option α :=
  (actions.filterMap pick).getLast?

/-- A `protocol`. -/
def LogAction.protocol? : LogAction → Option LogProtocol
  | .protocol p => some p
  | _ => none

/-- A `metaData`. -/
def LogAction.metaData? : LogAction → Option LogMetadata
  | .metaData m => some m
  | _ => none

/-- A `commitInfo`. -/
def LogAction.commitInfo? : LogAction → Option LogCommitInfo
  | .commitInfo c => some c
  | _ => none

/-- A schema. -/
def LogAction.schema? (a : LogAction) : Option String := a.metaData?.bind LogMetadata.schema_string

/-- The in-commit timestamp when present, and else the commit's timestamp. -/
def LogCommitInfo.time (c : LogCommitInfo) : Option ℤ := c.in_commit_timestamp.join.or c.timestamp

/-- The schema of the log, as it is written. -/
def logSchema (actions : List LogAction) : Option String := lastAction LogAction.schema? actions

/-- The log's commit timestamp. -/
def logTimestamp (actions : List LogAction) : Option ℤ :=
  (lastAction LogAction.commitInfo? actions).bind LogCommitInfo.time

/-- The log's protocol; with none, its versions are 0 and it has no features. -/
def logProtocol (actions : List LogAction) : LogProtocol :=
  (lastAction LogAction.protocol? actions).getD {}

/-- The log's metadata. -/
def logMetadata (actions : List LogAction) : LogMetadata :=
  (lastAction LogAction.metaData? actions).getD {}

/-- The table that the log describes. -/
def logTable (name location schema_json : String) (timestamp : ℤ) (actions : List LogAction) :
    UCAPICommittedTable where
  name := name
  location := location
  schema_json := schema_json
  partition_columns := (logMetadata actions).partition_columns
  min_reader_version := (logProtocol actions).min_reader_version
  min_writer_version := (logProtocol actions).min_writer_version
  reader_features := (logProtocol actions).reader_features
  writer_features := (logProtocol actions).writer_features
  properties := (logMetadata actions).configuration
  last_commit_timestamp_ms := timestamp

/-- UC is told what the log says: the body posted for the table is JSON and has the log's own
values, and the schema as it goes on the wire. A log without a schema or without a commit timestamp
is refused. -/
structure IsTold (F : RealFormat) (name location table_type contents : String)
    (actions : List LogAction) :
    Prop where
  posted : ∀ schema_json timestamp, logSchema actions = some schema_json →
    logTimestamp actions = some timestamp →
    ∃ committed body columns schema, parseCommittedTable name location contents = .ok committed ∧
      UCAPI.createTableBody F committed table_type = .ok body ∧
      read body = some
        (tableBody (logTable name location schema_json timestamp actions) table_type columns) ∧
      read schema_json = some schema ∧ columns.canon F = (wireSchemaCopy schema).canon F
  refused : logSchema actions = none ∨ logTimestamp actions = none →
    ∃ e, parseCommittedTable name location contents = .error e

/-- The log can be told: if it has a schema and a commit timestamp, the timestamp is not 0 and no
null `inCommitTimestamp` stands beside it, and no NUL stands in a feature, a partition column or a
property. -/
def CanBeTold (actions : List LogAction) : Prop :=
  ∀ schema_json timestamp, logSchema actions = some schema_json →
    logTimestamp actions = some timestamp →
    timestamp ≠ 0 ∧
    (∀ c, lastAction LogAction.commitInfo? actions = some c → c.in_commit_timestamp ≠ some none) ∧
    (∀ text ∈ (logProtocol actions).reader_features ++ (logProtocol actions).writer_features ++
      (logMetadata actions).partition_columns, NulFree text) ∧
    ∀ pair ∈ (logMetadata actions).configuration, NulFree pair.1 ∧ NulFree pair.2

/-! ## Reading an action -/

theorem not_isBlank_of_read {line : List Char} {root : Val}
    (h : read (String.ofList line) = some root) :
    ¬ ∀ c ∈ line, isSpace c = true := by
  intro hspace
  obtain ⟨rest, hread, -⟩ := read_eq_some h
  rw [String.toList_ofList, ← List.append_nil line, readValue_append hspace] at hread
  cases hread

theorem WritesInt.getSint {v : Option Val} {n : ℤ} (h : WritesInt v n) : getSint v = n := by
  obtain ⟨⟨hlow, hhigh⟩, num, rfl, hnum, hvalue⟩ := h
  cases num with
  | uint k =>
    have hk : (k.val : ℤ) = n := by
      rw [Num.value] at hvalue
      exact_mod_cast hvalue
    rw [Yyjson.getSint, if_pos (by omega), hk]
  | sint k =>
    have hk : -(k.val : ℤ) = n := by
      rw [Num.value] at hvalue
      exact_mod_cast hvalue
    rw [Yyjson.getSint, hk]
  | real q => exact hnum.elim

theorem WritesOptionalInt.getSint {v : Option Val} {n : Option ℤ} (h : WritesOptionalInt v n) :
    getSint v = n.getD 0 := by
  obtain ⟨rfl | rfl, rfl⟩ | ⟨m, hm, rfl⟩ := h
  · rfl
  · rfl
  · exact hm.getSint

theorem WritesStrings.read {v : Option Val} {texts : List String} (h : WritesStrings v texts) :
    readJsonStringArray v = texts.map cString := by
  obtain rfl | ⟨rfl | rfl, rfl⟩ := h
  · simp [readJsonStringArray, items, List.filterMap_map, getStr]
  · rfl
  · rfl

theorem WritesMap.read {v : Option Val} {pairs : List (String × String)} (h : WritesMap v pairs) :
    readJsonStringMap v = pairs.map fun pair => (cString pair.1, cString pair.2) := by
  obtain rfl | ⟨rfl | rfl, rfl⟩ := h
  · simp [readJsonStringMap, members, List.filterMap_map, getStr]
  · rfl
  · rfl

/-- The timestamp that is taken from a `commitInfo`: what is in `inCommitTimestamp` where it is
written at all. -/
def LogCommitInfo.taken (c : LogCommitInfo) : ℤ :=
  match c.in_commit_timestamp with
  | some t => t.getD 0
  | none => c.timestamp.getD 0

theorem IsCommitInfo.taken {v : Val} {c : LogCommitInfo} (h : IsCommitInfo v c) :
    getSint (if (objGet (some v) "inCommitTimestamp").isSome
      then objGet (some v) "inCommitTimestamp"
      else objGet (some v) "timestamp") = c.taken := by
  obtain ⟨hnone, htime⟩ | ⟨t, hwrites, htime, hne⟩ := h.in_commit_timestamp
  · rw [if_neg (by rw [hnone]; decide), LogCommitInfo.taken, htime]
    exact h.timestamp.getSint
  · rw [if_pos (Option.isSome_iff_ne_none.2 hne), LogCommitInfo.taken, htime]
    exact hwrites.getSint

/-- What is read of an action. -/
def LogAction.read (result : UCAPICommittedTable) : LogAction → UCAPICommittedTable
  | .protocol p => { result with
      min_reader_version := p.min_reader_version
      min_writer_version := p.min_writer_version
      reader_features := p.reader_features.map cString
      writer_features := p.writer_features.map cString }
  | .commitInfo c => { result with last_commit_timestamp_ms := c.taken }
  | .metaData m => { result with
      schema_json := (m.schema_string.map cString).getD result.schema_json
      partition_columns := m.partition_columns.map cString
      properties := m.configuration.map fun pair => (cString pair.1, cString pair.2) }
  | .other => result

theorem objGet_singleton (key name : String) (v : Val) :
    objGet (some (.obj [(key, v)])) name = if key = name then some v else none := by
  rw [objGet, List.find?_cons, List.find?_nil]
  by_cases h : key = name
  · rw [if_pos h, beq_iff_eq.2 h]
    rfl
  · rw [if_neg h, beq_eq_false_iff_ne.2 h]
    rfl

theorem readAction_eq {root : Val} {a : LogAction} (h : IsAction root a)
    (result : UCAPICommittedTable) :
    readAction (some root) result = a.read result := by
  cases h with
  | @protocol v p h =>
    have hreader := h.min_reader_version.getSint
    have hwriter := h.min_writer_version.getSint
    simp [readAction, objGet_singleton, LogAction.read, hreader, hwriter, h.reader_features.read,
      h.writer_features.read]
  | @metaData v m h =>
    have hschema : (getStr (objGet (some v) "schemaString")).map cString =
        m.schema_string.map cString := by
      obtain ⟨habsent | habsent, hm⟩ | ⟨s, hs, hm, -⟩ := h.schema_string
      · rw [habsent, hm]
        rfl
      · rw [habsent, hm]
        rfl
      · rw [hs, hm]
        rfl
    simp [readAction, objGet_singleton, LogAction.read, hschema, h.partition_columns.read,
      h.configuration.read]
  | @commitInfo v c h =>
    rw [LogAction.read, ← h.taken]
    simp [readAction, objGet_singleton]
  | @other key v h =>
    simp only [List.mem_cons, List.not_mem_nil, or_false, not_or] at h
    simp [readAction, objGet_singleton, LogAction.read, h]

/-- The lines of a log are read action by action. -/
theorem readActions_eq {lines : List (List Char)} {actions : List LogAction}
    (h : AreActionLines lines actions) (log_entry : String) (result : UCAPICommittedTable) :
    readActions log_entry (lines.map String.ofList) result =
      .ok (actions.foldl LogAction.read result) := by
  induction h generalizing result with
  | nil => rfl
  | @blank line lines actions hblank _ ih =>
    rw [List.map_cons, readActions, if_pos]
    · exact ih result
    · rw [String.toList_ofList, List.all_eq_true]
      simpa [or_assoc] using hblank
  | @action text cr root a lines actions hcr hread ha _ ih =>
    have hspace : ∀ c ∈ cr, isSpace c = true := by
      obtain rfl | rfl := hcr
      · exact List.forall_mem_nil _
      · simp [isSpace]
    have hline := read_append_space hread hspace
    rw [List.map_cons, readActions, if_neg, hline]
    · simp only
      rw [readAction_eq ha, ih]
      rfl
    · rw [String.toList_ofList, List.all_eq_true]
      intro hblank
      refine not_isBlank_of_read hline fun c hc => ?_
      have hc := hblank c hc
      simp only [Bool.or_eq_true, beq_iff_eq] at hc
      obtain (rfl | rfl) | rfl := hc <;> decide

/-! ## The last action counts -/

section

variable {α : Type} {pick : LogAction → Option α}

theorem lastAction_concat (actions : List LogAction) (a : LogAction) :
    lastAction pick (actions ++ [a]) = (pick a).or (lastAction pick actions) := by
  rw [lastAction, List.filterMap_append, List.getLast?_append, lastAction]
  cases h : pick a <;> simp [h]

theorem exists_of_lastAction {actions : List LogAction} {x : α}
    (h : lastAction pick actions = some x) : ∃ a ∈ actions, pick a = some x :=
  List.mem_filterMap.1 (List.mem_of_getLast? h)

end

/-- The table that is read of a log: its texts are C strings, and its timestamp is what is taken. -/
def tableOfLog (name location : String) (actions : List LogAction) : UCAPICommittedTable where
  name := name
  location := location
  schema_json := ((logSchema actions).map cString).getD ""
  partition_columns := (logMetadata actions).partition_columns.map cString
  min_reader_version := (logProtocol actions).min_reader_version
  min_writer_version := (logProtocol actions).min_writer_version
  reader_features := (logProtocol actions).reader_features.map cString
  writer_features := (logProtocol actions).writer_features.map cString
  properties := (logMetadata actions).configuration.map fun pair => (cString pair.1, cString pair.2)
  last_commit_timestamp_ms :=
    ((lastAction LogAction.commitInfo? actions).map LogCommitInfo.taken).getD 0

section

variable (name location : String)

/-- Of each part of the table, the last action that says something of it counts. -/
theorem foldl_read_eq (actions : List LogAction) :
    actions.foldl LogAction.read { name, location } = tableOfLog name location actions := by
  induction actions using List.reverseRecOn with
  | nil => rfl
  | append_singleton actions a ih =>
    rw [List.foldl_append, List.foldl_cons, List.foldl_nil, ih]
    simp only [tableOfLog, logSchema, logMetadata, logProtocol, lastAction_concat]
    cases a with
    | metaData m =>
      rw [LogAction.schema?, LogAction.metaData?, Option.bind_some]
      cases hschema : m.schema_string <;>
        simp [LogAction.read, hschema, LogAction.protocol?, LogAction.commitInfo?]
    | _ => rfl

variable {contents : String} {actions : List LogAction} (hlog : IsLog contents actions)
include hlog

theorem parseCommittedTable_ok (hschema : (tableOfLog name location actions).schema_json ≠ "")
    (htimestamp : (tableOfLog name location actions).last_commit_timestamp_ms ≠ 0) :
    parseCommittedTable name location contents = .ok (tableOfLog name location actions) := by
  rw [parseCommittedTable, readActions_eq hlog, foldl_read_eq]
  simp only [bind, Except.bind]
  rw [if_neg hschema, if_neg htimestamp]
  rfl

theorem parseCommittedTable_error (h : (tableOfLog name location actions).schema_json = "" ∨
    (tableOfLog name location actions).last_commit_timestamp_ms = 0) :
    ∃ e, parseCommittedTable name location contents = .error e := by
  rw [parseCommittedTable, readActions_eq hlog, foldl_read_eq]
  simp only [bind, Except.bind]
  by_cases hschema : (tableOfLog name location actions).schema_json = ""
  · rw [if_pos hschema]
    exact ⟨_, rfl⟩
  · rw [if_neg hschema, if_pos (h.resolve_left hschema)]
    exact ⟨_, rfl⟩

end

/-! ## What the values of a log are -/

theorem isInt64_zero : IsInt64 0 := by
  rw [IsInt64]
  decide

theorem WritesOptionalInt.isInt64 {v : Option Val} {n : Option ℤ} (h : WritesOptionalInt v n) :
    IsInt64 (n.getD 0) := by
  obtain ⟨-, rfl⟩ | ⟨m, hm, rfl⟩ := h
  · exact isInt64_zero
  · exact hm.1

theorem IsCommitInfo.isInt64 {v : Val} {c : LogCommitInfo} (h : IsCommitInfo v c) :
    IsInt64 c.taken := by
  rw [LogCommitInfo.taken]
  obtain ⟨-, htime⟩ | ⟨t, hwrites, htime, -⟩ := h.in_commit_timestamp <;> rw [htime]
  · exact h.timestamp.isInt64
  · exact hwrites.isInt64

section

variable {lines : List (List Char)} {actions : List LogAction}
    (hlines : AreActionLines lines actions)
include hlines

/-- Every action is written. -/
theorem exists_isAction {a : LogAction} (ha : a ∈ actions) : ∃ root, IsAction root a := by
  induction hlines with
  | nil => cases ha
  | blank _ _ ih => exact ih ha
  | action _ _ hroot _ ih =>
    obtain rfl | ha := List.mem_cons.1 ha
    · exact ⟨_, hroot⟩
    · exact ih ha

theorem isInt64_logProtocol :
    IsInt64 (logProtocol actions).min_reader_version ∧
      IsInt64 (logProtocol actions).min_writer_version := by
  rw [logProtocol]
  cases hlast : lastAction LogAction.protocol? actions with
  | none => exact ⟨isInt64_zero, isInt64_zero⟩
  | some p =>
    obtain ⟨a, ha, hp⟩ := exists_of_lastAction hlast
    obtain ⟨root, hroot⟩ := exists_isAction hlines ha
    cases hroot with
    | protocol h =>
      obtain rfl := Option.some.inj hp
      exact ⟨h.min_reader_version.1, h.min_writer_version.1⟩
    | _ => cases hp

theorem isInt64_taken :
    IsInt64 (((lastAction LogAction.commitInfo? actions).map LogCommitInfo.taken).getD 0) := by
  cases hlast : lastAction LogAction.commitInfo? actions with
  | none => exact isInt64_zero
  | some c =>
    obtain ⟨a, ha, hc⟩ := exists_of_lastAction hlast
    obtain ⟨root, hroot⟩ := exists_isAction hlines ha
    cases hroot with
    | commitInfo h =>
      obtain rfl := Option.some.inj hc
      exact h.isInt64
    | _ => cases hc

/-- The schema is JSON, so it has no NUL. -/
theorem read_logSchema {schema_json : String} (h : logSchema actions = some schema_json) :
    ∃ schema, read schema_json = some schema ∧ cString schema_json = schema_json ∧
      schema_json ≠ "" := by
  obtain ⟨a, ha, hs⟩ := exists_of_lastAction h
  obtain ⟨root, hroot⟩ := exists_isAction hlines ha
  cases hroot with
  | @metaData v m hm =>
    obtain ⟨-, hnone⟩ | ⟨s, -, hsome, hread⟩ := hm.schema_string
    · rw [LogAction.schema?, LogAction.metaData?, Option.bind_some, hnone] at hs
      cases hs
    · rw [LogAction.schema?, LogAction.metaData?, Option.bind_some, hsome] at hs
      obtain rfl := Option.some.inj hs
      obtain ⟨schema, hschema⟩ := Option.isSome_iff_exists.1 hread
      refine ⟨schema, hschema, cString_eq_self.2 (nul_notMem_of_read hschema), ?_⟩
      rintro rfl
      cases hschema
  | _ => cases hs

end

/-- The timestamp that is taken is the log's, unless a null is. -/
theorem taken_eq {actions : List LogAction} {timestamp : ℤ}
    (h : logTimestamp actions = some timestamp) :
    ∃ c, lastAction LogAction.commitInfo? actions = some c ∧
      c.taken = if c.in_commit_timestamp = some none then 0 else timestamp := by
  obtain ⟨c, hlast, htime⟩ := Option.bind_eq_some_iff.1 h
  refine ⟨c, hlast, ?_⟩
  rw [LogCommitInfo.time] at htime
  rw [LogCommitInfo.taken]
  obtain hnone | hnull | ⟨t, ht⟩ : c.in_commit_timestamp = none ∨
    c.in_commit_timestamp = some none ∨
      ∃ t, c.in_commit_timestamp = some (some t) := by
    cases c.in_commit_timestamp with
    | none => exact .inl rfl
    | some t => cases t <;> simp
  · rw [hnone] at htime ⊢
    simp only [reduceCtorEq, if_false]
    exact congrArg (Option.getD · 0) htime
  · rw [hnull, if_pos rfl]
    rfl
  · rw [ht] at htime ⊢
    simp only [Option.some.injEq, reduceCtorEq, if_false]
    exact Option.some.inj htime

/-- Without a timestamp, 0 is taken. -/
theorem taken_eq_zero {actions : List LogAction} (h : logTimestamp actions = none) :
    ((lastAction LogAction.commitInfo? actions).map LogCommitInfo.taken).getD 0 = 0 := by
  cases hlast : lastAction LogAction.commitInfo? actions with
  | none => rfl
  | some c =>
    rw [logTimestamp, hlast, Option.bind_some, LogCommitInfo.time, Option.or_eq_none_iff] at h
    rw [Option.map_some, Option.getD_some, LogCommitInfo.taken]
    obtain ⟨hict, htimestamp⟩ := h
    cases hc : c.in_commit_timestamp with
    | none => rw [htimestamp]; rfl
    | some t =>
      rw [hc, Option.join_some] at hict
      rw [hict]
      rfl

/-! ## What is told -/

/-- Bodies that are the same say the same. -/
theorem tableBody_inj {table table' : UCAPICommittedTable} {table_type : String}
    {columns columns' : Val}
    (h : tableBody table table_type columns = tableBody table' table_type columns') :
    table.partition_columns = table'.partition_columns ∧
      table.reader_features = table'.reader_features ∧
      table.writer_features = table'.writer_features ∧ table.properties = table'.properties := by
  have hstr : Function.Injective Val.str := fun s t h => Val.str.inj h
  have hpair : Function.Injective fun value : String × String => (value.1, Val.str value.2) := by
    intro p q h
    obtain ⟨hkey, hval⟩ := Prod.ext_iff.1 h
    exact Prod.ext hkey (Val.str.inj hval)
  simp only [tableBody, protocolBody, Val.obj.injEq, List.cons.injEq, Prod.mk.injEq, Val.arr.injEq,
    true_and, and_true] at h
  obtain ⟨-, -, -, hpartition, ⟨-, -, hreader, hwriter⟩, hproperties, -⟩ := h
  exact ⟨List.map_injective_iff.2 hstr hpartition, List.map_injective_iff.2 hstr hreader,
    List.map_injective_iff.2 hstr hwriter, List.map_injective_iff.2 hpair hproperties⟩

theorem map_cString_eq_self {texts : List String} :
    texts.map cString = texts ↔ ∀ text ∈ texts, NulFree text := by
  have hself := List.map_eq_map_iff (f := cString) (g := id) (l := texts)
  rw [List.map_id] at hself
  rw [hself]
  exact forall₂_congr fun text _ => cString_eq_self

theorem map_cString_pairs_eq_self {pairs : List (String × String)} :
    (pairs.map fun pair => (cString pair.1, cString pair.2)) = pairs ↔
      ∀ pair ∈ pairs, NulFree pair.1 ∧ NulFree pair.2 := by
  have hself :=
    List.map_eq_map_iff (f := fun pair => (cString pair.1, cString pair.2)) (g := id) (l := pairs)
  rw [List.map_id] at hself
  rw [hself]
  refine forall₂_congr fun pair _ => ?_
  rw [id, Prod.ext_iff, cString_eq_self, cString_eq_self]

section

variable {contents : String} {actions : List LogAction} (hlog : IsLog contents actions)
variable (F : RealFormat) (name location table_type : String)
include hlog

/-- Of a log that is not refused, what is read is posted. -/
theorem exists_posted {schema_json : String} (hschema : logSchema actions = some schema_json)
    (htaken : (tableOfLog name location actions).last_commit_timestamp_ms ≠ 0) :
    ∃ body columns schema,
      parseCommittedTable name location contents = .ok (tableOfLog name location actions) ∧
      UCAPI.createTableBody F (tableOfLog name location actions) table_type = .ok body ∧
      read body = some (tableBody (tableOfLog name location actions) table_type columns) ∧
      read schema_json = some schema ∧ columns.canon F = (wireSchemaCopy schema).canon F := by
  obtain ⟨schema, hread, hstring, hne⟩ := read_logSchema hlog hschema
  have hjson : (tableOfLog name location actions).schema_json = schema_json := by
    rw [tableOfLog, hschema, Option.map_some, Option.getD_some, hstring]
  obtain ⟨hreader, hwriter⟩ := isInt64_logProtocol hlog
  obtain ⟨body, columns, hbody, hvalue, hcanon⟩ :=
    UCAPI.read_createTableBody F (tableOfLog name location actions) (hjson ▸ hread) hreader hwriter
      (isInt64_taken hlog) table_type
  exact ⟨body, columns, schema, parseCommittedTable_ok name location hlog (hjson ▸ hne) htaken,
    hbody, hvalue, hread, hcanon⟩

/-- A log that is told can be: it is not refused, and what is posted is what was read. -/
theorem canBeTold_of_told (htold : IsTold F name location table_type contents actions) :
    CanBeTold actions := by
  intro schema_json timestamp hschema htime
  obtain ⟨committed, body, columns, schema, hparse, hbody, hread, -⟩ :=
    htold.posted schema_json timestamp hschema htime
  have htaken : (tableOfLog name location actions).last_commit_timestamp_ms ≠ 0 := by
    intro hzero
    obtain ⟨e, herror⟩ := parseCommittedTable_error name location hlog (.inr hzero)
    rw [herror] at hparse
    cases hparse
  obtain ⟨body', columns', schema', hparse', hbody', hread', -⟩ :=
    exists_posted hlog F name location table_type hschema htaken
  obtain rfl := Except.ok.inj (hparse.symm.trans hparse')
  obtain rfl := Except.ok.inj (hbody.symm.trans hbody')
  obtain ⟨hpartition, hreader, hwriter, hproperties⟩ :=
    tableBody_inj (Option.some.inj (hread'.symm.trans hread))
  obtain ⟨c, hlast, hc⟩ := taken_eq htime
  have htime' : (tableOfLog name location actions).last_commit_timestamp_ms = c.taken := by
    rw [tableOfLog, hlast]
    rfl
  rw [htime', hc] at htaken
  split_ifs at htaken with hnull
  · exact absurd rfl htaken
  · refine ⟨htaken, fun d hd => ?_, fun text htext => ?_, map_cString_pairs_eq_self.1 hproperties⟩
    · rwa [← Option.some.inj (hlast.symm.trans hd)]
    · rw [List.mem_append, List.mem_append] at htext
      obtain (htext | htext) | htext := htext
      · exact map_cString_eq_self.1 hreader text htext
      · exact map_cString_eq_self.1 hwriter text htext
      · exact map_cString_eq_self.1 hpartition text htext

/-- Of a log that can be told, what is read is what it says. -/
theorem tableOfLog_eq (hcan : CanBeTold actions) {schema_json : String} {timestamp : ℤ}
    (hschema : logSchema actions = some schema_json)
    (htime : logTimestamp actions = some timestamp) :
    tableOfLog name location actions = logTable name location schema_json timestamp actions := by
  obtain ⟨-, hnull, htexts, hpairs⟩ := hcan schema_json timestamp hschema htime
  obtain ⟨c, hlast, hc⟩ := taken_eq htime
  rw [if_neg (hnull c hlast)] at hc
  obtain ⟨schema, hread, hstring, -⟩ := read_logSchema hlog hschema
  rw [tableOfLog, logTable, hschema, Option.map_some, Option.getD_some, hstring, hlast,
    Option.map_some, Option.getD_some, hc, map_cString_pairs_eq_self.2 hpairs,
    map_cString_eq_self.2, map_cString_eq_self.2,
    map_cString_eq_self.2]
  all_goals
    intro text htext
    refine htexts text ?_
    simp [htext]

/-- UC is told what the log says if and only if the log can be told. -/
theorem UCAPI.told_iff : IsTold F name location table_type contents actions ↔
    CanBeTold actions := by
  refine ⟨canBeTold_of_told hlog F name location table_type, fun hcan => ⟨?_, fun hnone => ?_⟩⟩
  · intro schema_json timestamp hschema htime
    have htable := tableOfLog_eq hlog name location hcan hschema htime
    have htaken : (tableOfLog name location actions).last_commit_timestamp_ms ≠ 0 := by
      rw [htable]
      exact (hcan schema_json timestamp hschema htime).1
    obtain ⟨body, columns, schema, hposted⟩ :=
      exists_posted hlog F name location table_type hschema htaken
    rw [htable] at hposted
    exact ⟨_, body, columns, schema, hposted⟩
  · refine parseCommittedTable_error name location hlog
      (hnone.imp (fun hschema => ?_) taken_eq_zero)
    rw [tableOfLog, hschema]
    rfl

end

/-- A number with one digit before the point and one behind it. -/
theorem readNumber_tenths {d : Char} (hd : d.isDigit = true) {n : Yyjson.Num}
    (hn : realNum false ['0'] [d] none = some n) {rest : List Char} (hrest : Ends rest) :
    readNumber ('0' :: '.' :: d :: rest) = some (n, rest) := by
  have hdigits : readDigits ('0' :: '.' :: d :: rest) = (['0'], '.' :: d :: rest) := rfl
  have hfraction : readFraction ('.' :: d :: rest) = some (some [d], rest) := by
    have h := readDigits_append (show ∀ c ∈ [d], c.isDigit = true by simpa using hd) hrest
    rw [List.singleton_append] at h
    rw [readFraction, h]
  rw [readNumber_digits (by simp), readUnsigned_eq, hdigits, if_neg (by simp), hfraction,
    Option.bind_some, readExponent_ends hrest, Option.bind_some, if_neg (by simp)]
  simp [hn]

/-- Real numbers of which there are two, a half and 0. -/
def halfOrZero : RealFormat where
  double q := if q = 1 / 2 then 1 / 2 else 0
  write q := if q = 1 / 2 then "0.5".toList else "0.0".toList
  reads q := by
    by_cases hq : q = 1 / 2
    · refine ⟨1 / 2, by rw [if_pos rfl, if_pos hq], fun rest hrest => ?_⟩
      rw [if_pos hq]
      exact readNumber_tenths (by decide) (by decide +kernel) hrest
    · refine ⟨0, by rw [if_neg (by norm_num), if_neg hq], fun rest hrest => ?_⟩
      rw [if_neg hq]
      exact readNumber_tenths (by decide) (by decide +kernel) hrest

/-- A schema, of one column with a half in its metadata. -/
def columnSchema : List Char :=
  objectText [] [("type", writeString "struct"), ("fields", arrayText [] [
    objectText [] [("name", writeString "a"), ("type", writeString "long"),
      ("nullable", "true".toList), ("metadata", objectText [] [("r", "0.5".toList)])]])]

/-- A `commitInfo` as it is written. -/
def commitInfoText : List Char :=
  objectText [] [("commitInfo", objectText [] [("timestamp", (toString 5).toList),
    ("inCommitTimestamp", (toString 7).toList)])]

/-- A `protocol` as it is written. -/
def protocolActionText : List Char :=
  objectText [] [("protocol", objectText [] [("minReaderVersion", (toString 3).toList),
    ("minWriterVersion", (toString 7).toList), ("readerFeatures", arrayText [] [writeString "v2"]),
    ("writerFeatures", arrayText [] [writeString "v2", writeString "ict"])])]

/-- A `metaData` as it is written, of a table with a property. -/
def metaDataText (property : String) : List Char :=
  objectText []
    [("metaData", objectText [] [("schemaString", writeString (String.ofList columnSchema)),
      ("partitionColumns", arrayText [] [writeString "a"]),
    ("configuration", objectText [] [("k", writeString property)])])]

/-- A version 0 of these, with a CR behind the first line and a newline behind the last. -/
def smallLog (property : String) : String :=
  String.ofList (['\n'].intercalate
    [commitInfoText ++ ['\r'], protocolActionText, metaDataText property, []])

/-- What is written in it. -/
def smallActions (property : String) : List LogAction :=
  [.commitInfo { timestamp := some 5, in_commit_timestamp := some (some 7) },
    .protocol { min_reader_version := 3, min_writer_version := 7, reader_features := ["v2"],
                writer_features := ["v2", "ict"] },
    .metaData { schema_string := some (String.ofList columnSchema), partition_columns := ["a"],
                configuration := [("k", property)] }]

/-- A line without a CR. -/
theorem AreActionLines.line {text : List Char} {root : Val} {a : LogAction}
    {lines : List (List Char)}
    {actions : List LogAction} (hread : read (String.ofList text) = some root)
    (ha : IsAction root a)
    (h : AreActionLines lines actions) : AreActionLines (text :: lines) (a :: actions) := by
  have haction := AreActionLines.action (.inl rfl) hread ha h
  rwa [List.append_nil] at haction

theorem writesInt_ofInt {n : ℕ} (hn : n < 2 ^ 63) : WritesInt (some (.num (Num.ofInt n))) n := by
  rw [Num.ofInt_natCast (by omega)]
  refine ⟨⟨by omega, by omega⟩, _, rfl, trivial, ?_⟩
  rw [Num.value, Int.cast_natCast]

theorem isSpace_of_mem_nil : ∀ c ∈ ([] : List Char), isSpace c = true := List.forall_mem_nil _

/-- The schema is JSON. -/
theorem isSome_read_columnSchema : (read (String.ofList columnSchema)).isSome = true := by
  have hhalf : Reads "0.5".toList (some (.num (.real (1 / 2)))) :=
    reads_number fun rest hrest => readNumber_tenths (by decide) (by decide +kernel) hrest
  have hmetadata := reads_fields isSpace_of_mem_nil (.cons "r" hhalf .nil)
  have hfield := reads_fields isSpace_of_mem_nil (.cons "name" (reads_writeString "a") <|
    .cons "type" (reads_writeString "long") <| .cons "nullable" reads_true <|
      .cons "metadata" hmetadata .nil)
  have hschema : Reads columnSchema _ := reads_fields isSpace_of_mem_nil
    (.cons "type" (reads_writeString "struct") <|
      .cons "fields" (reads_array isSpace_of_mem_nil (.cons hfield .nil)) .nil)
  rw [hschema.read]
  rfl

/-- Its lines are lines. -/
theorem newline_notMem_smallLog (property : String) :
    ∀ line ∈ [commitInfoText ++ ['\r'], protocolActionText, metaDataText property, []],
      '\n' ∉ line := by
  have hcommit : OneLine commitInfoText := by
    refine oneLine_objectText oneLine_nil
      (List.forall_mem_singleton.2 (oneLine_objectText oneLine_nil ?_))
    simp [oneLine_toDigits]
  have hprotocol : OneLine protocolActionText := by
    refine oneLine_objectText oneLine_nil
      (List.forall_mem_singleton.2 (oneLine_objectText oneLine_nil ?_))
    have hreader :=
      oneLine_arrayText oneLine_nil (List.forall_mem_singleton.2 (oneLine_writeString "v2"))
    have hwriter : OneLine (arrayText [] [writeString "v2", writeString "ict"]) := by
      refine oneLine_arrayText oneLine_nil ?_
      simp [oneLine_writeString]
    simp [oneLine_toDigits, hreader, hwriter]
  have hmetadata : OneLine (metaDataText property) := by
    refine oneLine_objectText oneLine_nil
      (List.forall_mem_singleton.2 (oneLine_objectText oneLine_nil ?_))
    have hpartition :=
      oneLine_arrayText oneLine_nil (List.forall_mem_singleton.2 (oneLine_writeString "a"))
    have hproperties : OneLine (objectText [] [("k", writeString property)]) :=
      oneLine_objectText oneLine_nil (List.forall_mem_singleton.2 (oneLine_writeString property))
    simp [oneLine_writeString, hpartition, hproperties]
  simp only [List.forall_mem_cons, List.mem_append, hcommit.newline_notMem,
    hprotocol.newline_notMem, hmetadata.newline_notMem]
  simp

/-- The small log is one. -/
theorem isLog_smallLog (property : String) : IsLog (smallLog property) (smallActions property) := by
  have hcommit : Reads commitInfoText _ := reads_fields isSpace_of_mem_nil
    (.cons "commitInfo"
      (reads_fields isSpace_of_mem_nil (.cons "timestamp" (reads_nat (n := 5) (by decide)) <|
      .cons "inCommitTimestamp" (reads_nat (n := 7) (by decide)) .nil)) .nil)
  have hprotocol : Reads protocolActionText _ := reads_fields isSpace_of_mem_nil
    (.cons "protocol" (reads_fields isSpace_of_mem_nil
      (.cons "minReaderVersion" (reads_nat (n := 3) (by decide)) <|
        .cons "minWriterVersion" (reads_nat (n := 7) (by decide)) <|
        .cons "readerFeatures"
          (reads_array isSpace_of_mem_nil (.cons (reads_writeString "v2") .nil)) <|
        .cons "writerFeatures" (reads_array isSpace_of_mem_nil (.cons (reads_writeString "v2") <|
          .cons (reads_writeString "ict") .nil)) .nil)) .nil)
  have hmetadata : Reads (metaDataText property) _ := reads_fields isSpace_of_mem_nil
    (.cons "metaData" (reads_fields isSpace_of_mem_nil
      (.cons "schemaString" (reads_writeString (String.ofList columnSchema)) <|
        .cons "partitionColumns"
          (reads_array isSpace_of_mem_nil (.cons (reads_writeString "a") .nil)) <|
        .cons "configuration" (reads_fields isSpace_of_mem_nil
          (.cons "k" (reads_writeString property) .nil)) .nil)) .nil)
  rw [IsLog, smallLog, String.toList_ofList,
    List.splitOn_intercalate _ (newline_notMem_smallLog property) (List.cons_ne_nil _ _)]
  refine .action (.inr rfl) hcommit.read (.commitInfo ⟨?_, ?_⟩) <|
    .line hprotocol.read (.protocol ⟨?_, ?_, ?_, ?_⟩) <|
    .line hmetadata.read (.metaData ⟨?_, ?_, ?_⟩) <| .blank (List.forall_mem_nil _) .nil
  · exact .inr ⟨5, writesInt_ofInt (by decide), rfl⟩
  · exact .inr ⟨some 7, .inr ⟨7, writesInt_ofInt (by decide), rfl⟩, rfl, Option.some_ne_none _⟩
  · exact writesInt_ofInt (by decide)
  · exact writesInt_ofInt (by decide)
  · exact .inl rfl
  · exact .inl rfl
  · exact .inr ⟨_, rfl, rfl, isSome_read_columnSchema⟩
  · exact .inl rfl
  · exact .inl rfl

/-- A log that is told. -/
theorem smallLog_is_told :
    IsLog (smallLog "x\ty") (smallActions "x\ty") ∧
      IsTold halfOrZero "t" "s3://b/t" "EXTERNAL" (smallLog "x\ty") (smallActions "x\ty") := by
  refine ⟨isLog_smallLog _,
    (UCAPI.told_iff (isLog_smallLog _) halfOrZero "t" "s3://b/t" "EXTERNAL").2 ?_⟩
  intro schema_json timestamp _ htime
  obtain rfl : (7 : ℤ) = timestamp := Option.some.inj htime
  refine ⟨by decide, fun c hc => ?_, ?_, ?_⟩
  · obtain rfl := Option.some.inj hc
    decide
  · show ∀ text ∈ ["v2", "v2", "ict", "a"], NulFree text
    simp [NulFree]
  · show ∀ pair ∈ [("k", "x\ty")], NulFree pair.1 ∧ NulFree pair.2
    simp [NulFree]

/-- The value of a property is cut off at a NUL. -/
theorem property_is_cut :
    ¬ ∀ (F : RealFormat) (name location table_type contents : String) (actions : List LogAction),
      IsLog contents actions → IsTold F name location table_type contents actions := by
  intro h
  have htold := h halfOrZero "t" "s3://b/t" "EXTERNAL" _ _ (isLog_smallLog "x\x00y")
  obtain ⟨-, -, -, hproperties⟩ := canBeTold_of_told (isLog_smallLog _) _ _ _ _ htold _ 7 rfl rfl
  have hnul : NulFree "x\x00y" := (hproperties ("k", "x\x00y") List.mem_cons_self).2
  exact hnul (by decide)

end UnityCatalog
