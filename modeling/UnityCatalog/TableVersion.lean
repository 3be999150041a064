import UnityCatalog.TableInformation

/-!
# Which entry a lookup binds to

`TableInformation::GetVersion`: a lookup gets the columns UC reports, or those of the Delta log,
which it resolves once a transaction and keeps under a key. On the way it fetches credentials for
the table and attaches its Delta database. What is only logged is left out: a warning where the
report and the log diverge, and one where the log holds no schema.
-/

namespace UnityCatalog

open Effectful Yyjson

/-! ## The gate of the scan-plan path -/

/-- `SCAN_PLAN_RE_PROBE`, in nanoseconds -/
def scanPlanReProbe : ℤ := 15 * 60 * 1000000000

/-- `UnityCatalog::ShouldTryScanPlan` -/
def shouldTryScanPlan (credentials : UCCredentials) : Run Bool :=
  if credentials.use_irc_scan_plan then
    scanPlanGate fun g now =>
      if g.scan_plan_state = .unavailable then
        if now - g.scan_plan_unavailable_since < scanPlanReProbe then (false, g)
        else (true, { g with scan_plan_state := .unknown })
      else (true, g)
  else return false

/-- `UnityCatalog::MarkScanPlanAvailable` -/
def markScanPlanAvailable : Run Unit := do
  let _ ← scanPlanGate fun g _ => (true, { g with scan_plan_state := .available })
  return ()

/-- `UnityCatalog::MarkScanPlanUnavailable` -/
def markScanPlanUnavailable : Run Unit := do
  let _ ← scanPlanGate fun _ now => (true, ⟨.unavailable, now⟩)
  return ()

/-! ## Columns a read is refused for -/

/-- The units an interval type's text goes on with. -/
def intervalUnits : List String := ["year", "month", "day", "hour", "minute", "second"]

/-- `TypeTextHasInterval` -/
def typeTextHasInterval (type_text : String) : Bool :=
  (lower type_text).toList.tails.any fun text =>
    "interval ".toList.isPrefixOf text &&
      intervalUnits.any fun unit => unit.toList.isPrefixOf (text.drop 9)

namespace TableInformation

/-- `ThrowIfIntervalColumns` -/
def throwIfIntervalColumns (t : TableInformation) : Except Exception Unit :=
  match t.table_data.columns.find? fun column => typeTextHasInterval column.type_text with
  | some column => throw (notImplementedException ("Table '" ++ t.table_data.name ++
      "' has interval column '" ++ column.name ++ "', which Unity Catalog reports as '" ++
      column.type_text ++ "'; Delta interval semantics differ from DuckDB's INTERVAL"))
  | none => pure ()

/-- `ThrowIfUnreadableColumns` -/
def throwIfUnreadableColumns (t : TableInformation) : Except Exception Unit :=
  match t.unreadable_columns with
  | column :: _ => throw (notImplementedException ("Table '" ++ t.table_data.name ++ "' has " ++
      toString t.unreadable_columns.length ++
      " column(s) with a type this build cannot read; the first is '" ++ column.1 ++
      "', which Unity Catalog reports as '" ++ column.2 ++ "'"))
  | [] => pure ()

/-- What `ThrowNoDeltaTable` throws. -/
def noDeltaTable (t : TableInformation) : Exception :=
  catalogException ("Table '" ++ t.table_data.name ++ "' is registered in Unity Catalog at '" ++
    t.table_data.storage_location ++ "', but no Delta table was found there")

/-- `ScanPlanCanRead` -/
def scanPlanCanRead (t : TableInformation) : Bool :=
  if t.table_data.data_source_format != "DELTA" then true
  else if t.table_data.columns.any fun column => column.is_partition_column then false
  else
    match t.table_data.property "delta.columnMapping.mode" with
    | none => true
    | some mode => mode == "none"

/-! ## The table in the Delta log -/

/-- `RefreshCredentials` -/
def refreshCredentials (t : TableInformation) : Run Unit := do
  let td := t.table_data
  if "file://".toList.isPrefixOf td.storage_location.toList then return ()
  else
    let table_credentials ← UCAPI.getTableCredentials td.catalog_name td.schema_name td.name
      td.table_id t.isCatalogManaged (!t.read_only) t.credentials
    createSecret
      { name := "__internal_uc_" ++ td.table_id
        options := [("key_id", table_credentials.key_id), ("secret", table_credentials.secret),
          ("session_token", table_credentials.session_token),
          ("region", t.credentials.aws_region)]
        scope := td.storage_location }

/-- `GetInternalCatalog`: the read is not synchronized, and a null pointer throws when followed. -/
def getInternalCatalog : Run AttachedDatabase := do
  match ← attached with
  | some db => return db
  | none => throw (internalException "Attempted to dereference shared_ptr that is NULL!")

/-- Credentials first: the attach may have backfills to flush. -/
def deltaTable (t : TableInformation) (at_clause : Option BoundAtClause) :
    Run (Option DeltaTable) := do
  t.refreshCredentials
  t.internalAttach
  let delta_catalog ← getInternalCatalog
  lookupEntry delta_catalog at_clause

/-- `EntryFromDeltaLog` -/
def entryFromDeltaLog (t : TableInformation) (at_clause : Option BoundAtClause) :
    Run (Option UCTableEntry) := do
  let table_entry ← t.deltaTable at_clause
  return table_entry.map fun info => ⟨t.table_data.name, info.columns⟩

/-! ## `GetVersion` -/

/-- `AtClauseKeySuffix` -/
def atClauseKeySuffix (at_clause : BoundAtClause) : Except Exception String :=
  if at_clause.unit = "version" then do
    let version ← at_clause.version
    return "@" ++ toString version
  else if at_clause.unit = "timestamp" then do
    let timestamp ← at_clause.epochMs
    return "@ts:" ++ toString timestamp
  else throw ⟨.invalidConfiguration,
    "Delta tables only support at_clause with unit 'version' or 'timestamp'", []⟩

/-- `EntryKey` -/
def entryKey (t : TableInformation) (at_clause : Option BoundAtClause) :
    Except Exception String :=
  let key := t.schema_name ++ "." ++ t.table_data.name
  match at_clause with
  | none => pure key
  | some at_clause => do
    let suffix ← atClauseKeySuffix at_clause
    return key ++ suffix

/-- Whether a lookup gets the report: without an AT clause, where a planned scan will read the table
or there is no log to read. -/
def readsReport (t : TableInformation) (at_clause : Option BoundAtClause) : Run Bool :=
  if at_clause.isSome || t.reported.isNone then return false
  else if t.scanPlanCanRead then do
    let planned ← shouldTryScanPlan t.credentials
    return planned || t.table_data.data_source_format != "DELTA"
  else return t.table_data.data_source_format != "DELTA"

/-- `reported`, where it can stand for the table. -/
def readableReport (t : TableInformation) : Except Exception UCTableEntry := do
  match t.reported with
  | none => throw t.noDeltaTable
  | some reported =>
    t.throwIfUnreadableColumns
    return reported

/-- The three ways a lookup comes by its columns. -/
inductive Source where
  /-- UC's report, for a planned scan or a table that is no Delta table -/
  | report
  /-- UC's report, because the log holds no schema -/
  | noSchema
  /-- the Delta log -/
  | log
  deriving DecidableEq

/-- `GetVersion`, with where the entry comes from. -/
def getVersionFrom (t : TableInformation) (at_clause : Option BoundAtClause) :
    Run (Source × UCTableEntry) := do
  Prog.ofExcept t.throwIfIntervalColumns
  let report ← t.readsReport at_clause
  if report then
    let entry ← Prog.ofExcept t.readableReport
    return (.report, entry)
  else
    let key ← Prog.ofExcept (t.entryKey at_clause)
    match ← getTableEntry key with
    | some bound => return (.log, bound)
    | none =>
      match ← t.entryFromDeltaLog at_clause with
      | some entry =>
        let stored ← setTableEntry key entry
        return (.log, stored)
      | none =>
        if at_clause.isNone then
          let entry ← Prog.ofExcept t.readableReport
          return (.noSchema, entry)
        else throw t.noDeltaTable

/-- `GetVersion` -/
def getVersion (t : TableInformation) (at_clause : Option BoundAtClause) : Run UCTableEntry := do
  let x ← t.getVersionFrom at_clause
  return x.2

/-- Without where it comes from. -/
theorem getVersion_eq (t : TableInformation) (at_clause : Option BoundAtClause) :
    t.getVersion at_clause = (do
      Prog.ofExcept t.throwIfIntervalColumns
      let report ← t.readsReport at_clause
      if report then Prog.ofExcept t.readableReport
      else
        let key ← Prog.ofExcept (t.entryKey at_clause)
        match ← getTableEntry key with
        | some bound => return bound
        | none =>
          match ← t.entryFromDeltaLog at_clause with
          | some entry => setTableEntry key entry
          | none =>
            if at_clause.isNone then Prog.ofExcept t.readableReport else throw t.noDeltaTable) := by
  simp only [getVersion, getVersionFrom, Prog.bind_eq, Prog.bind_assoc, Prog.pure_eq]
  refine congrArg _ (funext fun _ => congrArg _ (funext fun report => ?_))
  cases report with
  | true => simp [Prog.bind_assoc, Prog.bind_ret]
  | false =>
    simp only [Bool.false_eq_true, if_false, Prog.bind_assoc]
    refine congrArg _ (funext fun key => congrArg _ (funext fun bound => ?_))
    cases bound with
    | some bound => rfl
    | none =>
      simp only [Prog.bind_assoc]
      refine congrArg _ (funext fun entry => ?_)
      cases entry with
      | some entry => simp [Prog.bind_assoc, Prog.bind_ret]
      | none => cases at_clause <;> simp [Prog.bind_assoc, Prog.bind_ret]

end TableInformation

end UnityCatalog
