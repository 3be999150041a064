import UnityCatalog.LockOrder
import UnityCatalog.ReportedColumns
import UnityCatalog.ScanFunction

/-!
# The attached catalog

What DuckDB calls on an attached catalog: `UnityCatalog` itself, the `UCSchemaSet` that holds its
schemas, the schemas (`UCSchemaEntry`), and the table functions that reach a table through them.
Below these are the functions of `UCTableSet` and `TableInformation`, which keep their own
operations: an operation of theirs is performed at a `Place`, the object whose members it is on. The
members of the schema set, the schemas' table maps and the transaction manager have operations of
their own.

Schemas are objects with an identity: `ClearCache` drops them, and a later load makes new ones of
the same names. What a table map holds of a table is what Unity Catalog listed; its
`TableInformation` is made of that and of the catalog. What is only logged is left out.
-/

namespace UnityCatalog

open Effectful

/-! ## Objects and operations -/

/-- A `UCSchemaEntry`: which object it is, and what is fixed about it. -/
structure UCSchemaEntry where
  id : ℕ
  name : String
  internal : Bool
  deriving DecidableEq, Repr

/-- Whose members an operation is on. -/
inductive Place where
  /-- nobody's -/
  | catalog
  /-- the `UCTableSet` of a schema -/
  | set (schema : ℕ)
  /-- a `TableInformation` of a schema, in a transaction -/
  | table (schema : ℕ) (table_name : String) (txn : ℕ)
  deriving DecidableEq

/-- The catalog's own operations. -/
inductive CatalogOp where
  /-- take the mutex of the `UCSchemaSet`'s state -/
  | lockSchemas
  /-- release it -/
  | unlockSchemas
  /-- read `is_loaded` -/
  | schemasLoaded
  /-- write `is_loaded` -/
  | setSchemasLoaded (b : Bool)
  /-- `schemas.emplace` with a new entry -/
  | emplaceSchema (schema_name : String) (internal : Bool)
  /-- `schemas.find` -/
  | findSchema (schema_name : String)
  /-- the entries of `schemas` -/
  | schemas
  /-- `schemas.clear` -/
  | clearSchemas
  /-- take `entry_lock` -/
  | lockEntries (schema : ℕ)
  /-- release it -/
  | unlockEntries (schema : ℕ)
  /-- `tables.find` -/
  | findEntry (schema : ℕ) (table_name : String)
  /-- the entries of `tables` -/
  | entries (schema : ℕ)
  /-- take `default_function_lock` -/
  | lockFunctions (schema : ℕ)
  /-- release it -/
  | unlockFunctions (schema : ℕ)
  /-- `default_function_map.find` -/
  | findFunction (schema : ℕ) (entry_name : String)
  /-- write `default_function_map` -/
  | setFunction (schema : ℕ) (entry_name : String)
  /-- with `transaction_lock` held, write `transactions` -/
  | setTransaction (txn : ℕ)
  /-- with `transaction_lock` held, erase of `transactions` -/
  | eraseTransaction (txn : ℕ)
  /-- the Delta catalog's `PlanInsert` -/
  | deltaPlanInsert (db : AttachedDatabase)
  /-- the Delta transaction manager's `Checkpoint` -/
  | deltaCheckpoint (db : AttachedDatabase) (force : Bool)

/-- What the catalog's own operations answer. -/
abbrev CatalogOp.Ans : CatalogOp → Type
  | .lockSchemas => Unit
  | .unlockSchemas => Unit
  | .schemasLoaded => Bool
  | .setSchemasLoaded _ => Unit
  | .emplaceSchema _ _ => Unit
  | .findSchema _ => Option UCSchemaEntry
  | .schemas => List UCSchemaEntry
  | .clearSchemas => Unit
  | .lockEntries _ => Unit
  | .unlockEntries _ => Unit
  | .findEntry _ _ => Option UCAPITable
  | .entries _ => List UCAPITable
  | .lockFunctions _ => Unit
  | .unlockFunctions _ => Unit
  | .findFunction _ _ => Bool
  | .setFunction _ _ => Unit
  | .setTransaction _ => Unit
  | .eraseTransaction _ => Unit
  | .deltaPlanInsert _ => Unit
  | .deltaCheckpoint _ _ => Unit

/-- The catalog's own members. -/
abbrev CatalogMembers : Signature := ⟨CatalogOp, CatalogOp.Ans⟩

/-- Everything a function of the catalog may perform. -/
abbrev CatalogClient : Signature := (Client.indexed Place).sum CatalogMembers

/-- A function of the catalog. -/
abbrev CatalogRun : Type → Type := Prog CatalogClient Exception

/-- A function of the extension at its place. -/
def Place.run {α : Type} (place : Place) (p : Run α) : CatalogRun α := (p.on place).left

/-- One of the catalog's own operations. -/
def own (op : CatalogOp) : CatalogRun op.Ans := Prog.perform (F := CatalogClient) (.inr op)

/-- `with_locked` on the schema set's state. -/
def withSchemas {α : Type} (p : CatalogRun α) : CatalogRun α := do
  own .lockSchemas
  let a ← tryCatch p fun e => do
    own .unlockSchemas
    throw e
  own .unlockSchemas
  return a

/-- `lock_guard` on `entry_lock` -/
def withEntries {α : Type} (schema : ℕ) (p : CatalogRun α) : CatalogRun α := do
  own (.lockEntries schema)
  let a ← tryCatch p fun e => do
    own (.unlockEntries schema)
    throw e
  own (.unlockEntries schema)
  return a

/-- `lock_guard` on `default_function_lock` -/
def withFunctions {α : Type} (schema : ℕ) (p : CatalogRun α) : CatalogRun α := do
  own (.lockFunctions schema)
  let a ← tryCatch p fun e => do
    own (.unlockFunctions schema)
    throw e
  own (.unlockFunctions schema)
  return a

/-- A callback over a list of entries. -/
def forEach {α : Type} (callback : α → CatalogRun Unit) : List α → CatalogRun Unit
  | [] => return ()
  | a :: as => do
    callback a
    forEach callback as

/-- `UnityCatalog`, as far as it is fixed. -/
structure AttachedCatalog where
  /-- `GetName()`, the name it is attached under -/
  name : String
  /-- `GetDBPath()`, the catalog in Unity Catalog -/
  internal_name : String
  /-- `access_mode == AccessMode::READ_ONLY` -/
  read_only : Bool
  credentials : UCCredentials
  default_schema : String
  /-- DuckDB's cast of a text to a UTINYINT -/
  cast : CastUint8
  /-- `yyjson_val_write` of a real number -/
  realText : ℚ → Option String

/-- `OnEntryNotFound` -/
inductive OnEntryNotFound where
  | throwException | returnNull
  deriving DecidableEq, Repr

namespace AttachedCatalog

variable (t : AttachedCatalog)

/-- The table set of a schema. -/
def tableSet (schema : UCSchemaEntry) : CreatingCatalog where
  catalog_name := t.internal_name
  schema_name := schema.name
  read_only := t.read_only
  credentials := t.credentials
  attached_name := t.name
  realText := t.realText

/-- The `TableInformation` of a table that is listed in a schema. -/
def tableInformation (schema : UCSchemaEntry) (table : UCAPITable) : TableInformation :=
  table.describe t.cast t.name t.read_only t.credentials schema.name

/-- Where the functions of a table's `TableInformation` run. -/
def tablePlace (schema : UCSchemaEntry) (table : UCAPITable) (txn : ℕ) : Place :=
  .table schema.id table.name txn

/-! ## `UCSchemaSet` -/

/-- `IsInternalTable` -/
def isInternalTable (schema : String) : Bool := schema == "information_schema"

/-- The loop of `LoadEntries`; `AddEntry` refuses an empty name. -/
def addEntries : List UCAPISchema → CatalogRun Unit
  | [] => return ()
  | schema :: schemas => do
    if schema.schema_name = "" then
      throw (internalException "UCSchemaSet::CreateEntry called with empty name")
    else do
      own (.emplaceSchema schema.schema_name (isInternalTable schema.schema_name))
      addEntries schemas

/-- `UCSchemaSet::LoadEntries`. A name that is no string is undefined behaviour, here an error. -/
def loadEntries : CatalogRun Unit := do
  let schemas ← Place.catalog.run (UCAPI.getSchemas t.internal_name t.credentials)
  match schemas with
  | some schemas => addEntries schemas
  | none => throw (internalException "basic_string: construction from null is not valid")

/-- `UCSchemaSet::EnsureLoaded`; `is_loaded` is set only after the fetch succeeded. -/
def ensureLoaded : CatalogRun Unit := do
  let loaded ← own .schemasLoaded
  if loaded then return ()
  else do
    t.loadEntries
    own (.setSchemasLoaded true)

/-- `UCSchemaSet::GetEntry` -/
def getEntry (name : String) : CatalogRun (Option UCSchemaEntry) :=
  withSchemas do
    t.ensureLoaded
    own (.findSchema name)

/-- `UCSchemaSet::Scan` -/
def scan (callback : UCSchemaEntry → CatalogRun Unit) : CatalogRun Unit :=
  withSchemas do
    t.ensureLoaded
    let schemas ← own .schemas
    forEach callback schemas

/-- `UCSchemaSet::ClearEntries` -/
def clearEntries : CatalogRun Unit :=
  withSchemas do
    own .clearSchemas
    own (.setSchemasLoaded false)

/-! ## `UnityCatalog` -/

/-- `DEFAULT_SCHEMA` -/
def defaultSchema : String := "main"

/-- The schema that `LookupSchema` looks for: the catalog's own default schema where `main` is asked
for. -/
def redirected (entry_name : String) : Except Exception String :=
  if lower entry_name = defaultSchema ∧ lower t.default_schema ≠ defaultSchema then
    if t.default_schema = "" then
      throw (invalidInputException ("Default schema for catalog '" ++ t.name ++
        "' not found. This means auto-detection of default schema failed. Please specify a " ++
        "DEFAULT_SCHEMA on ATTACH: `ATTACH '..' (TYPE unity_catalog, DEFAULT_SCHEMA 'my_schema')`"))
    else pure t.default_schema
  else pure entry_name

/-- `LookupSchema` -/
def lookupSchema (entry_name : String) (if_not_found : OnEntryNotFound) :
    CatalogRun (Option UCSchemaEntry) := do
  -- `GetSchema` comes back to `LookupSchema`, with a name that is not `main`
  let name ← Prog.ofExcept (t.redirected entry_name)
  let entry ← t.getEntry name
  if entry.isNone ∧ if_not_found ≠ .returnNull then
    throw (binderException ("Schema with name \"" ++ name ++ "\" not found"))
  else return entry

/-- `ClearCache` -/
def clearCache : CatalogRun Unit := clearEntries

/-- What ends at a table's Delta catalog. -/
def withDelta (schema : UCSchemaEntry) (table : UCAPITable) (txn : ℕ)
    (p : AttachedDatabase → CatalogRun Unit) : CatalogRun Unit := do
  let info := t.tableInformation schema table
  let db ← (tablePlace schema table txn).run do
    info.refreshCredentials
    info.internalAttach
    TableInformation.getInternalCatalog
  p db

/-- `PlanInsert` -/
def planInsert (schema : UCSchemaEntry) (table : UCAPITable) (txn : ℕ) : CatalogRun Unit :=
  t.withDelta schema table txn fun internal_catalog => own (.deltaPlanInsert internal_catalog)

/-- `TableInformation::InternalCheckpoint` -/
def internalCheckpoint (schema : UCSchemaEntry) (table : UCAPITable) (txn : ℕ) (force : Bool) :
    CatalogRun Unit :=
  t.withDelta schema table txn fun db => own (.deltaCheckpoint db force)

/-- `UCTableSet::OnDetach`: the tables are gone through without `entry_lock`. -/
def onDetachTables (schema : UCSchemaEntry) (txn : ℕ) : CatalogRun Unit := do
  let tables ← own (.entries schema.id)
  forEach (fun table => (tablePlace schema table txn).run
    (withAttachLock (t.tableInformation schema table).internalDetach)) tables

/-- `UnityCatalog::OnDetach` -/
def onDetach (txn : ℕ) : CatalogRun Unit := t.scan fun schema => t.onDetachTables schema txn

/-! ## `UCSchemaEntry` -/

/-- `UCTableSet::GetEntry`: the table and the entry it has for the lookup. -/
def getTable (schema : UCSchemaEntry) (name : String) (at_clause : Option BoundAtClause) (txn : ℕ) :
    CatalogRun (Option (UCAPITable × UCTableEntry)) := do
  (Place.set schema.id).run (t.tableSet schema).ensureLoaded
  withEntries schema.id do
    let table ← own (.findEntry schema.id name)
    match table with
    | none => return none
    | some table =>
      let entry ← (tablePlace schema table txn).run
        ((t.tableInformation schema table).getVersion at_clause)
      return some (table, entry)

/-- `UCTableSet::Scan` -/
def scanTables (schema : UCSchemaEntry) (callback : UCAPITable → CatalogRun Unit) :
    CatalogRun Unit := do
  (Place.set schema.id).run (t.tableSet schema).ensureLoaded
  withEntries schema.id do
    let tables ← own (.entries schema.id)
    forEach callback tables

/-- `TryLoadBuiltInFunction`; there are no table macros. -/
def tryLoadBuiltInFunction (schema : UCSchemaEntry) (entry_name : String) : CatalogRun Bool :=
  withFunctions schema.id do
    let found ← own (.findFunction schema.id entry_name)
    if found then return true
    else if entry_name = "__internal_delta_ccv2_commit_staged" ∨ entry_name = "table_data_path"
      then do
      own (.setFunction schema.id entry_name)
      return true
    else return false

/-- `UCSchemaEntry::CreateTable` -/
def createTable (schema : UCSchemaEntry) (info : BoundCreateTableInfo) : CatalogRun Unit :=
  (Place.set schema.id).run ((t.tableSet schema).schemaCreateTable info)

/-- `UCTableDataPathBind` -/
def tableDataPathBind (schema : UCSchemaEntry) (table_name : String) (txn : ℕ) :
    CatalogRun String := do
  let entry ← t.getTable schema table_name none txn
  match entry with
  | some (table, _) => return table.storage_location
  | none => throw (binderException ("table_data_path: table '" ++ table_name ++ "' not found"))

/-- `CheckpointTableFunction`, on a name resolved in this catalog; it has done its work when it is
called again. -/
def checkpointTable (finished : Bool) (schema_name table_name : String) (force : Bool) (txn : ℕ) :
    CatalogRun Unit :=
  if finished then return ()
  else do
    let schema ← t.lookupSchema schema_name .returnNull
    match schema with
    | none => throw (invalidInputException ("Unity Catalog table not found: '" ++
        qualified t.name schema_name table_name ++ "'"))
    | some schema => do
      let entry ← t.getTable schema table_name none txn
      match entry with
      | none => throw (invalidInputException ("Unity Catalog table not found: '" ++
          qualified t.name schema_name table_name ++ "'"))
      | some (table, _) => t.internalCheckpoint schema table txn force

/-! ## Scans -/

/-- What `GetScanFunction` binds a planned scan to, with the filter pushed down since. -/
def scanBindData (schema : UCSchemaEntry) (table : UCAPITable) (lookup_info : Option BoundAtClause)
    (filter_json : String) : UCScanPlanBindData where
  catalog_name := table.catalog_name
  schema_name := table.schema_name
  table_name := table.name
  storage_location := table.storage_location
  credentials := t.credentials
  scan_plan_endpoint := t.credentials.ircEndpoint
  uc_catalog := true
  table := some (t.tableInformation schema table)
  lookup_info := some lookup_info
  filter_json := filter_json

end AttachedCatalog

/-! ## Calls -/

/-- What DuckDB calls, each in a thread of its own. -/
inductive CatalogCall where
  | lookupSchema (entry_name : String) (if_not_found : OnEntryNotFound)
  /-- `ScanSchemas`; the callback may go on to the schema's tables -/
  | scanSchemas (tables : Bool)
  | clearCache
  | onDetach
  | lookupTable (schema : UCSchemaEntry) (name : String) (at_clause : Option BoundAtClause)
  | lookupFunction (schema : UCSchemaEntry) (entry_name : String)
  | scanTables (schema : UCSchemaEntry)
  | createTable (schema : UCSchemaEntry) (info : BoundCreateTableInfo)
  | tableDataPath (schema : UCSchemaEntry) (table_name : String)
  | checkpointTable (finished : Bool) (schema_name table_name : String) (force : Bool)
  | planInsert (schema : UCSchemaEntry) (table : UCAPITable)
  | getScanFunction (schema : UCSchemaEntry) (table : UCAPITable)
      (lookup_info : Option BoundAtClause)
  | initGlobal (schema : UCSchemaEntry) (table : UCAPITable) (lookup_info : Option BoundAtClause)
      (filter_json : String) (input : TableFunctionInitInput)
  /-- `ExpandNextPath`, which exchanges at most so many tokens -/
  | expandNextPath (schema : UCSchemaEntry) (table : UCAPITable) (remaining_tokens : List String)
      (tokens : ℕ)
  | commitExecute (schema : UCSchemaEntry) (table : UCAPITable) (res : StagedCommit)
  | startTransaction
  | endTransaction

/-- The program of a call in a transaction. -/
def AttachedCatalog.program (t : AttachedCatalog) (txn : ℕ) : CatalogCall → CatalogRun Unit
  | .lookupSchema entry_name if_not_found => do
    let _ ← t.lookupSchema entry_name if_not_found
    return ()
  | .scanSchemas tables => t.scan fun schema =>
    if tables then t.scanTables schema fun _ => return () else return ()
  | .clearCache => AttachedCatalog.clearCache
  | .onDetach => t.onDetach txn
  | .lookupTable schema name at_clause => do
    let _ ← t.getTable schema name at_clause txn
    return ()
  | .lookupFunction schema entry_name => do
    let _ ← AttachedCatalog.tryLoadBuiltInFunction schema entry_name
    return ()
  | .scanTables schema => t.scanTables schema fun _ => return ()
  | .createTable schema info => t.createTable schema info
  | .tableDataPath schema table_name => do
    let _ ← t.tableDataPathBind schema table_name txn
    return ()
  | .checkpointTable finished schema_name table_name force =>
    t.checkpointTable finished schema_name table_name force txn
  | .planInsert schema table => t.planInsert schema table txn
  | .getScanFunction schema table lookup_info => do
    let _ ← (AttachedCatalog.tablePlace schema table txn).run
      ((t.tableInformation schema table).getScanFunction lookup_info)
    return ()
  | .initGlobal schema table lookup_info filter_json input => do
    let _ ← (AttachedCatalog.tablePlace schema table txn).run
      (ucScanPlanInitGlobal (t.scanBindData schema table lookup_info filter_json) input)
    return ()
  | .expandNextPath schema table remaining_tokens tokens => do
    let _ ← (AttachedCatalog.tablePlace schema table txn).run
      (UCMultiFileList.expandNextPath tokens
        { target := (t.scanBindData schema table none "").target, remaining_tokens })
    return ()
  | .commitExecute schema table res =>
    (AttachedCatalog.tablePlace schema table txn).run
      ((t.tableInformation schema table).commitExecute res)
  | .startTransaction => own (.setTransaction txn)
  | .endTransaction => own (.eraseTransaction txn)

end UnityCatalog
