import UnityCatalog.Prog
import UnityCatalog.Yyjson

/-!
# What the extension asks of its surroundings

The extension is C++ code running inside DuckDB. Everything it asks of the outside is an operation
of one signature, `Client`: requests to the catalog, the client context's interrupt flag and clock,
DuckDB's database manager, the file system, the Delta extension, and the fields of a
`TableInformation` that several threads share. A function of the source is a program over these
operations (`Run α`), with C++ exceptions as what it throws; the worlds the theorems are about say
what the operations do.

A request to the catalog is two operations, `issue` and `answer`: between them the request is on the
wire, and everything can happen to it.
-/

namespace UnityCatalog

open Effectful

/-! ## Exceptions -/

/-- `ExceptionType`, as far as the extension throws or tells them apart. -/
inductive ExceptionType where
  | io | catalog | interrupt | invalidInput | invalidConfiguration | notImplemented | internal
  | binder | missingExtension
  deriving DecidableEq, Repr

/-- A DuckDB exception: its type, its message and its extra info. -/
structure Exception where
  /-- which C++ class it is -/
  type : ExceptionType
  /-- `what()` -/
  message : String
  /-- `ExtraInfo()` -/
  extraInfo : List (String × String) := []
  deriving DecidableEq, Repr

/-- `IOException` -/
def ioException (message : String) : Exception := ⟨.io, message, []⟩

/-- `NotImplementedException` -/
def notImplementedException (message : String) : Exception := ⟨.notImplemented, message, []⟩

/-- `InvalidInputException` -/
def invalidInputException (message : String) : Exception := ⟨.invalidInput, message, []⟩

/-- `InternalException` -/
def internalException (message : String) : Exception := ⟨.internal, message, []⟩

/-- `BinderException` -/
def binderException (message : String) : Exception := ⟨.binder, message, []⟩

/-- `CatalogException` -/
def catalogException (message : String) : Exception := ⟨.catalog, message, []⟩

/-- `CatalogException::EntryAlreadyExists` for a table. -/
def entryAlreadyExists (name : String) : Exception :=
  ⟨.catalog, "Table with name \"" ++ name ++ "\" already exists!",
    [("error_subtype", "ENTRY_ALREADY_EXISTS"), ("name", name), ("type", "Table")]⟩

/-! ## HTTP -/

/-- The methods the extension uses. -/
inductive Method where
  | get | post | delete
  deriving DecidableEq, Repr

/-- `UCAPICommit` -/
structure UCAPICommit where
  version : ℕ
  timestamp : ℤ
  file_name : String
  file_size : ℤ
  file_modification_timestamp : ℤ
  deriving DecidableEq, Repr

/-- What `UCAPI::UpdateTable` writes into its body: the requirements `assert-table-uuid` and, with a
non-empty etag, `assert-etag`, the update `add-commit`, and with a valid `backfill_version` the
update `set-latest-backfilled-version`. -/
structure AddCommit where
  table_id : String
  etag : String
  version : ℕ
  timestamp : ℕ
  file_name : String
  file_size : ℕ
  file_modification_timestamp : ℕ
  backfill_version : Option ℕ
  deriving DecidableEq, Repr

/-- `UCAPICommittedTable` -/
structure UCAPICommittedTable where
  name : String := ""
  location : String := ""
  schema_json : String := ""
  partition_columns : List String := []
  min_reader_version : ℤ := 0
  min_writer_version : ℤ := 0
  reader_features : List String := []
  writer_features : List String := []
  properties : List (String × String) := []
  last_commit_timestamp_ms : ℤ := 0
  deriving DecidableEq, Repr

/-- A request body, by what it says. -/
inductive RequestBody where
  /-- no body: the request is a GET -/
  | empty
  /-- a text -/
  | text (s : String)
  /-- `UCAPI::UpdateTable` -/
  | addCommit (c : AddCommit)
  /-- `UCAPI::CreateTable`, with the table's wire schema as `columns` -/
  | registerTable (table : UCAPICommittedTable) (table_type : String)
  /-- `UCAPI::CreateStagingTable` -/
  | stageTable (name : String)
  deriving DecidableEq, Repr

/-- A request as the extension hands it to the HTTP layer. -/
structure HttpRequest where
  method : Method
  url : String
  token : String
  body : RequestBody
  deriving DecidableEq, Repr

/-- `HTTPStatusCode::INVALID`, which no response has. -/
def statusInvalid : ℕ := 0

/-- `HTTPResponse` -/
structure HttpResponse where
  status : ℕ
  /-- `Success()` -/
  success : Bool
  /-- `GetError()` -/
  error : String := ""
  headers : List (String × String) := []
  body : String := ""
  deriving DecidableEq, Repr

/-! ## The other parties -/

/-- `Value`, as far as the extension builds any. -/
inductive Value where
  | varchar (s : String)
  | boolean (b : Bool)
  | bigint (i : ℤ)
  | struct (children : List (String × Value))
  | list (values : List Value)

/-- `AttachInfo` -/
structure AttachInfo where
  name : String
  path : String
  options : List (String × Value)

/-- An attached database, by identity. -/
abbrev AttachedDatabase := ℕ

/-- A byte buffer. -/
abbrev Bytes := List UInt8

/-- `UCCommitState` -/
structure UCCommitState where
  etag : String := ""
  backfilled_version : Option ℕ := none
  deriving DecidableEq, Repr

/-! ## Tables as UC lists them -/

/-- `UCAPIColumnDefinition` -/
structure UCAPIColumnDefinition where
  name : String
  type_text : String
  is_partition_column : Bool := false
  /-- optional, preferred over `type_text` if available -/
  type_json : String := ""
  precision : ℕ := 0
  scale : ℕ := 0
  position : ℕ := 0
  deriving DecidableEq

/-- `UCAPITable` -/
structure UCAPITable where
  table_id : String
  name : String
  catalog_name : String
  schema_name : String
  data_source_format : String := "DELTA"
  storage_location : String
  columns : List UCAPIColumnDefinition := []
  /-- an `unordered_map`: one entry a key -/
  properties : List (String × String) := []
  table_type : String := ""
  deriving DecidableEq

/-! ## Columns and entries -/

/-- `LogicalType`, as far as columns come to have one. -/
inductive LogicalType where
  | unknown | sqlNull | boolean | tinyint | smallint | integer | bigint | float | double | varchar
  | blob | date | timestamp | timestampTz | variant
  | decimal (width scale : ℕ)
  | list (child : LogicalType)
  | map (key value : LogicalType)
  | struct (children : List (String × LogicalType))

/-- `ColumnDefinition` -/
structure ColumnDefinition where
  name : String
  type : LogicalType

/-- `UCTableEntry`; the `table` it refers to is the `TableInformation` that made it. -/
structure UCTableEntry where
  name : String
  columns : List ColumnDefinition

/-- `BoundAtClause`, with what DuckDB makes of its value. -/
structure BoundAtClause where
  unit : String
  /-- `DefaultCastAs(LogicalType::UBIGINT)` -/
  version : Except Exception ℕ
  /-- `DefaultCastAs(LogicalType::TIMESTAMP_TZ)`, in milliseconds since the epoch -/
  epochMs : Except Exception ℤ

/-- A table entry of the Delta catalog: one version of the log. -/
structure DeltaTable where
  columns : List ColumnDefinition

/-- `ScanPlanAvailability` -/
inductive ScanPlanAvailability where
  | unknown | available | unavailable
  deriving DecidableEq, Repr

/-- The members `scan_plan_lock` guards. -/
structure ScanPlanGate where
  scan_plan_state : ScanPlanAvailability := .unknown
  /-- in nanoseconds of the steady clock -/
  scan_plan_unavailable_since : ℤ := 0

/-- A temporary S3 secret: `CreateSecretInput` -/
structure CreateSecretInput where
  name : String
  options : List (String × String)
  scope : String
  deriving DecidableEq, Repr

/-- The operations. -/
inductive Op where
  /-- `EnsureHttpfsExtension` -/
  | ensureHttpfs
  /-- hand a request to the HTTP layer -/
  | issue (req : HttpRequest)
  /-- what the HTTP layer returns for it -/
  | answer
  /-- `ClientContext::InterruptCheck` -/
  | interruptCheck
  /-- `std::this_thread::sleep_for` -/
  | sleepFor (ms : ℤ)
  /-- take `attach_lock` -/
  | lockAttach
  /-- release it -/
  | unlockAttach
  /-- read `is_dirty` -/
  | isDirty
  /-- write `is_dirty` -/
  | setDirty (b : Bool)
  /-- read `internal_attached_database` -/
  | attached
  /-- write `internal_attached_database` -/
  | setAttached (db : Option AttachedDatabase)
  /-- `commit_state.with_locked`, reading -/
  | readCommitState
  /-- `commit_state.with_locked`, writing -/
  | updateCommitState (f : UCCommitState → UCCommitState)
  /-- `MetaTransaction::TryGetTransaction` -/
  | tryGetTransaction (db : AttachedDatabase)
  /-- `DatabaseManager::AttachDatabase` -/
  | attachDatabase (info : AttachInfo)
  /-- `DatabaseManager::DetachDatabase` with `RETURN_NULL` -/
  | detachDatabase (name : String)
  /-- `FileSystem::OpenFile` for reading; the answer is the size of the file, which bounds how often
  it can be read from -/
  | openRead (path : String)
  /-- `FileSystem::OpenFile`, exclusive create, null if the file exists -/
  | openExclusive (path : String)
  /-- `FileHandle::Read`, at most `n` bytes from where the handle stands -/
  | readFile (path : String) (n : ℕ)
  /-- `FileHandle::Write` -/
  | writeFile (path : String) (bytes : Bytes)
  /-- `FileHandle::Close` -/
  | closeFile (path : String)
  /-- `FileSystem::Glob` -/
  | glob (pattern : String)
  /-- `FileSystem::RemoveFile` -/
  | removeFile (path : String)
  /-- the Delta catalog's `CreateTable`, through the database attached at a location -/
  | deltaCreateTable (db : AttachedDatabase)
  /-- the whole of a file opened for reading, as text -/
  | readText (path : String)
  /-- `UUID::GenerateRandomUUID` -/
  | randomUUID
  /-- `SecretManager::CreateSecret`, replacing one of the same name -/
  | createSecret (input : CreateSecretInput)
  /-- the Delta catalog's `LookupEntry`; none where there is no Delta table -/
  | lookupEntry (db : AttachedDatabase) (at_clause : Option BoundAtClause)
  /-- `UCTransaction::GetTableEntry` -/
  | getTableEntry (qualified_name : String)
  /-- `UCTransaction::SetTableEntry`: what is stored under the name afterwards -/
  | setTableEntry (qualified_name : String) (entry : UCTableEntry)
  /-- with `scan_plan_lock` held and the steady clock at hand -/
  | scanPlanGate (f : ScanPlanGate → ℤ → Bool × ScanPlanGate)
  /-- the bind of `parquet_scan`, over the file list at hand -/
  | bindParquet (path : String)
  /-- the `init_global` of a bound table function -/
  | initGlobal
  /-- write `base.options`, which the Delta catalog's `CreateTable` is handed -/
  | setOptions (options : List (String × String))
  /-- take `load_lock` -/
  | lockLoad
  /-- release it -/
  | unlockLoad
  /-- read `is_loaded` -/
  | isLoaded
  /-- write `is_loaded` -/
  | setLoaded (b : Bool)
  /-- `ColumnList::AddColumn` for each column -/
  | addColumns (columns : List UCAPIColumnDefinition)
  /-- with `entry_lock` held, an entry of `tables` for the table unless its name has one -/
  | emplaceTable (table : UCAPITable)
  /-- with `entry_lock` held, `tables.find`; what is found is the entry's `table_data` -/
  | findTable (name : String)

/-- What an operation answers. -/
abbrev Op.Ans : Op → Type
  | .ensureHttpfs => Unit
  | .issue _ => Unit
  | .answer => HttpResponse
  | .interruptCheck => Unit
  | .sleepFor _ => Unit
  | .lockAttach => Unit
  | .unlockAttach => Unit
  | .isDirty => Bool
  | .setDirty _ => Unit
  | .attached => Option AttachedDatabase
  | .setAttached _ => Unit
  | .readCommitState => UCCommitState
  | .updateCommitState _ => Unit
  | .tryGetTransaction _ => Bool
  | .attachDatabase _ => AttachedDatabase
  | .detachDatabase _ => Unit
  | .openRead _ => ℕ
  | .openExclusive _ => Bool
  | .readFile _ _ => Bytes
  | .writeFile _ _ => Unit
  | .closeFile _ => Unit
  | .glob _ => List String
  | .removeFile _ => Unit
  | .deltaCreateTable _ => Unit
  | .readText _ => String
  | .randomUUID => String
  | .createSecret _ => Unit
  | .lookupEntry _ _ => Option DeltaTable
  | .getTableEntry _ => Option UCTableEntry
  | .setTableEntry _ _ => UCTableEntry
  | .scanPlanGate _ => Bool
  | .bindParquet _ => Unit
  | .initGlobal => Unit
  | .setOptions _ => Unit
  | .lockLoad => Unit
  | .unlockLoad => Unit
  | .isLoaded => Bool
  | .setLoaded _ => Unit
  | .addColumns _ => Unit
  | .emplaceTable _ => Unit
  | .findTable _ => Option UCAPITable

/-- The extension's surroundings. -/
abbrev Client : Signature := ⟨Op, Op.Ans⟩

/-- A function of the extension. -/
abbrev Run : Type → Type := Prog Client Exception

/-! ## One function per operation -/

@[inherit_doc Op.ensureHttpfs]
def ensureHttpfs : Run Unit :=
  Prog.perform (F := Client) .ensureHttpfs

@[inherit_doc Op.issue]
def issue (req : HttpRequest) : Run Unit :=
  Prog.perform (F := Client) (.issue req)

@[inherit_doc Op.answer]
def answer : Run HttpResponse :=
  Prog.perform (F := Client) .answer

@[inherit_doc Op.interruptCheck]
def interruptCheck : Run Unit :=
  Prog.perform (F := Client) .interruptCheck

@[inherit_doc Op.sleepFor]
def sleepFor (ms : ℤ) : Run Unit :=
  Prog.perform (F := Client) (.sleepFor ms)

@[inherit_doc Op.lockAttach]
def lockAttach : Run Unit :=
  Prog.perform (F := Client) .lockAttach

@[inherit_doc Op.unlockAttach]
def unlockAttach : Run Unit :=
  Prog.perform (F := Client) .unlockAttach

@[inherit_doc Op.isDirty]
def isDirty : Run Bool :=
  Prog.perform (F := Client) .isDirty

@[inherit_doc Op.setDirty]
def setDirty (b : Bool) : Run Unit :=
  Prog.perform (F := Client) (.setDirty b)

@[inherit_doc Op.attached]
def attached : Run (Option AttachedDatabase) :=
  Prog.perform (F := Client) .attached

@[inherit_doc Op.setAttached]
def setAttached (db : Option AttachedDatabase) : Run Unit :=
  Prog.perform (F := Client) (.setAttached db)

@[inherit_doc Op.readCommitState]
def readCommitState : Run UCCommitState :=
  Prog.perform (F := Client) .readCommitState

@[inherit_doc Op.updateCommitState]
def updateCommitState (f : UCCommitState → UCCommitState) : Run Unit :=
  Prog.perform (F := Client) (.updateCommitState f)

@[inherit_doc Op.tryGetTransaction]
def tryGetTransaction (db : AttachedDatabase) : Run Bool :=
  Prog.perform (F := Client) (.tryGetTransaction db)

@[inherit_doc Op.attachDatabase]
def attachDatabase (info : AttachInfo) : Run AttachedDatabase :=
  Prog.perform (F := Client) (.attachDatabase info)

@[inherit_doc Op.detachDatabase]
def detachDatabase (name : String) : Run Unit :=
  Prog.perform (F := Client) (.detachDatabase name)

@[inherit_doc Op.openRead]
def openRead (path : String) : Run ℕ :=
  Prog.perform (F := Client) (.openRead path)

@[inherit_doc Op.openExclusive]
def openExclusive (path : String) : Run Bool :=
  Prog.perform (F := Client) (.openExclusive path)

@[inherit_doc Op.readFile]
def readFile (path : String) (n : ℕ) : Run Bytes :=
  Prog.perform (F := Client) (.readFile path n)

@[inherit_doc Op.writeFile]
def writeFile (path : String) (bytes : Bytes) : Run Unit :=
  Prog.perform (F := Client) (.writeFile path bytes)

@[inherit_doc Op.closeFile]
def closeFile (path : String) : Run Unit :=
  Prog.perform (F := Client) (.closeFile path)

@[inherit_doc Op.glob]
def glob (pattern : String) : Run (List String) :=
  Prog.perform (F := Client) (.glob pattern)

@[inherit_doc Op.removeFile]
def removeFile (path : String) : Run Unit :=
  Prog.perform (F := Client) (.removeFile path)

@[inherit_doc Op.deltaCreateTable]
def deltaCreateTable (db : AttachedDatabase) : Run Unit :=
  Prog.perform (F := Client) (.deltaCreateTable db)

@[inherit_doc Op.readText]
def readText (path : String) : Run String :=
  Prog.perform (F := Client) (.readText path)

@[inherit_doc Op.randomUUID]
def randomUUID : Run String :=
  Prog.perform (F := Client) .randomUUID

@[inherit_doc Op.createSecret]
def createSecret (input : CreateSecretInput) : Run Unit :=
  Prog.perform (F := Client) (.createSecret input)

@[inherit_doc Op.lookupEntry]
def lookupEntry (db : AttachedDatabase) (at_clause : Option BoundAtClause) :
    Run (Option DeltaTable) :=
  Prog.perform (F := Client) (.lookupEntry db at_clause)

@[inherit_doc Op.getTableEntry]
def getTableEntry (qualified_name : String) : Run (Option UCTableEntry) :=
  Prog.perform (F := Client) (.getTableEntry qualified_name)

@[inherit_doc Op.setTableEntry]
def setTableEntry (qualified_name : String) (entry : UCTableEntry) : Run UCTableEntry :=
  Prog.perform (F := Client) (.setTableEntry qualified_name entry)

@[inherit_doc Op.scanPlanGate]
def scanPlanGate (f : ScanPlanGate → ℤ → Bool × ScanPlanGate) : Run Bool :=
  Prog.perform (F := Client) (.scanPlanGate f)

@[inherit_doc Op.bindParquet]
def bindParquet (path : String) : Run Unit :=
  Prog.perform (F := Client) (.bindParquet path)

@[inherit_doc Op.initGlobal]
def initGlobal : Run Unit :=
  Prog.perform (F := Client) .initGlobal

@[inherit_doc Op.setOptions]
def setOptions (options : List (String × String)) : Run Unit :=
  Prog.perform (F := Client) (.setOptions options)

@[inherit_doc Op.lockLoad]
def lockLoad : Run Unit :=
  Prog.perform (F := Client) .lockLoad

@[inherit_doc Op.unlockLoad]
def unlockLoad : Run Unit :=
  Prog.perform (F := Client) .unlockLoad

@[inherit_doc Op.isLoaded]
def isLoaded : Run Bool :=
  Prog.perform (F := Client) .isLoaded

@[inherit_doc Op.setLoaded]
def setLoaded (b : Bool) : Run Unit :=
  Prog.perform (F := Client) (.setLoaded b)

@[inherit_doc Op.addColumns]
def addColumns (columns : List UCAPIColumnDefinition) : Run Unit :=
  Prog.perform (F := Client) (.addColumns columns)

@[inherit_doc Op.emplaceTable]
def emplaceTable (table : UCAPITable) : Run Unit :=
  Prog.perform (F := Client) (.emplaceTable table)

@[inherit_doc Op.findTable]
def findTable (name : String) : Run (Option UCAPITable) :=
  Prog.perform (F := Client) (.findTable name)

/-- `lock_guard` on `attach_lock`: released however the scope is left. -/
def withAttachLock {α : Type} (p : Run α) : Run α := do
  lockAttach
  let a ← tryCatch p fun e => do
    unlockAttach
    throw e
  unlockAttach
  return a

/-- `lock_guard` on `load_lock`: released however the scope is left. -/
def withLoadLock {α : Type} (p : Run α) : Run α := do
  lockLoad
  let a ← tryCatch p fun e => do
    unlockLoad
    throw e
  unlockLoad
  return a

end UnityCatalog
