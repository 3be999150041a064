import UnityCatalog.CreateTable
import UnityCatalog.Listings

/-!
# A schema's tables

`UCTableSet`: the tables of a schema, loaded once from Unity Catalog and looked up by name, and the
whole of `CreateTable`, which writes a new table's version 0, registers it, and has the set loaded
again. A table whose location the statement names is EXTERNAL; any other is MANAGED, and Unity
Catalog is asked first where it shall live and what it has to be.
-/

namespace UnityCatalog

open Effectful Yyjson

/-! ## Loading and looking up -/

/-- The columns of a listed table, in the order of their positions. -/
def orderedColumns (columns : List UCAPIColumnDefinition) : List UCAPIColumnDefinition :=
  columns.mergeSort fun left right => left.position ≤ right.position

/-- The loop of `LoadEntries`. -/
def loadTables : List UCAPITable → Run Unit
  | [] => return ()
  | table :: tables => do
    addColumns (orderedColumns table.columns)
    if table.name = "" then
      throw (internalException "UCTableSet::CreateEntry called with empty name")
    else do
      emplaceTable table
      loadTables tables

/-- `LoadEntries` -/
def UCTableSet.loadEntries (t : UCTableSet) : Run Unit := do
  let get_tables_result ← UCAPI.getTables t.catalog_name t.schema_name t.credentials
  loadTables get_tables_result

/-- `EnsureLoaded`; `is_loaded` is set only after `LoadEntries` succeeds. -/
def UCTableSet.ensureLoaded (t : UCTableSet) : Run Unit :=
  withLoadLock do
    let loaded ← isLoaded
    if loaded then return ()
    else do
      t.loadEntries
      setLoaded true

/-- `GetEntry`, up to the table whose `TableInformation` it asks for a version. -/
def UCTableSet.getEntry (t : UCTableSet) (name : String) : Run (Option UCAPITable) := do
  t.ensureLoaded
  findTable name

/-- `MarkNeedsReload` -/
def markNeedsReload : Run Unit := withLoadLock (setLoaded false)

/-! ## `UCAPI::CreateStagingTable` -/

/-- `UCAPIStagingTable` -/
structure UCAPIStagingTable where
  table_id : String := ""
  location : String := ""
  min_reader_version : ℤ := 0
  min_writer_version : ℤ := 0
  reader_features : List String := []
  writer_features : List String := []
  required_properties : List (String × String) := []
  suggested_properties : List (String × String) := []
  deriving DecidableEq

section

-- `yyjson_val_write` of a real number
variable (realText : ℚ → Option String)

/-- `yyjson_val_write` of a boolean or a number -/
def valWrite : Val → Option String
  | .bool b => some (if b then "true" else "false")
  | .num (.uint n) => some (toString n.val)
  | .num (.sint n) => some (toString (-(n.val : ℤ)))
  | .num (.real q) => realText q
  | _ => none

/-- The text of a member of `ReadStringMap`: none for a null, which is not a property to set. -/
def propertyText (key : String) : Val → Except Exception (Option String)
  | .null => pure none
  | .str s => pure (some (cString s))
  | .arr _ => throw (invalidInputException ("Unity Catalog sent property \"" ++ cString key ++
      "\" as a JSON object or array, which a Delta table property cannot hold"))
  | .obj _ => throw (invalidInputException ("Unity Catalog sent property \"" ++ cString key ++
      "\" as a JSON object or array, which a Delta table property cannot hold"))
  | val => match valWrite realText val with
    | some text => pure (some text)
    | none => throw (invalidInputException "yyjson property encoding failed")

/-- The loop of `ReadStringMap`. -/
def readProperty (m : String × Val) : Except Exception (Option (String × String)) := do
  let text ← propertyText realText m.1 m.2
  return text.map fun text => (cString m.1, text)

/-- `ReadStringMap` -/
def readStringMap (obj : Option Val) : Except Exception (List (String × String)) := do
  let properties ← (members obj).mapM (readProperty realText)
  return properties.filterMap id

/-- `ReadStringArray` -/
def readStringArray (arr : Option Val) : List String := readJsonStringArray arr

/-- What `required-protocol` says. -/
def readProtocol (protocol : Option Val) (result : UCAPIStagingTable) :
    Except Exception UCAPIStagingTable :=
  if isObj protocol then do
    let min_reader_version ← tryGetNumFromObject protocol "min-reader-version" false 0
    let min_writer_version ← tryGetNumFromObject protocol "min-writer-version" false 0
    return { result with
      min_reader_version := int64 min_reader_version
      min_writer_version := int64 min_writer_version
      reader_features := readStringArray (objGet protocol "reader-features")
      writer_features := readStringArray (objGet protocol "writer-features") }
  else pure result

/-- What a staging answer says of the table. -/
def readStagingTable (root : Option Val) : Except Exception UCAPIStagingTable := do
  let table_id ← tryGetStrFromObject root "table-id"
  let location ← tryGetStrFromObject root "location"
  let result ← readProtocol (objGet root "required-protocol") { table_id, location }
  let required_properties ← readStringMap realText (objGet root "required-properties")
  let suggested_properties ← readStringMap realText (objGet root "suggested-properties")
  return { result with required_properties, suggested_properties }

/-- What `CreateStagingTable` makes of the response. -/
def decodeCreateStagingTable (catalog_name schema_name table_name url : String)
    (response : HttpResponse) : Except Exception UCAPIStagingTable := do
  let error ← checkError (read response.body)
  if error.hasError then
    if error.isAlreadyExists then throw (entryAlreadyExists table_name)
    throw (error.exception
      ("Failed to stage table " ++ qualified catalog_name schema_name table_name))
  if !response.success then throw (requestFailed url response)
  readStagingTable realText (read response.body)

/-- `UCAPI::CreateStagingTable` -/
def UCAPI.createStagingTable (catalog_name schema_name table_name : String)
    (credentials : UCCredentials) : Run UCAPIStagingTable := do
  let url := schemaUrl credentials catalog_name schema_name ++ "/staging-tables"
  let response ← makeRequestResp url credentials.token (.stageTable table_name) 409
  Prog.ofExcept (decodeCreateStagingTable realText catalog_name schema_name table_name url response)

end

/-! ## Staging -/

/-- What `GetStagingTableCredentials` makes of the body. -/
def decodeStagingTableCredentials (table_id : String) (root : Option Val) :
    Except Exception UCAPITableCredentials := do
  let error ← checkError root
  error.throwIfError ("Failed to get credentials for staging table " ++ table_id)
  readStorageCredentials root

/-- `UCAPI::GetStagingTableCredentials` -/
def UCAPI.getStagingTableCredentials (table_id : String) (credentials : UCCredentials) :
    Run UCAPITableCredentials := do
  let api_result ← makeRequest (credentials.endpoint ++
    "/api/2.1/unity-catalog/delta/v1/staging-tables/" ++ table_id ++ "/credentials")
    credentials.token .empty
  Prog.ofExcept (decodeStagingTableCredentials table_id (read api_result))

/-- The keys `CreatableDeltaProperty` takes of the `delta.` namespace. -/
def creatable : List String :=
  ["delta.appendOnly", "delta.checkpointInterval", "delta.checkpointPolicy",
    "delta.checkpoint.writeStatsAsJson", "delta.checkpoint.writeStatsAsStruct",
    "delta.columnMapping.mode", "delta.dataSkippingNumIndexedCols",
    "delta.dataSkippingStatsColumns", "delta.deletedFileRetentionDuration",
    "delta.enableChangeDataFeed", "delta.enableDeletionVectors", "delta.enableExpiredLogCleanup",
    "delta.enableIcebergCompatV3", "delta.enableInCommitTimestamps", "delta.enableRowTracking",
    "delta.enableTypeWidening", "delta.logRetentionDuration", "delta.parquet.format.version",
    "delta.setTransactionRetentionDuration"]

/-- `CreatableDeltaProperty` -/
def creatableDeltaProperty (key : String) : Bool :=
  !"delta.".toList.isPrefixOf key.toList || creatable.contains key

/-- `StageCredentials`; local storage needs none. -/
def stageCredentials (t : UCTableSet) (staging : UCAPIStagingTable) : Run Unit :=
  if "file://".toList.isPrefixOf staging.location.toList then return ()
  else do
    let credentials ← UCAPI.getStagingTableCredentials staging.table_id t.credentials
    createSecret ⟨"__internal_uc_" ++ staging.table_id,
      [("key_id", credentials.key_id), ("secret", credentials.secret),
        ("session_token", credentials.session_token), ("region", t.credentials.aws_region)],
      staging.location⟩

/-- Options set one after the other. -/
def setAll (options properties : List (String × String)) : List (String × String) :=
  properties.foldl (fun options p => setProperty options p.1 p.2) options

/-- The statement's options with what Unity Catalog suggests, where Delta's kernel takes it, and
over it what Unity Catalog requires. -/
def stagedOptions (options : List (String × String)) (staging : UCAPIStagingTable) :
    List (String × String) :=
  let options :=
    setAll options (staging.suggested_properties.filter fun p => creatableDeltaProperty p.1)
  let options := setAll options staging.required_properties
  setAll options ((staging.reader_features ++ staging.writer_features).map fun feature =>
    ("delta.feature." ++ feature, "supported"))

/-- The `AttachInfo` of a managed create; `attached_name` is `catalog.GetName()`. -/
def stagingAttachInfo (attached_name schema_name table_name : String)
    (staging : UCAPIStagingTable) : AttachInfo where
  name := "__unity_catalog_internal_staging_" ++ staging.table_id
  path := staging.location
  options := [("type", .varchar "Delta"), ("child_catalog_mode", .boolean true),
    ("internal_table_name", .varchar table_name), ("unity_table_id", .varchar staging.table_id),
    ("parent_catalog", .varchar attached_name), ("parent_catalog_schema", .varchar schema_name),
    ("parent_commit", .boolean true)]

/-! ## `UCTableSet::CreateTable` -/

/-- `BoundCreateTableInfo`, as far as `CreateTable` reads it. -/
structure BoundCreateTableInfo where
  table_name : String
  on_conflict : OnCreateConflict
  /-- what the `location` option evaluates to, if the statement has one -/
  location : Option (Option String) := none
  /-- the other options -/
  options : List (String × String) := []

/-- A catalog that creates tables: one of its schemas, and the name it is attached under. -/
structure CreatingCatalog extends UCTableSet where
  /-- `catalog.GetName()` -/
  attached_name : String
  /-- `yyjson_val_write` of a real number -/
  realText : ℚ → Option String := fun _ => none

/-- An external create, and whether it goes on to `MarkNeedsReload`. -/
def UCTableSet.createExternal (t : UCTableSet) (info : CreateTableInfo) : Run Bool := do
  if t.read_only then
    throw (invalidInputException "Can not create a table in a read only Unity Catalog")
  else do
    let location ← Prog.ofExcept (externalLocation info.location)
    let found ← UCAPI.tableExists t.catalog_name t.schema_name info.table_name t.credentials
    if found then
      if info.on_conflict =
        .ignore then return false else throw (entryAlreadyExists info.table_name)
    else do
      let uuid ← randomUUID
      let committed ← writeVersionZero (createAttachInfo info.table_name location uuid)
        info.table_name location
      tryCatch
        (do
          registerTable t committed "EXTERNAL" fun loaded =>
            comparableLocation loaded.location == comparableLocation location
          return true)
        fun e => do
          removeUnregisteredVersionZero t info.table_name location
          -- taken between the check and the registration
          if e.type = .catalog ∧ info.on_conflict = .ignore ∧ isEntryAlreadyExists e
            then return false
          else throw e

/-- Staging, unless the name is taken and the statement does not mind. -/
def CreatingCatalog.stage (t : CreatingCatalog) (info : BoundCreateTableInfo) :
    Run (Option UCAPIStagingTable) :=
  tryCatch
    (do
      let staging ← UCAPI.createStagingTable t.realText t.catalog_name t.schema_name
        info.table_name t.credentials
      return some staging)
    fun e =>
      if e.type = .catalog ∧ info.on_conflict = .ignore ∧ isEntryAlreadyExists e then return none
      else throw e

/-- The managed create once it is staged, and whether it goes on to `MarkNeedsReload`. -/
def CreatingCatalog.createStaged (t : CreatingCatalog) (info : BoundCreateTableInfo)
    (staging : UCAPIStagingTable) : Run Bool := do
  stageCredentials t.toUCTableSet staging
  setOptions (stagedOptions info.options staging)
  let committed ← writeVersionZero
    (stagingAttachInfo t.attached_name t.schema_name info.table_name staging)
    info.table_name staging.location
  tryCatch
    (do
      registerTable t.toUCTableSet committed "MANAGED" fun loaded =>
        loaded.table_uuid == staging.table_id
      return true)
    fun e =>
      -- taken between staging and registration
      if e.type = .catalog ∧ info.on_conflict = .ignore ∧ isEntryAlreadyExists e then return false
      else throw e

/-- A managed create, and whether it goes on to `MarkNeedsReload`. -/
def CreatingCatalog.createManaged (t : CreatingCatalog) (info : BoundCreateTableInfo) :
    Run Bool := do
  let staging ← t.stage info
  match staging with
  | none => return false
  | some staging => t.createStaged info staging

/-- What `UCTableSet::CreateTable` does before `MarkNeedsReload`, and whether it comes to that. -/
def CreatingCatalog.createTableUnmarked (t : CreatingCatalog) (info : BoundCreateTableInfo) :
    Run Bool :=
  match info.location with
  | some location => t.createExternal ⟨info.table_name, info.on_conflict, location⟩
  | none =>
    if t.read_only then
      throw (invalidInputException "Can not create a table in a read only Unity Catalog")
    else t.createManaged info

/-- `UCTableSet::CreateTable` -/
def CreatingCatalog.createTable (t : CreatingCatalog) (info : BoundCreateTableInfo) : Run Unit := do
  let registered ← t.createTableUnmarked info
  if registered then markNeedsReload else return ()

/-- `UCSchemaEntry::CreateTable` -/
def CreatingCatalog.schemaCreateTable (t : CreatingCatalog) (info : BoundCreateTableInfo) :
    Run Unit :=
  if info.on_conflict = .replace then
    throw (notImplementedException "REPLACE ON CONFLICT in CreateTable")
  else t.createTable info

/-! ## The external half -/

/-- An external create is the one whose runs are described on their own, but for
`MarkNeedsReload`. -/
theorem UCTableSet.createExternalTable_eq (t : UCTableSet) (info : CreateTableInfo) :
    t.createExternalTable info = (t.createExternal info).bind fun _ => .ret () := by
  rw [createExternalTable, createExternal]
  split
  · rfl
  · simp only [Prog.bind_eq, Prog.bind_assoc]
    refine congrArg _ (funext fun location => congrArg _ (funext fun found => ?_))
    split
    · split <;> rfl
    · simp only [Prog.bind_assoc]
      refine congrArg _ (funext fun uuid => congrArg _ (funext fun committed => ?_))
      rw [registerVersionZero, Prog.tryCatch_eq', Prog.tryCatch_eq']
      refine Eq.trans ?_ (Prog.tryCatch_discard _ _ _).symm
      refine congrArg _ (funext fun e => ?_)
      simp only [Prog.bind_eq, Prog.bind_assoc]
      refine congrArg _ (funext fun _ => ?_)
      split <;> rfl

end UnityCatalog
