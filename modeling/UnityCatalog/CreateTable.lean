import UnityCatalog.TableInformation
import UnityCatalog.Threads

/-!
# Creating an external table

The half of `UCTableSet::CreateTable` for a table whose location the statement names: version 0 of
its log is written first, through a database attached for it, then read back and registered with
Unity Catalog. `RemoveUnregisteredVersionZero` cleans up after a registration that failed.

Then the world such a create runs in: the version 0 files of all tables, the tables UC lists, and
the requests on the wire, its own register request among them, which UC may process late, more than
once or never, while other clients register tables and write files too. The cleanup lists what it
removes by a pattern, made of the location as it stands; what the pattern finds is the file system's
business, so a location with a wildcard in it may find the files of other tables and miss its own.
-/

namespace UnityCatalog

open Effectful Yyjson

/-! ## The statement and the schema -/

/-- `OnCreateConflict` -/
inductive OnCreateConflict where
  | error | ignore | replace | alter
  deriving DecidableEq

/-- `CreateTableInfo`, as far as an external create reads it; `location` is what the option
evaluates to, `none` for NULL. -/
structure CreateTableInfo where
  table_name : String
  on_conflict : OnCreateConflict
  location : Option String

/-- `UCTableSet`: the attached catalog and the schema. -/
structure UCTableSet where
  /-- `catalog.GetDBPath()` -/
  catalog_name : String
  schema_name : String
  /-- `access_mode == AccessMode::READ_ONLY` -/
  read_only : Bool
  credentials : UCCredentials

/-! ## Locations -/

/-- Slashes popped from the end, from a text read backwards; one character is left. -/
def popSlashes : List Char → List Char
  | c :: d :: rest => if c = '/' then popSlashes (d :: rest) else c :: d :: rest
  | cs => cs

/-- `ComparableLocation` -/
def comparableLocation (location : String) : String :=
  let cs := location.toList
  let cs := if "file:".toList.isPrefixOf cs then '/' :: (cs.drop 5).dropWhile (· = '/') else cs
  String.ofList (popSlashes cs.reverse).reverse

/-- `ExternalLocation`, of the evaluated option. -/
def externalLocation : Option String → Except Exception String
  | none => throw (binderException "NULL is not a valid CREATE TABLE location")
  | some location =>
    if "/".toList.isPrefixOf location.toList ∨ "://".toList <:+: location.toList then pure location
    else throw
      (binderException ("CREATE TABLE location must be an absolute path or a URI, found '" ++
      location ++ "'"))

theorem externalLocation_ok {option : Option String} {location : String}
    (h : externalLocation option = .ok location) : option = some location := by
  cases option with
  | none => cases h
  | some text =>
    rw [externalLocation] at h
    split at h
    · rw [Except.ok.inj h]
    · cases h

/-- The log entry of version 0. -/
def versionZeroEntry (location : String) : String :=
  location ++ "/_delta_log/00000000000000000000.json"

/-- What the cleanup looks for: the files of version 0, where the location holds no wildcard. -/
def versionZeroPattern (location : String) : String :=
  location ++ "/_delta_log/00000000000000000000.*"

/-- The location a file of a log belongs to: its path before the last two slashes. -/
def logLocation (path : String) : String :=
  let parent (cs : List Char) := (cs.dropWhile (· ≠ '/')).drop 1
  String.ofList (parent (parent path.toList.reverse)).reverse

/-! ## Reading version 0 back -/

/-- `ReadJsonStringArray` -/
def readJsonStringArray (arr : Option Val) : List String :=
  (items arr).filterMap fun item => (getStr (some item)).map cString

/-- `ReadJsonStringMap` -/
def readJsonStringMap (obj : Option Val) : List (String × String) :=
  (members obj).filterMap fun (key, val) =>
    (getStr (some val)).map fun s => (cString key, cString s)

/-- What one action says of the table. -/
def readAction (root : Option Val) (result : UCAPICommittedTable) : UCAPICommittedTable :=
  let protocol := objGet root "protocol"
  let result := if protocol.isNone then result else { result with
    min_reader_version := getSint (objGet protocol "minReaderVersion")
    min_writer_version := getSint (objGet protocol "minWriterVersion")
    reader_features := readJsonStringArray (objGet protocol "readerFeatures")
    writer_features := readJsonStringArray (objGet protocol "writerFeatures") }
  let commit_info := objGet root "commitInfo"
  let ict := objGet commit_info "inCommitTimestamp"
  let written := objGet commit_info "timestamp"
  let result := if commit_info.isNone then result else { result with
    last_commit_timestamp_ms := getSint (if ict.isSome then ict else written) }
  let metadata := objGet root "metaData"
  if metadata.isNone then result else { result with
    schema_json := ((getStr (objGet metadata "schemaString")).map cString).getD result.schema_json
    partition_columns := readJsonStringArray (objGet metadata "partitionColumns")
    properties := readJsonStringMap (objGet metadata "configuration") }

/-- The lines of version 0, one action a line; a blank line is skipped. -/
def readActions (log_entry : String) :
    List String → UCAPICommittedTable → Except Exception UCAPICommittedTable
  | [], result => pure result
  | line :: lines, result =>
    if line.toList.all fun c => c == ' ' || c == '\t' || c == '\r' then
      readActions log_entry lines result
    else
      match read line with
      | none => throw (ioException ("Could not read the committed Delta log at " ++ log_entry))
      | some root => readActions log_entry lines (readAction (some root) result)

/-- What `ReadCommittedTable` makes of the contents of version 0. -/
def parseCommittedTable (name location contents : String) :
    Except Exception UCAPICommittedTable := do
  let log_entry := versionZeroEntry location
  let result ← readActions log_entry ((contents.toList.splitOn '\n').map String.ofList)
    { name, location }
  if result.schema_json = "" then
    throw (ioException ("The committed Delta log at " ++ log_entry ++ " holds no schema"))
  if result.last_commit_timestamp_ms = 0 then
    throw (ioException ("The committed Delta log at " ++ log_entry ++ " holds no commit timestamp"))
  return result

/-- The lines of the log do not rename the table. -/
theorem readActions_name {log_entry : String} {lines : List String} :
    ∀ {result result' : UCAPICommittedTable}, readActions log_entry lines result = .ok result' →
      result'.name = result.name := by
  induction lines with
  | nil =>
    intro result result' h
    obtain rfl := Except.ok.inj h
    rfl
  | cons line lines ih =>
    intro result result' h
    rw [readActions] at h
    split at h
    · exact ih h
    · split at h
      · cases h
      · rw [ih h]
        simp only [readAction]
        split <;> split <;> split <;> rfl

theorem parseCommittedTable_name {name location contents : String} {committed : UCAPICommittedTable}
    (h : parseCommittedTable name location contents = .ok committed) : committed.name = name := by
  simp only [parseCommittedTable] at h
  rcases hr : readActions (versionZeroEntry location)
      ((contents.toList.splitOn '\n').map String.ofList) { name, location } with e | result
  · rw [hr] at h
    cases h
  · rw [hr] at h
    have heq : result = committed := by
      revert h
      simp only [Except.bind, bind]
      split
      · exact fun h => nomatch h
      · split
        · exact fun h => nomatch h
        · exact fun h => Except.ok.inj h
    exact heq ▸ readActions_name hr

/-- `ReadCommittedTable` -/
def readCommittedTable (name location : String) : Run UCAPICommittedTable := do
  let log_entry := versionZeroEntry location
  let _ ← openRead log_entry
  let contents ← readText log_entry
  Prog.ofExcept (parseCommittedTable name location contents)

/-! ## The create -/

/-- `WriteVersionZero` -/
def writeVersionZero (attach_info : AttachInfo) (table_name location : String) :
    Run UCAPICommittedTable := do
  let delta_db ← attachDatabase attach_info
  let committed ← tryCatch
    (do
      deltaCreateTable delta_db
      readCommittedTable table_name location)
    fun e => do
      tryCatch (detachDatabase attach_info.name) fun _ => return ()
      throw e
  detachDatabase attach_info.name
  return committed

/-- What is read back from version 0 has the table's name. -/
theorem writeVersionZero_returns (attach_info : AttachInfo) (table_name location : String) :
    (writeVersionZero attach_info table_name location).Returns fun committed =>
      committed.name = table_name := by
  refine Prog.Returns.bind (Prog.returns_trivial _) fun db _ => ?_
  refine Prog.Returns.bind (A := fun committed : UCAPICommittedTable => committed.name = table_name)
    (Prog.Returns.tryCatch ?_ fun e => ?_) fun committed hname => ?_
  · refine Prog.Returns.bind (Prog.returns_trivial _) fun _ _ => ?_
    refine Prog.Returns.bind (Prog.returns_trivial _) fun _ _ => ?_
    refine Prog.Returns.bind (Prog.returns_trivial _) fun contents _ => ?_
    exact Prog.returns_ofExcept fun committed h => parseCommittedTable_name h
  · exact Prog.Returns.bind (Prog.returns_trivial _) fun _ _ => trivial
  · exact Prog.Returns.bind (Prog.returns_trivial _) fun _ _ => hname

/-- An operation on files, or on a database attached to write them. -/
def Op.OnFiles : Op → Prop
  | .attachDatabase _ => True
  | .detachDatabase _ => True
  | .deltaCreateTable _ => True
  | .openRead _ => True
  | .readText _ => True
  | .glob _ => True
  | .removeFile _ => True
  | _ => False

theorem uses_writeVersionZero (attach_info : AttachInfo) (table_name location : String) :
    (writeVersionZero attach_info table_name location).Uses Op.OnFiles := by
  refine (Prog.uses_perform trivial).bind fun db => ?_
  refine Prog.Uses.bind (Prog.Uses.tryCatch ?_ fun e => ?_) fun committed => ?_
  · refine (Prog.uses_perform trivial).bind fun _ => (Prog.uses_perform trivial).bind fun _ => ?_
    exact (Prog.uses_perform trivial).bind fun _ => Prog.uses_ofExcept _
  · refine Prog.Uses.bind (Prog.Uses.tryCatch (Prog.uses_perform trivial) fun _ => trivial) ?_
    exact fun _ => trivial
  · exact (Prog.uses_perform trivial).bind fun _ => trivial

/-- `RegisterTable` -/
def registerTable (t : UCTableSet) (committed : UCAPICommittedTable) (table_type : String)
    (is_ours : UCAPICommitsResult → Bool) : Run Unit :=
  tryCatch (UCAPI.createTable t.catalog_name t.schema_name committed table_type t.credentials)
    fun e =>
    if e.type = .interrupt ∨ e.type = .catalog then throw e
    else do
      let registered ← tryCatch
        (do
          let loaded ← UCAPI.loadTable t.catalog_name t.schema_name committed.name t.credentials
          return is_ours loaded)
        fun _ => return false
      if !registered then throw e else return ()

/-- Whether UC lists the table at the location. -/
def listedAtLocation (t : UCTableSet) (table_name location : String) : Run Bool := do
  let found ← UCAPI.tableExists t.catalog_name t.schema_name table_name t.credentials
  if found then
    let loaded ← UCAPI.loadTable t.catalog_name t.schema_name table_name t.credentials
    return comparableLocation loaded.location == comparableLocation location
  else return false

/-- The loop over the files of version 0. -/
def removeFiles : List String → Run Unit
  | [] => return ()
  | file :: files => do
    removeFile file
    removeFiles files

theorem uses_removeFiles (files : List String) : (removeFiles files).Uses Op.OnFiles := by
  induction files with
  | nil => trivial
  | cons file files ih => exact (Prog.uses_perform trivial).bind fun _ => ih

/-- `RemoveUnregisteredVersionZero` -/
def removeUnregisteredVersionZero (t : UCTableSet) (table_name location : String) : Run Unit :=
  tryCatch
    (do
      let listed ← listedAtLocation t table_name location
      if listed then return ()
      else
        let files ← glob (versionZeroPattern location)
        removeFiles files)
    fun _ => return ()

/-- `IsEntryAlreadyExists` -/
def isEntryAlreadyExists (e : Exception) : Bool :=
  ((e.extraInfo.find? fun p => p.1 == "error_subtype").map Prod.snd) == some "ENTRY_ALREADY_EXISTS"

/-- The `AttachInfo` of an external create. -/
def createAttachInfo (table_name location uuid : String) : AttachInfo where
  name := "__unity_catalog_internal_create_" ++ uuid
  path := location
  options := [("type", .varchar "Delta"), ("child_catalog_mode", .boolean true),
    ("internal_table_name", .varchar table_name)]

/-- What is done with version 0 once it is written: it is registered, or removed again. -/
def registerVersionZero (t : UCTableSet) (info : CreateTableInfo) (location : String)
    (committed : UCAPICommittedTable) : Run Unit :=
  tryCatch
    (registerTable t committed "EXTERNAL" fun loaded =>
      comparableLocation loaded.location == comparableLocation location)
    fun e => do
      removeUnregisteredVersionZero t info.table_name location
      if e.type = .catalog ∧ info.on_conflict = .ignore ∧ isEntryAlreadyExists e then return ()
      else throw e

/-- `UCTableSet::CreateTable` for a statement with a `location` option. -/
def UCTableSet.createExternalTable (t : UCTableSet) (info : CreateTableInfo) : Run Unit := do
  if t.read_only then
    throw (invalidInputException "Can not create a table in a read only Unity Catalog")
  else do
    let location ← Prog.ofExcept (externalLocation info.location)
    let found ← UCAPI.tableExists t.catalog_name t.schema_name info.table_name t.credentials
    if found then
      if info.on_conflict = .ignore then return () else throw (entryAlreadyExists info.table_name)
    else do
      let uuid ← randomUUID
      let committed ← writeVersionZero (createAttachInfo info.table_name location uuid)
        info.table_name location
      registerVersionZero t info location committed

/-! ## The world of one create -/

/-- One external create, which texts name the same location (what compares equal does), and which
paths a pattern finds. -/
structure ExternalCreate where
  set : UCTableSet
  info : CreateTableInfo
  Place : Type
  place : String → Place
  comparable : ∀ a b, comparableLocation a = comparableLocation b → place a = place b
  decidablePlace : DecidableEq Place
  /-- `FileSystem::Glob`: whether the pattern matches the path -/
  globs : String → String → Bool

namespace ExternalCreate

/-- Where the table is created. -/
def location (E : ExternalCreate) : String := E.info.location.getD ""

/-- The name it is registered under. -/
def name (E : ExternalCreate) : String :=
  qualified E.set.catalog_name E.set.schema_name E.info.table_name

/-- The place whose log a file is of. -/
def home (E : ExternalCreate) (path : String) : E.Place := E.place (logLocation path)

/-- The cleanup finds the file. -/
def Finds (E : ExternalCreate) (path : String) : Prop :=
  E.globs (versionZeroPattern E.location) path = true

/-- Where it is looked up. -/
def lookupUrl (E : ExternalCreate) : String :=
  UnityCatalog.lookupUrl E.set.credentials E.set.catalog_name E.set.schema_name E.info.table_name

/-- Where it is loaded. -/
def loadUrl (E : ExternalCreate) : String :=
  tableUrl E.set.credentials E.set.catalog_name E.set.schema_name E.info.table_name

/-- Where it is registered. -/
def registerUrl (E : ExternalCreate) : String :=
  schemaUrl E.set.credentials E.set.catalog_name E.set.schema_name ++ "/tables"

/-- The create. -/
def program (E : ExternalCreate) : Run Unit := E.set.createExternalTable E.info

end ExternalCreate

/-- What UC has: the tables it lists, each with its full name and its location, and how many copies
of the create's register request are on the way to it. -/
structure CatalogView where
  tables : List (String × String) := []
  inflight : ℕ := 0

/-- UC takes a registration, unless the name is taken. -/
def CatalogView.register (uc : CatalogView) (name location : String) : CatalogView :=
  if name ∈ uc.tables.map Prod.fst then uc else { uc with tables := (name, location) :: uc.tables }

/-- What the create has done at its location, and what it was told. -/
structure CreateLog where
  /-- the files of version 0 as it wrote them -/
  wrote : List String := []
  /-- those of them that are there still -/
  files : List String := []
  /-- this create has written them -/
  written : Bool := false
  /-- an operation on what was written has failed before the registration -/
  halted : Bool := false
  /-- what was read back -/
  contents : Option String := none
  /-- the cleanup has asked whether UC lists the table -/
  asked : Bool := false
  /-- and has no answer -/
  unanswered : Bool := false
  /-- and was told that UC does not have it at the location -/
  removing : Bool := false
  /-- an operation on files failed while some of what it wrote was still there -/
  stuck : Bool := false
  /-- the files removed, whoever wrote them, each with what UC had then -/
  removals : List (String × CatalogView) := []

/-- The create and its surroundings. -/
structure CreateState where
  uc : CatalogView := {}
  /-- the version 0 files there are, of all tables -/
  store : List String := []
  /-- the request whose answer the create waits for -/
  request : Option HttpRequest := none
  started : Bool := false
  log : CreateLog := {}

/-- What the surroundings may do with an operation; a location says that UC processes a copy of the
register request before it answers, and how it spells the location. -/
inductive CreateChoice where
  | proceed
  | respond (resp : HttpResponse) (spelled : Option String)
  | fail (e : Exception) (spelled : Option String)
  | text (s : String)
  | size (n : ℕ)
  /-- Delta writes version 0, and then may throw all the same -/
  | wrote (files : List String) (e : Option Exception)
  /-- the files a pattern finds, in some order -/
  | listed (files : List String)

/-- What else happens to the catalog and to the files. -/
inductive CreateEnv where
  /-- another client registers a table -/
  | register (name location : String)
  /-- UC processes a copy of the create's register request -/
  | process (spelled : String)
  /-- a copy is delivered once more -/
  | duplicate
  /-- a copy is lost -/
  | lose
  /-- another client writes a version 0 file -/
  | write (path : String)
  /-- another client removes one that the create did not write -/
  | remove (path : String)

namespace ExternalCreate

variable (E : ExternalCreate)

/-- UC processes a copy of the create's register request, if one is there. -/
def process (uc : CatalogView) (spelled : String) : Option CatalogView :=
  letI := E.decidablePlace
  if 0 < uc.inflight ∧ E.place spelled = E.place E.location then
    some { uc.register E.name spelled with inflight := uc.inflight - 1 }
  else none

/-- The same, where the answer says whether it did. -/
def processIf (uc : CatalogView) : Option String → Option CatalogView
  | none => some uc
  | some spelled => E.process uc spelled

/-- What `LoadTable` makes of a response. -/
def loadOutcome (resp : HttpResponse) : Except Exception UCAPICommitsResult :=
  resp.decoded E.loadUrl
    (decodeLoadTable E.set.catalog_name E.set.schema_name E.info.table_name)

/-- What UC answers is true: that a table is found or not, where it is, and that it is created. Any
answer may be an error, or be lost. -/
def reply (s : CreateState) (req : HttpRequest) :
    CreateChoice → Option (Except Exception HttpResponse × CreateState)
  | .respond resp spelled =>
    match req.body with
    | .registerTable table _ => (E.processIf s.uc spelled).bind fun uc =>
      match resp.tableCreated E.set.catalog_name E.set.schema_name table E.registerUrl with
      | .ok _ =>
        if E.name ∈ uc.tables.map Prod.fst then some (.ok resp, { s with uc, request := none })
        else none
      | .error _ => some (.ok resp, { s with uc, request := none })
    | _ =>
      if req.url = E.lookupUrl then
        match resp.tableFound E.lookupUrl with
        | .ok found =>
          if found = decide (E.name ∈ s.uc.tables.map Prod.fst) then
            some (.ok resp, { s with
              request := none, log.removing := s.log.removing || (s.log.asked && !found) })
          else none
        | .error _ => some (.ok resp, { s with
            request := none, log.unanswered := s.log.unanswered || s.log.asked })
      else
        match E.loadOutcome resp with
        | .ok result =>
          if (E.name, result.location) ∈ s.uc.tables then
            some (.ok resp, { s with
              request := none
              log.removing := s.log.removing || (s.log.asked &&
                comparableLocation result.location != comparableLocation E.location) })
          else none
        | .error _ => some (.ok resp, { s with
            request := none, log.unanswered := s.log.unanswered || s.log.asked })
  | .fail e spelled =>
    match req.body with
    | .registerTable _ _ => (E.processIf s.uc spelled).map fun uc =>
      (.error e, { s with uc, request := none })
    | _ => some (.error e, { s with
        request := none, log.unanswered := s.log.unanswered || s.log.asked })
  | _ => none

/-- The operations. The httpfs extension is loaded. Version 0 is written only where the place has no
version 0 file yet. -/
def createAnswer (s : CreateState) : (op : Op) → CreateChoice →
    Option (Except Exception op.Ans × CreateState)
  | .ensureHttpfs, .proceed => some (.ok (), s)
  | .issue req, .proceed => some (.ok (), { s with
      request := some req
      uc.inflight := match req.body with
        | .registerTable _ _ => s.uc.inflight + 1
        | _ => s.uc.inflight
      log.asked := s.log.asked || (s.log.written && req.url == E.lookupUrl) })
  | .answer, ch => s.request.bind fun req => E.reply s req ch
  | .randomUUID, .text uuid => some (.ok uuid, s)
  | .attachDatabase _, .proceed => some (.ok 0, s)
  | .attachDatabase _, .fail e _ => some (.error e, s)
  | .deltaCreateTable _, .wrote files e =>
    letI := E.decidablePlace
    if files ≠ [] ∧ (∀ f ∈ files, E.home f = E.place E.location) ∧
        ∀ f ∈ s.store, E.home f ≠ E.place E.location then
      some (match e with | none => .ok () | some e => .error e, { s with
        store := files ++ s.store
        log.wrote := files
        log.files := files
        log.written := true
        log.halted := s.log.halted || e.isSome })
    else none
  | .deltaCreateTable _, .fail e _ => some (.error e, s)
  | .openRead _, .size n => some (.ok n, s)
  | .openRead _, .fail e _ => some (.error e, { s with log.halted := true })
  | .readText _, .text contents => some (.ok contents, { s with log.contents := some contents })
  | .readText _, .fail e _ => some (.error e, { s with log.halted := true })
  | .detachDatabase _, .proceed => some (.ok (), s)
  | .detachDatabase _, .fail e _ => some (.error e, { s with log.halted := true })
  | .glob pattern, .listed files =>
    if (∀ f ∈ files, f ∈ s.store ∧ E.globs pattern f = true) ∧
        ∀ f ∈ s.store, E.globs pattern f = true → f ∈ files then
      some (.ok files, s)
    else none
  | .glob _, .fail e _ =>
    some (.error e, { s with log.stuck := s.log.stuck || !s.log.files.isEmpty })
  | .removeFile path, .proceed =>
    if path ∈ s.store then some (.ok (), { s with
      store := s.store.filter (· ≠ path)
      log.files := s.log.files.filter (· ≠ path)
      log.removals := (path, s.uc) :: s.log.removals })
    else none
  | .removeFile _, .fail e _ =>
    some (.error e, { s with log.stuck := s.log.stuck || !s.log.files.isEmpty })
  | _, _ => none

/-- The create among other clients. -/
def creates : Pool Client Exception Unit where
  Ctx := Unit
  State := CreateState
  Choice := CreateChoice
  answer _ s op ch := E.createAnswer s op ch
  Call := Unit
  start s _ _ :=
    if s.started then none else some (E.program, { s with started := true, log := {} })
  finish s _ _ := s
  Env := CreateEnv
  env s
    | .register name location =>
      if name ∈ s.uc.tables.map Prod.fst then none
      else some { s with uc := s.uc.register name location }
    | .process spelled => (E.process s.uc spelled).map fun uc => { s with uc }
    | .duplicate =>
      if 0 < s.uc.inflight then some { s with uc.inflight := s.uc.inflight + 1 } else none
    | .lose => if 0 < s.uc.inflight then some { s with uc.inflight := s.uc.inflight - 1 } else none
    | .write path => if path ∈ s.store then none else some { s with store := path :: s.store }
    | .remove path =>
      if path ∈ s.log.files then none else some { s with store := s.store.filter (· ≠ path) }
  init s := s = { uc := { tables := s.uc.tables }, store := s.store }

instance : DecidableEq E.creates.Ctx := inferInstanceAs (DecidableEq Unit)

/-- UC lists a table at the place, under whatever name and however it spells the location. -/
def ListsAt (uc : CatalogView) (p : E.Place) : Prop := ∃ x ∈ uc.tables, E.place x.2 = p

/-- UC lists a table at the location. -/
def Lists (uc : CatalogView) : Prop := E.ListsAt uc (E.place E.location)

/-- UC will list one there from a request still on the way. -/
def WillList (uc : CatalogView) : Prop := 0 < uc.inflight ∧ E.name ∉ uc.tables.map Prod.fst

end ExternalCreate

end UnityCatalog
