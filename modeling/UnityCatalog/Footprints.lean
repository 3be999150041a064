import UnityCatalog.Catalog

/-!
# What a catalog asks of its surroundings

Every function of the extension, whatever it is answered, keeps to a **scope**: its requests go to
the endpoint the catalog was attached with, or to that of scan planning, and carry the catalog's
token; and where the catalog is attached read-only, a call that is refused there changes nothing,
neither in Unity Catalog nor in a table's files. The same walk over the functions says which mutexes
each takes, and that it takes them downwards: the schema list's, a schema's `load_lock`, its
`entry_lock`, a table's `attach_lock`, and last those that are held for one access only.
-/

namespace UnityCatalog

open Effectful Yyjson

/-! ## Scopes -/

/-- What an attached catalog may ask for. -/
structure Scope where
  credentials : UCCredentials
  /-- nothing may be changed -/
  read_only : Bool

/-- Below the endpoint of Unity Catalog, or below that of scan planning. -/
def Scope.Covers (s : Scope) (url : String) : Prop :=
  (∃ path, url = s.credentials.endpoint ++ ("/api/2.1/unity-catalog/" ++ path)) ∨
    ∃ path, url = s.credentials.ircEndpoint ++ ("/v1/" ++ path)

/-- A target of scan planning within the scope. -/
structure ScanTarget.Within (s : Scope) (t : ScanTarget) : Prop where
  credentials : t.credentials = s.credentials
  endpoint : t.scan_plan_endpoint = s.credentials.ircEndpoint

/-- The request that `MakeRequest` sends. -/
def Scope.request (s : Scope) (url : String) (body : RequestBody) : HttpRequest :=
  ⟨body.method, url, s.credentials.token, body⟩

/-- The requests of a catalog that only reads: it lists, looks up and loads, asks for credentials to
read a table with, and has scans planned. Nothing else is here, and in particular no request for
credentials to write with: those differ from these in the operation they name. -/
inductive Scope.Reads (s : Scope) : HttpRequest → Prop
  | listSchemas (catalog_name : String) :
    s.Reads (s.request (schemasUrl s.credentials catalog_name) .empty)
  | listTables (catalog_name schema_name : String) :
    s.Reads (s.request (tablesUrl s.credentials catalog_name schema_name) .empty)
  | lookUp (catalog_name schema_name table_name : String) :
    s.Reads (s.request (lookupUrl s.credentials catalog_name schema_name table_name) .empty)
  | load (catalog_name schema_name table_name : String) :
    s.Reads (s.request (tableUrl s.credentials catalog_name schema_name table_name) .empty)
  | readCredentials (catalog_name schema_name table_name table_id : String) (catalog_managed : Bool)
    {url : String} {body : RequestBody} : (url, body) =
      tableCredentialsRequest catalog_name schema_name
      table_name table_id "READ" catalog_managed s.credentials → s.Reads (s.request url body)
  | plan {t : ScanTarget} (filter_json : String) : t.Within s →
    s.Reads (s.request t.planUrl (planBody filter_json))
  | pollPlan {t : ScanTarget} (plan_id : String) : t.Within s →
    s.Reads (s.request (t.planIdUrl plan_id) .empty)
  | cancelPlan {t : ScanTarget} (plan_id : String) : t.Within s →
    s.Reads ⟨.delete, t.planIdUrl plan_id, s.credentials.token, .empty⟩
  | fetchTasks {t : ScanTarget} (plan_task : String) : t.Within s →
    s.Reads (s.request t.tasksUrl (taskBody plan_task))

/-- The operation keeps to the scope. -/
def Op.Within (s : Scope) : Op → Prop
  | .issue req => s.Covers req.url ∧ req.token = s.credentials.token ∧
      (s.read_only = true → s.Reads req)
  | .openExclusive _ => s.read_only = false
  | .writeFile _ _ => s.read_only = false
  | .removeFile _ => s.read_only = false
  | .deltaCreateTable _ => s.read_only = false
  | _ => True

/-! ## Mutexes -/

/-- The mutexes of an attached catalog. -/
inductive CatalogLock where
  /-- of the `UCSchemaSet` -/
  | schemas
  /-- `load_lock` -/
  | load (schema : ℕ)
  /-- `entry_lock` -/
  | entries (schema : ℕ)
  /-- `attach_lock` -/
  | attach (schema : ℕ) (table_name : String)
  /-- of `commit_state` -/
  | commitState (schema : ℕ) (table_name : String)
  /-- of a transaction's `table_entries` -/
  | tableEntries (txn : ℕ)
  /-- `scan_plan_lock` -/
  | scanPlan
  /-- `default_function_lock` -/
  | functions (schema : ℕ)
  /-- `transaction_lock` -/
  | transactions
  deriving DecidableEq

/-- From the schema list down. -/
def CatalogLock.level : CatalogLock → ℕ
  | .schemas => 4
  | .load _ => 3
  | .entries _ => 2
  | .attach _ _ => 1
  | _ => 0

/-- What an operation at a place does to a mutex. -/
def Place.lockUse : Place → Op → LockUse CatalogLock
  | .set schema, .lockLoad => .acquire (.load schema)
  | .set schema, .unlockLoad => .release (.load schema)
  | .set schema, .emplaceTable _ => .visit (.entries schema)
  | .set schema, .findTable _ => .visit (.entries schema)
  | .table schema table_name _, .lockAttach => .acquire (.attach schema table_name)
  | .table schema table_name _, .unlockAttach => .release (.attach schema table_name)
  | .table schema table_name _, .readCommitState => .visit (.commitState schema table_name)
  | .table schema table_name _, .updateCommitState _ => .visit (.commitState schema table_name)
  | .table _ _ txn, .getTableEntry _ => .visit (.tableEntries txn)
  | .table _ _ txn, .setTableEntry _ _ => .visit (.tableEntries txn)
  | .table _ _ _, .scanPlanGate _ => .visit .scanPlan
  | _, _ => .none

/-- What one of the catalog's own operations does to a mutex. -/
def CatalogOp.lockUse : CatalogOp → LockUse CatalogLock
  | .lockSchemas => .acquire .schemas
  | .unlockSchemas => .release .schemas
  | .lockEntries schema => .acquire (.entries schema)
  | .unlockEntries schema => .release (.entries schema)
  | .lockFunctions schema => .acquire (.functions schema)
  | .unlockFunctions schema => .release (.functions schema)
  | .setTransaction _ => .visit .transactions
  | .eraseTransaction _ => .visit .transactions
  | _ => .none

/-- What an operation does to a mutex. -/
def catalogLocks : CatalogClient.Op → LockUse CatalogLock
  | .inl (place, op) => place.lockUse op
  | .inr op => op.lockUse

/-- What the Delta extension is asked to write. -/
def CatalogOp.Within (s : Scope) : CatalogOp → Prop
  | .deltaPlanInsert _ => s.read_only = false
  | .deltaCheckpoint _ _ => s.read_only = false
  | _ => True

/-- The operation keeps to the scope. -/
def catalogWithin (s : Scope) : CatalogClient.Op → Prop
  | .inl (_, op) => op.Within s
  | .inr op => op.Within s

/-- What is read does not depend on what may be written. -/
theorem Scope.Reads.loosen {s s' : Scope} {req : HttpRequest} (h : s.Reads req)
    (hcredentials : s'.credentials = s.credentials) : s'.Reads req := by
  obtain ⟨credentials, read_only⟩ := s
  obtain ⟨credentials', read_only'⟩ := s'
  obtain rfl : credentials' = credentials := hcredentials
  cases h with
  | listSchemas catalog_name => exact .listSchemas catalog_name
  | listTables catalog_name schema_name => exact .listTables catalog_name schema_name
  | lookUp catalog_name schema_name table_name => exact .lookUp catalog_name schema_name table_name
  | load catalog_name schema_name table_name => exact .load catalog_name schema_name table_name
  | readCredentials catalog_name schema_name table_name table_id catalog_managed hurl =>
    exact .readCredentials catalog_name schema_name table_name table_id catalog_managed hurl
  | plan filter_json ht => exact .plan filter_json ⟨ht.credentials, ht.endpoint⟩
  | pollPlan plan_id ht => exact .pollPlan plan_id ⟨ht.credentials, ht.endpoint⟩
  | cancelPlan plan_id ht => exact .cancelPlan plan_id ⟨ht.credentials, ht.endpoint⟩
  | fetchTasks plan_task ht => exact .fetchTasks plan_task ⟨ht.credentials, ht.endpoint⟩

/-- A scope of the same catalog that forbids no more. -/
theorem catalogWithin.loosen {s s' : Scope} {op : CatalogClient.Op} (h : catalogWithin s op)
    (hcredentials : s'.credentials = s.credentials)
    (hro : s'.read_only = true → s.read_only = true) :
    catalogWithin s' op := by
  obtain ⟨credentials, read_only⟩ := s
  obtain ⟨credentials', read_only'⟩ := s'
  obtain rfl : credentials' = credentials := hcredentials
  have hwrites (hs : read_only = false) : read_only' = false :=
    Bool.eq_false_iff.2 fun hs' => Bool.noConfusion (hs.symm.trans (hro hs'))
  rcases op with ⟨place, op⟩ | op
  · cases op <;>
      first | trivial | exact hwrites h | exact ⟨h.1, h.2.1, fun hs => (h.2.2 (hro hs)).loosen rfl⟩
  · cases op <;> first | trivial | exact hwrites h

/-- The operations that have something to do with a mutex. -/
def Op.isSynchronized : Op → Bool
  | .lockAttach | .unlockAttach | .lockLoad | .unlockLoad => true
  | .readCommitState | .updateCommitState _ => true
  | .getTableEntry _ | .setTableEntry _ _ | .scanPlanGate _ => true
  | .emplaceTable _ | .findTable _ => true
  | _ => false

/-- An operation that no synchronization object is involved in takes no mutex, whichever object's
code performs it. -/
theorem Place.lockUse_of_not_isSynchronized (place : Place) {op : Op}
    (h : op.isSynchronized = false) :
    place.lockUse op = .none := by
  cases op <;> first | (cases place <;> rfl) | cases h

/-! ## Functions that take no mutex -/

/-- An operation within the scope that has nothing to do with a mutex. -/
def Op.Free (s : Scope) (op : Op) : Prop := op.Within s ∧ op.isSynchronized = false

section

variable {s : Scope}

/-- An URL of the catalog API lies in scope by its first part, the endpoint of the credentials; what
follows it, and whatever a name in it is, does not matter. -/
theorem covers_api (path : String) {url : String}
    (h : url.toList = s.credentials.endpoint.toList ++ "/api/2.1/unity-catalog/".toList ++
      path.toList) :
    s.Covers url :=
  .inl ⟨path, String.toList_inj.1 (by simp [h])⟩

/-- An URL of the Iceberg REST API lies in scope by its first part, the IRC endpoint that the same
credentials give. -/
theorem covers_irc (path : String) {url : String}
    (h : url.toList = s.credentials.ircEndpoint.toList ++ "/v1/".toList ++ path.toList) :
    s.Covers url :=
  .inr ⟨path, String.toList_inj.1 (by simp [h])⟩

/-- Every URL below a schema lies in scope, with anything behind it. -/
theorem covers_schemaUrl (catalog_name schema_name rest : String) :
    s.Covers (schemaUrl s.credentials catalog_name schema_name ++ rest) :=
  covers_api ("delta/v1/catalogs/" ++ catalog_name ++ "/schemas/" ++ schema_name ++ rest)
    (by simp [schemaUrl])

/-- Every URL below a table lies in scope: it is one below its schema. -/
theorem covers_tableUrl (catalog_name schema_name table_name rest : String) :
    s.Covers (tableUrl s.credentials catalog_name schema_name table_name ++ rest) := by
  have h := covers_schemaUrl (s := s) catalog_name schema_name ("/tables/" ++ table_name ++ rest)
  simpa [tableUrl, String.append_assoc] using h

/-- A request within the scope. -/
theorem free_makeRequestResp {url : String} {body : RequestBody} (hurl : s.Covers url)
    (hreads : s.read_only = true → s.Reads (s.request url body)) (tolerated : ℕ) :
    (makeRequestResp url s.credentials.token body tolerated).Uses (Op.Free s) := by
  refine (Prog.uses_perform ⟨trivial, rfl⟩).bind fun _ => Prog.Uses.bind ?_ fun _ => ?_
  · exact Prog.uses_perform (show Op.Free s (.issue _) from ⟨⟨hurl, rfl, hreads⟩, rfl⟩)
  · refine (Prog.uses_perform ⟨trivial, rfl⟩).bind fun resp => ?_
    split <;> trivial

/-- A request, and what is made of its body. -/
theorem free_decoded {α : Type} {url : String} {body : RequestBody} (hurl : s.Covers url)
    (hreads : s.read_only = true → s.Reads (s.request url body)) (f : String → Except Exception α) :
    ((makeRequest url s.credentials.token body).bind fun b =>
      Prog.ofExcept (f b)).Uses (Op.Free s) :=
  Prog.Uses.bind ((free_makeRequestResp hurl hreads _).bind fun _ => trivial) fun _ =>
    Prog.uses_ofExcept _

/-- `LoadTable` sends one request, below the table, and it is a GET. -/
theorem free_loadTable (catalog_name schema_name table_name : String) :
    (UCAPI.loadTable catalog_name schema_name table_name s.credentials).Uses (Op.Free s) := by
  have hurl := covers_tableUrl (s := s) catalog_name schema_name table_name ""
  rw [String.append_empty] at hurl
  exact free_decoded hurl (fun _ => .load ..) _

/-- `TableExists` asks about the table with one request below it, and throws for any other answer
than the two it knows. -/
theorem free_tableExists (catalog_name schema_name table_name : String) :
    (UCAPI.tableExists catalog_name schema_name table_name s.credentials).Uses (Op.Free s) := by
  refine Prog.Uses.bind (free_makeRequestResp ?_ (fun _ => .lookUp ..) _) fun _ => trivial
  exact covers_api ("tables/" ++ qualified catalog_name schema_name table_name)
    (by simp [lookupUrl])

/-- Listing a schema's tables sends requests below the schema only, however many pages there are. -/
theorem free_getTables (catalog_name schema_name : String) :
    (UCAPI.getTables catalog_name schema_name s.credentials).Uses (Op.Free s) := by
  refine free_decoded ?_ (fun _ => .listTables ..) _
  exact covers_api ("tables?catalog_name=" ++ catalog_name ++ "&schema_name=" ++ schema_name)
    (by simp [tablesUrl])

/-- Listing the schemas sends requests below the catalog only, however many pages there are. -/
theorem free_getSchemas (catalog_name : String) :
    (UCAPI.getSchemas catalog_name s.credentials).Uses (Op.Free s) := by
  refine Prog.Uses.bind ((free_makeRequestResp ?_ (fun _ => .listSchemas ..) _).bind fun _ =>
    trivial)
    fun _ => trivial
  exact covers_api ("schemas?catalog_name=" ++ catalog_name) (by simp [schemasUrl])

/-- Where nothing may be changed, the credentials are to be for reading. -/
theorem free_getTableCredentials {write : Bool} (hwrite : s.read_only = true → write = false)
    (catalog_name schema_name table_name table_id : String) (catalog_managed : Bool) :
    (UCAPI.getTableCredentials catalog_name schema_name table_name table_id catalog_managed write
      s.credentials).Uses (Op.Free s) := by
  have hreads {url : String} {body : RequestBody}
      (hrequest : (url, body) = tableCredentialsRequest catalog_name schema_name table_name table_id
        (if write then "READ_WRITE" else "READ") catalog_managed s.credentials) :
      s.read_only = true → s.Reads (s.request url body) := by
    intro hs
    rw [hwrite hs] at hrequest
    exact .readCredentials _ _ _ _ _ hrequest
  rw [UCAPI.getTableCredentials]
  rw [tableCredentialsRequest] at hreads ⊢
  cases catalog_managed with
  | true =>
    refine free_decoded ?_ (hreads rfl) _
    have h := covers_tableUrl (s := s) catalog_name schema_name table_name
      ("/credentials?operation=" ++ if write then "READ_WRITE" else "READ")
    simpa [String.append_assoc] using h
  | false =>
    refine free_decoded ?_ (hreads rfl) _
    exact covers_api ("temporary-table-credentials") (by simp)

/-! ### Credentials and planning -/

/-- A table within the scope. -/
structure TableInformation.Within (s : Scope) (t : TableInformation) : Prop where
  credentials : t.credentials = s.credentials
  read_only : s.read_only = true → t.read_only = true

/-- A table's keys are asked for below the table, for reading; the secret that is made of the answer
is no request. -/
theorem free_refreshCredentials {t : TableInformation} (ht : t.Within s) :
    t.refreshCredentials.Uses (Op.Free s) := by
  rw [TableInformation.refreshCredentials]
  split
  · trivial
  · rw [ht.credentials]
    refine (free_getTableCredentials (fun hs => ?_) ..).bind fun _ =>
      Prog.uses_perform ⟨trivial, rfl⟩
    rw [ht.read_only hs]
    rfl

variable {t : ScanTarget}

/-- A target within the scope has its planning URLs in scope, as its endpoint is the credentials'
own. -/
theorem ScanTarget.Within.covers (ht : t.Within s) (rest : String) :
    s.Covers (t.scan_plan_endpoint ++ "/v1/catalogs/" ++ t.catalog_name ++ "/namespaces/" ++
      t.schema_name ++ "/tables/" ++ t.table_name ++ rest) := by
  refine covers_irc ("catalogs/" ++ t.catalog_name ++ "/namespaces/" ++ t.schema_name ++
    "/tables/" ++ t.table_name ++ rest) ?_
  simp [ht.endpoint]

/-- The URL of one plan lies in scope, whatever the plan's id, which is the server's text. -/
theorem ScanTarget.Within.planIdUrl (ht : t.Within s) (plan_id : String) :
    s.Covers (t.planIdUrl plan_id) := by
  have h := ht.covers ("/plan" ++ ("/" ++ plan_id))
  simpa only [ScanTarget.planIdUrl, ScanTarget.planUrl, String.append_assoc] using h

/-- A plan is cancelled with a DELETE at its own URL, which takes nothing back but the plan. -/
theorem free_cancelPlan (ht : t.Within s) (plan_id : String) :
    (cancelPlan t plan_id).Uses (Op.Free s) := by
  rw [cancelPlan]
  split
  · refine Prog.Uses.tryCatch (Prog.Uses.bind ?_ fun _ => ?_) fun _ => trivial
    · exact Prog.uses_perform (show Op.Free s (.issue _) from
        ⟨⟨ht.planIdUrl plan_id,
          by rw [ht.credentials], fun _ => ht.credentials ▸ .cancelPlan plan_id ht⟩, rfl⟩)
    · exact (Prog.uses_perform ⟨trivial, rfl⟩).bind fun _ => trivial
  · trivial

/-- Giving a plan up is its cancelling, and then the error that led to it. -/
theorem free_abandon {α : Type} (ht : t.Within s) (plan_id : String) (e : Exception) :
    (abandon t plan_id e : Run α).Uses (Op.Free s) :=
  (free_cancelPlan ht plan_id).bind fun _ => trivial

/-- The wait between two polls sleeps and looks for an interrupt, and sends nothing. -/
theorem free_sleepInChunks (sleep_ms slept : ℤ) :
    (sleepInChunks sleep_ms slept).Uses (Op.Free s) := by
  fun_induction sleepInChunks sleep_ms slept with
  | case1 slept _ ih =>
    exact (Prog.uses_perform ⟨trivial, rfl⟩).bind fun _ =>
      (Prog.uses_perform ⟨trivial, rfl⟩).bind fun _ => ih
  | case2 => trivial

/-- One poll is one GET at the plan's URL. -/
theorem free_fetchPlanningResult (ht : t.Within s) (plan_id : String) :
    (fetchPlanningResult t plan_id).Uses (Op.Free s) := by
  rw [fetchPlanningResult, ht.credentials]
  refine (free_makeRequestResp (ht.planIdUrl plan_id) (fun _ => .pollPlan plan_id ht) _).bind
    fun resp => ?_
  exact (Prog.uses_ofExcept _).bind fun _ => trivial

/-- The poll loop sends polls and at its end perhaps a cancelling. The induction is on the loop's
own recursion, for any state it is in. -/
theorem free_pollLoop (ht : t.Within s) (result : UCScanPlanResult)
    (retry_after_ms backoff_ms elapsed_ms : ℤ) :
    (pollLoop t result retry_after_ms backoff_ms elapsed_ms).Uses (Op.Free s) := by
  fun_induction pollLoop t result retry_after_ms backoff_ms elapsed_ms with
  | case1 => exact free_abandon ht ..
  | case2 _ _ _ _ _ _ _ ih =>
    refine Prog.Uses.bind (Prog.Uses.tryCatch ?_ fun e => free_abandon ht ..) fun next => ih ..
    exact (free_sleepInChunks ..).bind fun _ => free_fetchPlanningResult ht _
  | case3 => trivial

/-- A scan is planned with one POST, its polls and perhaps a cancelling, all at URLs of the table's
target. -/
theorem free_planTableScan (ht : t.Within s) (filter_json : String) :
    (UCAPI.planTableScan t filter_json).Uses (Op.Free s) := by
  have hurl := ht.covers "/plan"
  rw [UCAPI.planTableScan, ht.credentials]
  refine (free_makeRequestResp hurl (fun _ => .plan filter_json ht) _).bind fun resp => ?_
  exact (Prog.uses_ofExcept _).bind fun result => free_pollLoop ht ..

/-- A plan task is fetched with one POST at the target; the token goes into the body and not into
the URL. -/
theorem free_fetchScanTasks (ht : t.Within s) (plan_task : String) :
    (UCAPI.fetchScanTasks t plan_task).Uses (Op.Free s) := by
  rw [UCAPI.fetchScanTasks, ht.credentials]
  exact free_decoded (ht.covers "/tasks") (fun _ => .fetchTasks plan_task ht) _

/-- Expanding the file list fetches one plan task after the other, all of them at the list's own
target. -/
theorem free_expandNextPath (ht : t.Within s) (tokens : ℕ) (l : UCMultiFileList)
    (hl : l.target = t) :
    (l.expandNextPath tokens).Uses (Op.Free s) := by
  induction tokens generalizing l with
  | zero => trivial
  | succ tokens ih =>
    rw [UCMultiFileList.expandNextPath_succ]
    split
    · trivial
    · have hfetch := free_fetchScanTasks (s := s) (hl ▸ ht)
      refine Prog.Uses.bind (Prog.Uses.tryCatch ((hfetch _).bind fun _ => trivial) fun _ =>
        trivial) ?_
      intro result
      split
      · trivial
      · split
        · exact ih _ hl
        · dsimp only
          split <;> trivial

/-! ### Creating -/

/-- A table is created with one POST below its schema, which is let through as the catalog is not
attached read-only. -/
theorem free_createTable (hwrites : s.read_only = false) (catalog_name schema_name : String)
    (table : UCAPICommittedTable) (table_type : String) :
    (UCAPI.createTable catalog_name schema_name table table_type s.credentials).Uses
      (Op.Free s) := by
  refine (Prog.uses_ofExcept _).bind fun _ => Prog.Uses.bind ?_ fun _ => Prog.uses_ofExcept _
  refine free_makeRequestResp (covers_schemaUrl catalog_name schema_name "/tables") ?_ _
  simp [hwrites]

/-- Version 0 is written by attaching a database at the location: files and no request. -/
theorem free_writeVersionZero (hwrites : s.read_only = false) (attach_info : AttachInfo)
    (table_name location : String) :
    (writeVersionZero attach_info table_name location).Uses (Op.Free s) := by
  refine (uses_writeVersionZero attach_info table_name location).mono fun op hop => ?_
  cases op <;> first | exact ⟨trivial, rfl⟩ | exact ⟨hwrites, rfl⟩ | exact hop.elim

/-- Files are removed one by one, and the first that cannot be removed ends it. -/
theorem free_removeFiles (hwrites : s.read_only = false) (files : List String) :
    (removeFiles files).Uses (Op.Free s) := by
  refine (uses_removeFiles files).mono fun op hop => ?_
  cases op <;> first | exact ⟨trivial, rfl⟩ | exact ⟨hwrites, rfl⟩ | exact hop.elim

/-- A schema's tables within the scope. -/
structure UCTableSet.Within (s : Scope) (t : UCTableSet) : Prop where
  credentials : t.credentials = s.credentials
  read_only : s.read_only = true → t.read_only = true

variable {set : UCTableSet}

/-- Where a create is let through, the scope lets it change things. -/
theorem UCTableSet.Within.writes (hset : set.Within s) (h : ¬ set.read_only = true) :
    s.read_only = false :=
  Bool.eq_false_iff.2 fun hs => h (hset.read_only hs)

/-- Registering posts the table, and after a failure loads the name to see whose it is: both
requests are below the schema. -/
theorem free_registerTable (hset : set.Within s) (hwrites : s.read_only = false)
    (committed : UCAPICommittedTable) (table_type : String) (is_ours : UCAPICommitsResult → Bool) :
    (registerTable set committed table_type is_ours).Uses (Op.Free s) := by
  rw [registerTable, hset.credentials]
  refine (free_createTable hwrites ..).tryCatch fun e => ?_
  split
  · trivial
  · refine Prog.Uses.bind (Prog.Uses.tryCatch ?_ fun _ => trivial) fun registered => ?_
    · exact (free_loadTable ..).bind fun _ => trivial
    · cases registered <;> trivial

/-- The clean-up asks whether the name is registered, and then lists and removes files. -/
theorem free_removeUnregisteredVersionZero (hset : set.Within s) (hwrites : s.read_only = false)
    (table_name location : String) :
    (removeUnregisteredVersionZero set table_name location).Uses (Op.Free s) := by
  refine Prog.Uses.tryCatch (Prog.Uses.bind ?_ fun listed => ?_) fun _ => trivial
  · rw [listedAtLocation, hset.credentials]
    refine (free_tableExists ..).bind fun found => ?_
    split
    · exact (free_loadTable ..).bind fun _ => trivial
    · trivial
  · split
    · trivial
    · exact (Prog.uses_perform ⟨trivial, rfl⟩).bind fun _ => free_removeFiles hwrites _

/-- An external create performs nothing that is not allowed in itself; its requests are those of the
lookup, the registering and the clean-up. -/
theorem free_createExternal (hset : set.Within s) (info : CreateTableInfo) :
    (set.createExternal info).Uses (Op.Free s) := by
  rw [UCTableSet.createExternal]
  split
  · trivial
  · rename_i hrw
    have hwrites := hset.writes hrw
    refine (Prog.uses_ofExcept _).bind fun location => Prog.Uses.bind ?_ fun found => ?_
    · rw [hset.credentials]
      exact free_tableExists ..
    · split
      · split <;> trivial
      · refine Prog.Uses.bind (Prog.uses_perform ⟨trivial, rfl⟩) fun uuid => ?_
        refine (free_writeVersionZero hwrites ..).bind fun committed => ?_
        refine Prog.Uses.tryCatch ((free_registerTable hset hwrites ..).bind fun _ =>
          trivial) fun e => ?_
        refine (free_removeUnregisteredVersionZero hset hwrites ..).bind fun _ => ?_
        split <;> trivial

/-- The keys of a staging table come with the answer to its POST: what is done with them is a
secret, and no request. -/
theorem free_stageCredentials (hset : set.Within s) (hwrites : s.read_only = false)
    (staging : UCAPIStagingTable) :
    (stageCredentials set staging).Uses (Op.Free s) := by
  rw [stageCredentials]
  split
  · trivial
  · rw [hset.credentials]
    refine Prog.Uses.bind ?_ fun credentials => Prog.uses_perform ⟨trivial, rfl⟩
    refine free_decoded ?_ (by simp [hwrites]) _
    exact covers_api ("delta/v1/staging-tables/" ++ staging.table_id ++ "/credentials") (by simp)

variable {creating : CreatingCatalog}

/-- A managed create stages the table, writes version 0 and registers it, with a clean-up after a
failure. -/
theorem free_createManaged (hset : creating.toUCTableSet.Within s) (hwrites : s.read_only = false)
    (info : BoundCreateTableInfo) : (creating.createManaged info).Uses (Op.Free s) := by
  have hstage : (creating.stage info).Uses (Op.Free s) := by
    refine Prog.Uses.tryCatch (Prog.Uses.bind ?_ fun _ => trivial) fun e => ?_
    · rw [UCAPI.createStagingTable, hset.credentials]
      refine Prog.Uses.bind ?_ fun _ => Prog.uses_ofExcept _
      refine free_makeRequestResp (covers_schemaUrl _ _ "/staging-tables") ?_ _
      simp [hwrites]
    · split <;> trivial
  refine hstage.bind fun staging => ?_
  cases staging with
  | none => trivial
  | some staging =>
    refine (free_stageCredentials hset hwrites staging).bind fun _ => ?_
    refine Prog.Uses.bind (Prog.uses_perform ⟨trivial, rfl⟩) fun _ => ?_
    refine (free_writeVersionZero hwrites ..).bind fun committed => ?_
    refine Prog.Uses.tryCatch ((free_registerTable hset hwrites ..).bind fun _ => trivial) fun e =>
      ?_
    split <;> trivial

/-- A create that is refused in a read-only catalog changes nothing there. -/
theorem free_createTableUnmarked (hset : creating.toUCTableSet.Within s)
    (info : BoundCreateTableInfo) :
    (creating.createTableUnmarked info).Uses (Op.Free s) := by
  rw [CreatingCatalog.createTableUnmarked]
  split
  · exact free_createExternal hset _
  · split
    · trivial
    · rename_i hrw
      exact free_createManaged hset (hset.writes hrw) info

end

/-! ## Functions that take mutexes -/

/-- A function of the extension that keeps to the scope, and takes only mutexes below level `n`. -/
abbrev Run.Orderly {α : Type} (s : Scope) (place : Place) (n : ℕ) (p : Run α) : Prop :=
  Prog.Orderly (Op.Within s) place.lockUse CatalogLock.level n p

section

variable {s : Scope} {place : Place} {n : ℕ} {α : Type}

/-- What asks only for allowed operations, and for no synchronization object, keeps the locks' order
wherever it stands: it takes none. -/
theorem orderly_of_free {p : Run α} (hp : p.Uses (Op.Free s)) : Run.Orderly s place n p :=
  Prog.orderly_of_uses (hp.mono fun _ h => ⟨h.1, place.lockUse_of_not_isSynchronized h.2⟩)

/-- One operation that has nothing to do with a mutex. -/
theorem orderly_op {op : Op} (h : op.Within s) (hop : op.isSynchronized = false) :
    Run.Orderly s place n (Prog.perform (F := Client) op) :=
  Prog.orderly_perform h (place.lockUse_of_not_isSynchronized hop)

end

/-! ### Loading a schema's tables -/

section

variable {s : Scope} {schema n : ℕ} {set : UCTableSet}

/-- Taking a listing's tables in creates an entry each, which takes the locks of the set below the
one that is held. -/
theorem orderly_loadTables (tables : List UCAPITable) :
    Run.Orderly s (.set schema) 3 (loadTables tables) := by
  induction tables with
  | nil => exact Prog.orderly_ret _
  | cons table tables ih =>
    refine Prog.Orderly.bind (orderly_op trivial rfl) fun _ => ?_
    split
    · exact Prog.orderly_throw _
    · refine Prog.Orderly.bind ?_ fun _ => ih
      exact Prog.orderly_visit (l := .entries schema) trivial rfl (by simp [CatalogLock.level])

/-- The set's own lock is held over the listing's requests and over what they fill in. -/
theorem orderly_ensureLoaded (hset : set.Within s) :
    Run.Orderly s (.set schema) 4 set.ensureLoaded := by
  refine Prog.orderly_bracket (l := .load schema) ⟨trivial,
    trivial⟩ rfl rfl (by simp [CatalogLock.level]) fun _ => ?_
  refine Prog.Orderly.bind (orderly_op trivial rfl) fun loaded => ?_
  split
  · exact Prog.orderly_ret _
  · refine Prog.Orderly.bind ?_ fun _ => orderly_op trivial rfl
    rw [UCTableSet.loadEntries, hset.credentials]
    exact (orderly_of_free (free_getTables ..)).bind fun tables => orderly_loadTables tables

/-- The mark is set under the set's own lock, and nothing else is held with it. -/
theorem orderly_markNeedsReload : Run.Orderly s (.set schema) 4 markNeedsReload :=
  Prog.orderly_bracket (l := .load schema) ⟨trivial, trivial⟩ rfl rfl (by simp [CatalogLock.level])
    fun _ =>
    orderly_op trivial rfl

/-- A `CREATE TABLE` ends with its entry in the set, and only there does it come to the set's
locks. -/
theorem orderly_schemaCreateTable {creating : CreatingCatalog}
    (hset : creating.toUCTableSet.Within s) (info : BoundCreateTableInfo) :
    Run.Orderly s (.set schema) 4 (creating.schemaCreateTable info) := by
  rw [CreatingCatalog.schemaCreateTable]
  split
  · exact Prog.orderly_throw _
  · refine (orderly_of_free (free_createTableUnmarked hset info)).bind fun registered => ?_
    split
    · exact orderly_markNeedsReload
    · exact Prog.orderly_ret _

end

/-! ### A table -/

section

variable {s : Scope} {schema txn n : ℕ} {table_name : String} {t : TableInformation}

/-- Under the `attach_lock` a program may take what lies below it, and its guard gives the lock back
however the program ends. -/
theorem orderly_withAttachLock {α : Type} {p : Run α} (hn : 2 ≤ n)
    (hp : Run.Orderly s (.table schema table_name txn) 1 p) :
    Run.Orderly s (.table schema table_name txn) n (withAttachLock p) :=
  (Prog.orderly_bracket (l := CatalogLock.attach schema table_name) ⟨trivial, trivial⟩ rfl rfl
    (show (1 : ℕ) < 2 by decide) fun _ => hp).mono hn

/-- The commit state is read under its own lock, the lowest of a table's. -/
theorem orderly_readCommitState : Run.Orderly s (.table schema table_name txn) 1 readCommitState :=
  Prog.orderly_visit (l := .commitState schema table_name) trivial rfl (by simp [CatalogLock.level])

/-- It is changed under that lock too, and none is taken meanwhile. -/
theorem orderly_updateCommitState (f : UCCommitState → UCCommitState) :
    Run.Orderly s (.table schema table_name txn) 1 (updateCommitState f) :=
  Prog.orderly_visit (l := .commitState schema table_name) trivial rfl (by simp [CatalogLock.level])

/-- The latch of the planning endpoint has a lock of its own, the lowest as well. -/
theorem orderly_scanPlanGate (f : ScanPlanGate → ℤ → Bool × ScanPlanGate) :
    Run.Orderly s (.table schema table_name txn) 1 (scanPlanGate f) :=
  Prog.orderly_visit (l := .scanPlan) trivial rfl (by simp [CatalogLock.level])

/-- A detach takes no lock: it is called by those that hold the `attach_lock`, and goes to the
database manager. -/
theorem orderly_internalDetach :
    Run.Orderly s (.table schema table_name txn) n t.internalDetach := by
  refine Prog.Orderly.bind (orderly_op trivial rfl) fun db => ?_
  split
  · exact Prog.Orderly.bind (orderly_op trivial rfl) fun _ => orderly_op trivial rfl
  · exact Prog.orderly_ret _

/-- A backfill writes files, so a read-only catalog leaves it out. -/
theorem free_newWatermark (ht : t.Within s) (commits : List UCAPICommit) (start_wm : Option ℕ) :
    (t.newWatermark commits start_wm).Uses (Op.Free s) := by
  rw [TableInformation.newWatermark]
  split
  · trivial
  · rename_i hrw
    have hwrites : s.read_only = false := Bool.eq_false_iff.2 fun hs => hrw (ht.read_only hs)
    refine (t.uses_backfillLoop _ _).mono fun op hop => ?_
    cases op <;> first | exact ⟨trivial, rfl⟩ | exact ⟨hwrites, rfl⟩ | exact hop.elim

/-- Attaching under the `attach_lock` comes to the commit state's lock, by a store of what was
loaded, and to no other. -/
theorem orderly_attachFresh (ht : t.Within s) :
    Run.Orderly s (.table schema table_name txn) 1 t.attachFresh := by
  refine Prog.Orderly.bind ?_ fun managed => ?_
  · rw [TableInformation.loadManaged]
    split
    · refine Prog.Orderly.bind (Prog.Orderly.bind ?_ fun commits => ?_) fun _ => Prog.orderly_ret _
      · rw [TableInformation.loadTable, ht.credentials]
        exact orderly_of_free (free_loadTable ..)
      · refine orderly_readCommitState.bind fun state => ?_
        refine (orderly_of_free (free_newWatermark ht ..)).bind fun new_wm => ?_
        exact (orderly_updateCommitState _).bind fun _ => Prog.orderly_ret _
    · exact Prog.orderly_ret _
  · exact Prog.Orderly.bind (orderly_op trivial rfl) fun db => orderly_op trivial rfl

/-- `InternalAttach` takes the `attach_lock` first and the others only under it. -/
theorem orderly_internalAttach (ht : t.Within s) :
    Run.Orderly s (.table schema table_name txn) 2 t.internalAttach := by
  refine orderly_withAttachLock (le_refl 2) (Prog.Orderly.bind ?_ fun read_by_this_transaction =>
    ?_)
  · refine Prog.Orderly.bind (orderly_op trivial rfl) fun db => ?_
    cases db with
    | some db => exact orderly_op trivial rfl
    | none => exact Prog.orderly_ret _
  · have hattach : Run.Orderly s (.table schema table_name txn) 1 (do
        let db ← attached
        if db.isSome then return () else t.attachFresh) := by
      refine Prog.Orderly.bind (orderly_op trivial rfl) fun db => ?_
      split
      · exact Prog.orderly_ret _
      · exact orderly_attachFresh ht
    refine Prog.Orderly.bind (orderly_op trivial rfl) fun is_dirty => ?_
    dsimp only
    split
    · refine orderly_internalDetach.bind fun _ =>
        Prog.Orderly.bind (orderly_op trivial rfl) fun _ => ?_
      exact hattach
    · exact hattach

/-- A commit goes out whatever the catalog is attached as. -/
theorem orderly_commitExecute (ht : t.Within s) (hwrites : s.read_only = false)
    (res : StagedCommit) :
    Run.Orderly s (.table schema table_name txn) 2 (t.commitExecute res) := by
  refine (orderly_readCommitState.mono (by decide)).bind fun cs =>
    Prog.Orderly.bind ?_ fun new_etag => ?_
  · rw [UCAPI.updateTable, ht.credentials]
    have hurl := covers_tableUrl (s := s) t.table_data.catalog_name t.table_data.schema_name
      t.table_data.name ""
    rw [String.append_empty] at hurl
    exact orderly_of_free (free_decoded hurl (by simp [hwrites]) _)
  · have hdirty : Run.Orderly s (.table schema table_name txn) 1 markDirty := orderly_op trivial rfl
    refine (orderly_withAttachLock (le_refl 2) hdirty).bind fun _ => ?_
    exact (orderly_updateCommitState _).mono (by decide)

/-- What ends at the table's Delta catalog. -/
theorem orderly_attached (ht : t.Within s) :
    Run.Orderly s (.table schema table_name txn) 2 (do
      t.refreshCredentials
      t.internalAttach
      TableInformation.getInternalCatalog) := by
  refine (orderly_of_free (free_refreshCredentials ht)).bind fun _ => ?_
  refine (orderly_internalAttach ht).bind fun _ =>
    Prog.Orderly.bind (orderly_op trivial rfl) fun db => ?_
  cases db with
  | some db => exact Prog.orderly_ret _
  | none => exact Prog.orderly_throw _

/-- The Delta table behind an entry is got by an `InternalAttach` and a lookup in what it
attached. -/
theorem orderly_deltaTable (ht : t.Within s) (at_clause : Option BoundAtClause) :
    Run.Orderly s (.table schema table_name txn) 2 (t.deltaTable at_clause) := by
  have h : t.deltaTable at_clause = (do
      t.refreshCredentials
      t.internalAttach
      TableInformation.getInternalCatalog : Run AttachedDatabase).bind fun delta_catalog =>
        lookupEntry delta_catalog at_clause := by
    simp only [TableInformation.deltaTable, Prog.bind_eq, Prog.bind_assoc]
  rw [h]
  exact (orderly_attached ht).bind fun _ => orderly_op trivial rfl

/-- The question whether to plan takes the latch's lock for a moment. -/
theorem orderly_shouldTryScanPlan (credentials : UCCredentials) :
    Run.Orderly s (.table schema table_name txn) 1 (shouldTryScanPlan credentials) := by
  rw [shouldTryScanPlan]
  split
  · exact orderly_scanPlanGate _
  · exact Prog.orderly_ret _

/-- The version of a table is that of its Delta table, unless it is planned for; both ask the latch
first. -/
theorem orderly_getVersion (ht : t.Within s) (at_clause : Option BoundAtClause) :
    Run.Orderly s (.table schema table_name txn) 2 (t.getVersion at_clause) := by
  rw [TableInformation.getVersion_eq]
  refine (Prog.orderly_ofExcept _).bind fun _ => Prog.Orderly.bind ?_ fun report => ?_
  · rw [TableInformation.readsReport]
    split
    · exact Prog.orderly_ret _
    · split
      · refine ((orderly_shouldTryScanPlan _).mono (by decide)).bind fun _ => Prog.orderly_ret _
      · exact Prog.orderly_ret _
  · split
    · exact Prog.orderly_ofExcept _
    · refine (Prog.orderly_ofExcept _).bind fun key => Prog.Orderly.bind ?_ fun bound => ?_
      · exact Prog.orderly_visit (l := .tableEntries txn) trivial rfl (by simp [CatalogLock.level])
      · cases bound with
        | some bound => exact Prog.orderly_ret _
        | none =>
          refine Prog.Orderly.bind ?_ fun entry => ?_
          · exact (orderly_deltaTable ht at_clause).bind fun _ => Prog.orderly_ret _
          · cases entry with
            | some entry =>
              exact Prog.orderly_visit (l := .tableEntries txn) trivial rfl
                (by simp [CatalogLock.level])
            | none =>
              dsimp only
              split
              · exact Prog.orderly_ofExcept _
              · exact Prog.orderly_throw _

/-! ### Scans -/

/-- A Delta scan is bound in the attached catalog, which takes the locks of an `InternalAttach`. -/
theorem orderly_buildDeltaScan (ht : t.Within s) (lookup_info : Option BoundAtClause) :
    Run.Orderly s (.table schema table_name txn) 2 (t.buildDeltaScan lookup_info) := by
  refine (orderly_deltaTable ht lookup_info).bind fun delta_table => ?_
  cases delta_table with
  | some delta_table => exact Prog.orderly_ret _
  | none => exact Prog.orderly_throw _

/-- Binding a scan asks the latch, then either makes the planned scan's data, which takes nothing,
or binds a Delta scan. -/
theorem orderly_getScanFunction (ht : t.Within s) (lookup_info : Option BoundAtClause) :
    Run.Orderly s (.table schema table_name txn) 2 (t.getScanFunction lookup_info) := by
  refine Prog.Orderly.bind ?_ fun planned => ?_
  · rw [TableInformation.plansScan]
    split
    · exact ((orderly_shouldTryScanPlan _).mono (by decide)).bind fun _ => Prog.orderly_ret _
    · exact Prog.orderly_ret _
  · split
    · exact (orderly_of_free (free_refreshCredentials ht)).bind fun _ => Prog.orderly_ret _
    · split
      · exact Prog.orderly_throw _
      · exact (orderly_buildDeltaScan ht lookup_info).bind fun _ => Prog.orderly_ret _

/-- The plan's secrets are made one after the other, without a lock of the catalog's. -/
theorem orderly_registerSecrets (bd : UCScanPlanBindData)
    (credentials : List (String × List (String × String))) (i : ℕ) :
    Run.Orderly s (.table schema table_name txn) n (bd.registerSecrets i credentials) := by
  induction credentials generalizing i with
  | nil => exact Prog.orderly_ret _
  | cons credential credentials ih => exact Prog.Orderly.bind (orderly_op trivial rfl) fun _ => ih _

/-- Handing over to a Delta scan that was bound runs that scan's own start. -/
theorem orderly_adoptInnerScan (inner : InnerScan) (input : TableFunctionInitInput) :
    Run.Orderly s (.table schema table_name txn) n (adoptInnerScan inner input) :=
  Prog.Orderly.bind (orderly_op trivial rfl) fun _ => Prog.orderly_ret _

/-- What a plan's outcome is recorded with. -/
theorem orderly_mark (f : ScanPlanGate → ℤ → Bool × ScanPlanGate) :
    Run.Orderly s (.table schema table_name txn) 2 (do
      let _ ← scanPlanGate f
      return ()) :=
  ((orderly_scanPlanGate f).mono (by decide)).bind fun _ => Prog.orderly_ret _

/-- A scan that starts asks for its plan without a lock; what it does with the answer marks the
latch or binds a Delta scan, either of which is orderly. -/
theorem orderly_ucScanPlanInitGlobal {bd : UCScanPlanBindData} (htarget : bd.target.Within s)
    (htable : ∀ table, bd.table = some table → table.Within s) (input : TableFunctionInitInput) :
    Run.Orderly s (.table schema table_name txn) 2 (ucScanPlanInitGlobal bd input) := by
  rw [ucScanPlanInitGlobal_eq]
  refine Prog.Orderly.bind ?_ fun plan => ?_
  · refine Prog.Orderly.tryCatch (Prog.Orderly.bind (Prog.Orderly.bind ?_ fun plan => ?_) fun _ =>
      ?_)
      fun _ => Prog.orderly_ret _
    · exact orderly_of_free (free_planTableScan htarget _)
    · split
      · exact Prog.orderly_ret _
      · exact Prog.orderly_throw _
    · exact Prog.orderly_ret _
  · cases plan with
    | error e =>
      dsimp only
      split
      · exact Prog.orderly_throw _
      · have hfallback : Run.Orderly s (.table schema table_name txn) 2 (bd.fallback e input) := by
          rw [UCScanPlanBindData.fallback]
          split
          · rename_i table lookup_info htable' _
            split
            · exact (orderly_buildDeltaScan (htable _ htable') _).bind fun _ =>
                orderly_adoptInnerScan ..
            · exact Prog.orderly_throw _
          · exact Prog.orderly_throw _
        split
        · exact (orderly_mark _).bind fun _ => hfallback
        · exact hfallback
    | ok plan =>
      have hplanned : Run.Orderly s (.table schema table_name txn) 2 (bd.planned plan input) := by
        refine (orderly_registerSecrets ..).bind fun _ =>
          (Prog.orderly_ofExcept _).bind fun files => ?_
        exact Prog.Orderly.bind (orderly_op trivial rfl) fun _ => orderly_adoptInnerScan ..
      dsimp only
      split
      · exact (orderly_mark _).bind fun _ => hplanned
      · exact hplanned

end

end UnityCatalog
