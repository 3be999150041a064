import UnityCatalog.FileList
import UnityCatalog.Listings
import UnityCatalog.Url

/-!
# What the URLs address

The URLs of the requests are put together from literal parts, names and ids, and nothing is escaped
in any of them. `urls_address_iff` says for which names and ids each of them, taken apart by the
generic rules, addresses what it is meant to. The endpoints are configured: they have no query and
no fragment.
-/

namespace UnityCatalog

open Effectful Url

/-! ## What is asked for -/

/-- What requests ask for, of a table and the catalog and schema it is in. -/
inductive Resource where
  /-- the tables of the schema -/
  | tables
  /-- the table, by its qualified name -/
  | table
  /-- the table, as Delta v1 has it -/
  | deltaTable
  /-- credentials, to write as well or to read only -/
  | credentials (write : Bool)
  /-- credentials by the table's id, which the body names -/
  | temporaryCredentials
  /-- where plans are submitted -/
  | plan
  /-- one plan -/
  | planId (plan_id : String)
  /-- where tokens are exchanged -/
  | tasks

namespace Resource

/-- The URL the code asks at. -/
def url (t : ScanTarget) : Resource → String
  | tables => tablesUrl t.credentials t.catalog_name t.schema_name
  | table => lookupUrl t.credentials t.catalog_name t.schema_name t.table_name
  | deltaTable => tableUrl t.credentials t.catalog_name t.schema_name t.table_name
  | credentials write => (tableCredentialsRequest t.catalog_name t.schema_name t.table_name ""
      (if write then "READ_WRITE" else "READ") true t.credentials).1
  | temporaryCredentials => (tableCredentialsRequest "" "" "" "" "" false t.credentials).1
  | plan => t.planUrl
  | planId plan_id => t.planIdUrl plan_id
  | tasks => t.tasksUrl

/-- The endpoint it is below. -/
def base (t : ScanTarget) : Resource → String
  | plan | planId _ | tasks => t.scan_plan_endpoint
  | _ => t.credentials.endpoint

/-- The segments below the endpoint. -/
def segments (t : ScanTarget) : Resource → List String
  | tables => ["api", "2.1", "unity-catalog", "tables"]
  | table =>
    ["api", "2.1", "unity-catalog", "tables", qualified t.catalog_name t.schema_name t.table_name]
  | deltaTable => ["api", "2.1", "unity-catalog", "delta", "v1", "catalogs", t.catalog_name,
      "schemas", t.schema_name, "tables", t.table_name]
  | credentials _ => ["api", "2.1", "unity-catalog", "delta", "v1", "catalogs", t.catalog_name,
      "schemas", t.schema_name, "tables", t.table_name, "credentials"]
  | temporaryCredentials => ["api", "2.1", "unity-catalog", "temporary-table-credentials"]
  | plan => ["v1", "catalogs", t.catalog_name, "namespaces", t.schema_name, "tables", t.table_name,
    "plan"]
  | planId plan_id => ["v1", "catalogs", t.catalog_name, "namespaces", t.schema_name, "tables",
      t.table_name, "plan", plan_id]
  | tasks => ["v1", "catalogs", t.catalog_name, "namespaces", t.schema_name, "tables", t.table_name,
    "tasks"]

/-- The query. -/
def query (t : ScanTarget) : Resource → List (String × String)
  | tables => [("catalog_name", t.catalog_name), ("schema_name", t.schema_name)]
  | credentials write => [("operation", if write then "READ_WRITE" else "READ")]
  | _ => []

/-- Its segments and the values of its query, as the library takes them. -/
def parts (t : ScanTarget) (r : Resource) : List (List Char) × List (List Char × List Char) :=
  ((r.segments t).map String.toList, (r.query t).map fun p => (p.1.toList, p.2.toList))

/-- The URL addresses it: below the endpoint are its segments and its query, and nothing else. -/
def Addressed (t : ScanTarget) (r : Resource) : Prop :=
  address (r.url t).toList = intended (r.base t).toList (r.parts t).1 (r.parts t).2

/-- The endpoint has no query and no fragment, and every segment stands for itself, as does every
value of the query. -/
def Plain (t : ScanTarget) (r : Resource) : Prop :=
  PlainBase (r.base t).toList ∧ (∀ segment ∈ r.segments t, PlainSegment segment.toList) ∧
    ∀ p ∈ r.query t, PlainValue p.2.toList

instance decidablePlain (t : ScanTarget) (r : Resource) : Decidable (r.Plain t) :=
  inferInstanceAs (Decidable (_ ∧ _ ∧ _))

/-- The URL is put together from the parts. -/
theorem url_eq (t : ScanTarget) (r : Resource) :
    (r.url t).toList = render (r.base t).toList (r.parts t).1 (r.parts t).2 := by
  cases r <;> simp [url, base, parts, segments, query, render, segmentsText, queryText, pairsText,
    pairText, tablesUrl, lookupUrl, tableUrl, schemaUrl, tableCredentialsRequest,
    ScanTarget.planUrl,
    ScanTarget.planIdUrl, ScanTarget.tasksUrl, String.toList_append]

theorem plainKey_query (t : ScanTarget) (r : Resource) : ∀ p ∈ (r.parts t).2, PlainKey p.1 := by
  have hkeys : ∀ key ∈ ["catalog_name", "schema_name", "operation"], PlainKey key.toList := by
    intro key hkey
    simp only [List.mem_cons, List.not_mem_nil, or_false] at hkey
    obtain rfl | rfl | rfl := hkey
    · exact ⟨by decide +kernel, by decide⟩
    · exact ⟨by decide +kernel, by decide⟩
    · exact ⟨by decide +kernel, by decide⟩
  intro p hp
  obtain ⟨q, hq, rfl⟩ := List.mem_map.1 hp
  refine hkeys q.1 ?_
  cases r <;> simp [query] at hq
  · obtain rfl | rfl := hq <;> simp
  · rw [hq]
    simp

/-- A URL addresses what it is meant to where its parts stand for themselves. -/
theorem addressed_iff {t : ScanTarget} {r : Resource} : r.Addressed t ↔ r.Plain t := by
  have hsome : (r.parts t).1 ≠ [] := by
    cases r <;> exact List.cons_ne_nil _ _
  rw [Addressed, url_eq, address_render_iff hsome (r.plainKey_query t)]
  simp only [parts, Plain, List.forall_mem_map]

end Resource

/-! ## Who asks -/

/-- The calls that name something in a URL. -/
inductive Call where
  | getTables
  | tableExists
  | loadTable
  | updateTable (commit : AddCommit)
  | getTableCredentials (table_id : String) (catalog_managed write : Bool)
  | planTableScan (filter_json : String)
  | fetchPlanningResult (plan_id : String)
  | cancelPlan (plan_id : String)
  | fetchScanTasks (plan_task : String)

namespace Call

/-- The call, without what it returns. -/
def run (t : ScanTarget) : Call → Run Unit
  | getTables => do
    let _ ← UCAPI.getTables t.catalog_name t.schema_name t.credentials
  | tableExists => do
    let _ ← UCAPI.tableExists t.catalog_name t.schema_name t.table_name t.credentials
  | loadTable => do
    let _ ← UCAPI.loadTable t.catalog_name t.schema_name t.table_name t.credentials
  | updateTable commit => do
    let _ ← UCAPI.updateTable t.catalog_name t.schema_name t.table_name t.credentials commit
  | getTableCredentials table_id catalog_managed write => do
    let _ ← UCAPI.getTableCredentials t.catalog_name t.schema_name t.table_name table_id
      catalog_managed
      write t.credentials
  | planTableScan filter_json => do
    let _ ← UCAPI.planTableScan t filter_json
  | fetchPlanningResult plan_id => do
    let _ ← UnityCatalog.fetchPlanningResult t plan_id
  | cancelPlan plan_id => UnityCatalog.cancelPlan t plan_id
  | fetchScanTasks plan_task => do
    let _ ← UCAPI.fetchScanTasks t plan_task

/-- What it asks for. -/
def Asks : Call → Resource → Prop
  | getTables, r => r = .tables
  | tableExists, r => r = .table
  | loadTable, r => r = .deltaTable
  | updateTable _, r => r = .deltaTable
  | getTableCredentials _ catalog_managed write, r =>
    r = if catalog_managed then .credentials write else .temporaryCredentials
  | planTableScan _, r => r = .plan ∨ ∃ plan_id, r = .planId plan_id
  | fetchPlanningResult plan_id, r => r = .planId plan_id
  | cancelPlan plan_id, r => r = .planId plan_id
  | fetchScanTasks _, r => r = .tasks

end Call

/-- An operation that, if it is a request, is one at such a URL. -/
def Op.At (urls : String → Prop) : Op → Prop
  | .issue req => urls req.url
  | _ => True

section

variable {urls : String → Prop} {t : ScanTarget}

theorem at_makeRequestResp {url : String} (h : urls url) (token : String) (body : RequestBody)
    (tolerated : ℕ) :
    (makeRequestResp url token body tolerated).Uses (Op.At urls) := by
  refine (Prog.uses_perform trivial).bind fun _ => Prog.Uses.bind ?_ fun _ => ?_
  · exact Prog.uses_perform (show Op.At urls (.issue ⟨body.method, url, token, body⟩) from h)
  · refine (Prog.uses_perform trivial).bind fun resp => ?_
    split <;> trivial

theorem at_makeRequest {url : String} (h : urls url) (token : String) (body : RequestBody) :
    (makeRequest url token body).Uses (Op.At urls) :=
  (at_makeRequestResp h token body statusInvalid).bind fun _ => trivial

/-- A request, and what is made of the response. -/
theorem at_decoded {α : Type} {url : String} (h : urls url) (token : String) (body : RequestBody)
    (f : String → Except Exception α) :
    (((makeRequest url token body).bind fun b => Prog.ofExcept (f b)).bind fun _ =>
      (.ret () : Run Unit)).Uses
      (Op.At urls) :=
  ((at_makeRequest h token body).bind fun _ => Prog.uses_ofExcept _).bind fun _ => trivial

theorem at_fetchPlanningResult {plan_id : String} (h : urls (t.planIdUrl plan_id)) :
    (fetchPlanningResult t plan_id).Uses (Op.At urls) := by
  refine (at_makeRequestResp h _ _ _).bind fun resp => ?_
  exact (Prog.uses_ofExcept _).bind fun _ => trivial

theorem at_cancelPlan {plan_id : String} (h : urls (t.planIdUrl plan_id)) :
    (cancelPlan t plan_id).Uses (Op.At urls) := by
  rw [cancelPlan]
  split
  · refine Prog.Uses.tryCatch ?_ fun _ => trivial
    refine Prog.Uses.bind ?_ fun _ => (Prog.uses_perform trivial).bind fun _ => trivial
    exact Prog.uses_perform
      (show Op.At urls (.issue ⟨.delete, t.planIdUrl plan_id, t.credentials.token, .empty⟩) from h)
  · trivial

theorem at_sleepInChunks (sleep_ms slept : ℤ) :
    (sleepInChunks sleep_ms slept).Uses (Op.At urls) := by
  fun_induction sleepInChunks sleep_ms slept with
  | case1 slept _ ih =>
    exact (Prog.uses_perform trivial).bind fun _ => (Prog.uses_perform trivial).bind fun _ => ih
  | case2 => trivial

theorem at_pollLoop (h : ∀ plan_id, urls (t.planIdUrl plan_id)) (result : UCScanPlanResult)
    (retry_after_ms backoff_ms elapsed_ms : ℤ) :
    (pollLoop t result retry_after_ms backoff_ms elapsed_ms).Uses (Op.At urls) := by
  fun_induction pollLoop t result retry_after_ms backoff_ms elapsed_ms with
  | case1 => exact (at_cancelPlan (h _)).bind fun _ => trivial
  | case2 _ _ _ _ _ _ _ ih =>
    refine Prog.Uses.bind (Prog.Uses.tryCatch ?_ fun e => ?_) fun next => ih ..
    · exact (at_sleepInChunks ..).bind fun _ => at_fetchPlanningResult (h _)
    · exact (at_cancelPlan (h _)).bind fun _ => trivial
  | case3 => trivial

theorem at_planTableScan (hplan : urls t.planUrl) (h : ∀ plan_id, urls (t.planIdUrl plan_id))
    (filter_json : String) : (UCAPI.planTableScan t filter_json).Uses (Op.At urls) := by
  refine (at_makeRequestResp hplan _ _ _).bind fun resp => ?_
  exact (Prog.uses_ofExcept _).bind fun result => at_pollLoop h ..

end

/-- Every request of a call is for what the call asks for. -/
theorem Call.at_resources (t : ScanTarget) (call : Call) :
    (call.run t).Uses (Op.At fun url => ∃ r, call.Asks r ∧ url = r.url t) := by
  cases call with
  | getTables => exact at_decoded ⟨.tables, rfl, rfl⟩ _ _ _
  | tableExists =>
    refine Prog.Uses.bind ((at_makeRequestResp ⟨.table, rfl, rfl⟩ _ _ _).bind fun _ => ?_) fun _ =>
      ?_
    · trivial
    · trivial
  | loadTable => exact at_decoded ⟨.deltaTable, rfl, rfl⟩ _ _ _
  | updateTable commit => exact at_decoded ⟨.deltaTable, rfl, rfl⟩ _ _ _
  | getTableCredentials table_id catalog_managed write =>
    cases catalog_managed with
    | true => exact at_decoded ⟨.credentials write, rfl, rfl⟩ _ _ _
    | false => exact at_decoded ⟨.temporaryCredentials, rfl, rfl⟩ _ _ _
  | planTableScan filter_json =>
    refine (at_planTableScan ?_ ?_ filter_json).bind fun _ => trivial
    · exact ⟨.plan, .inl rfl, rfl⟩
    · exact fun plan_id => ⟨.planId plan_id, .inr ⟨plan_id, rfl⟩, rfl⟩
  | fetchPlanningResult plan_id =>
    exact (at_fetchPlanningResult ⟨.planId plan_id, rfl, rfl⟩).bind fun _ => trivial
  | cancelPlan plan_id => exact at_cancelPlan ⟨.planId plan_id, rfl, rfl⟩
  | fetchScanTasks plan_task => exact at_decoded ⟨.tasks, rfl, rfl⟩ _ _ _

/-! ## Names -/

/-- A name that Unity Catalog admits: it has no period, space, slash or control character. -/
def Admitted (name : String) : Prop :=
  name ≠ "" ∧ ∀ c ∈ name.toList, c ≠ '.' ∧ c ≠ ' ' ∧ c ≠ '/' ∧ 0x20 ≤ c.toNat ∧ c.toNat ≠ 0x7F

instance decidableAdmitted (name : String) : Decidable (Admitted name) :=
  @instDecidableAnd _ _ _ (List.decidableBAll (p := fun c : Char => c ≠ '.' ∧ c ≠ ' ' ∧ c ≠ '/' ∧
    0x20 ≤ c.toNat ∧ c.toNat ≠ 0x7F) name.toList)

/-- The qualified name of a table whose names are admitted has its three names between the
periods. -/
theorem splitOn_qualified {catalog_name schema_name table_name : String}
    (hcatalog : Admitted catalog_name)
    (hschema : Admitted schema_name) (htable : Admitted table_name) :
    (qualified catalog_name schema_name table_name).toList.splitOn '.' =
      [catalog_name.toList, schema_name.toList, table_name.toList] := by
  have hnone : ∀ {name : String}, Admitted name → '.' ∉ name.toList :=
    fun h hmem => (h.2 _ hmem).1 rfl
  have htext : (qualified catalog_name schema_name table_name).toList =
      catalog_name.toList ++ '.' :: (schema_name.toList ++ '.' :: table_name.toList) := by
    simp [qualified, String.toList_append]
  rw [htext, List.splitOn_append_cons_self_of_not_mem (hnone hcatalog),
    List.splitOn_append_cons_self_of_not_mem (hnone hschema),
    List.splitOn_eq_singleton (hnone htable)]

/-- **Each URL addresses what is asked for if and only if the names and ids in its path have no
slash, question mark, hash or escape in them, and those in its query no ampersand, plus, hash or
escape.** Every request goes to such a URL. -/
theorem urls_address_iff (t : ScanTarget) :
    (∀ call : Call, (call.run t).Uses (Op.At fun url => ∃ r, call.Asks r ∧ url = r.url t)) ∧
    (∀ r : Resource, r.Addressed t ↔ r.Plain t) ∧
    (Admitted t.catalog_name → Admitted t.schema_name → Admitted t.table_name →
      (qualified t.catalog_name t.schema_name t.table_name).toList.splitOn '.' =
        [t.catalog_name.toList, t.schema_name.toList, t.table_name.toList]) :=
  ⟨fun call => call.at_resources t, fun _ => Resource.addressed_iff, splitOn_qualified⟩

/-! ### Names that are cut -/

/-- A table that is called `q1?`, in a schema that is called `r&d`. -/
def quarter : ScanTarget where
  catalog_name := "main"
  schema_name := "r&d"
  table_name := "q1?"
  credentials := { endpoint := "http://uc", token := "" }
  scan_plan_endpoint := "http://irc"

theorem quarter_admitted :
    Admitted quarter.catalog_name ∧ Admitted quarter.schema_name ∧ Admitted quarter.table_name := by
  decide +kernel

theorem quarter_qualified :
    "main.r&d.q1?".toList.splitOn '.' = ["main".toList, "r&d".toList, "q1?".toList] :=
  (urls_address_iff quarter).2.2 quarter_admitted.1 quarter_admitted.2.1 quarter_admitted.2.2

/-- The schema's name ends a parameter, and the table's name the path: its credentials are asked for
at another table's URL. A slash in a plan's id makes two segments of it. -/
theorem names_are_cut :
    (Admitted quarter.catalog_name ∧ Admitted quarter.schema_name ∧ Admitted quarter.table_name) ∧
    (address (Resource.tables.url quarter).toList).query =
      [(octets "catalog_name".toList, some (octets "main".toList)),
        (octets "schema_name".toList, some (octets "r".toList)), (octets "d".toList, none)] ∧
    (address ((Resource.credentials false).url quarter).toList).path =
      (address (Resource.deltaTable.url { quarter with table_name := "q1" }).toList).path ∧
    ¬ Resource.tables.Addressed quarter ∧ ¬ Resource.table.Addressed quarter ∧
    ¬ Resource.deltaTable.Addressed quarter ∧ ¬ Resource.plan.Addressed quarter ∧
    Resource.plan.Addressed chainedScan ∧ ¬ (Resource.planId "a/b").Addressed chainedScan := by
  simp only [Resource.addressed_iff, Resource.url_eq]
  refine ⟨quarter_admitted, ?_⟩
  decide +kernel

end UnityCatalog
