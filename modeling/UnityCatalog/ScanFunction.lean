import UnityCatalog.FileList
import UnityCatalog.TableVersion

/-!
# What reads a table

`uc_table_entry.cpp`: a table is read through its Delta log, or through a scan plan. A planned scan
is bound without a plan; each execution plans anew and adopts a scan that reads the planned files
with parquet or, where planning fails, the Delta scan. Both are told the columns as **positions in
the column list the statement was bound to**. Progress and thread counts are left out.
-/

namespace UnityCatalog

open Effectful Yyjson

/-! ## Binding -/

/-- `column_t`: a position, or a virtual column. -/
inductive ColumnId where
  | column (i : ℕ)
  | filename
  | fileIndex
  | empty
  deriving DecidableEq, Repr

/-- `TableFunctionInitInput`, as far as columns go -/
structure TableFunctionInitInput where
  column_ids : List ColumnId
  /-- positions in `column_ids`; all of them where there are none -/
  projection_ids : List ℕ := []

/-- The columns a scan puts out. -/
def TableFunctionInitInput.output (input : TableFunctionInitInput) : List ColumnId :=
  if input.projection_ids = [] then input.column_ids
  else input.projection_ids.filterMap fun k => input.column_ids[k]?

/-- `UCScanPlanBindData` -/
structure UCScanPlanBindData where
  catalog_name : String
  schema_name : String
  table_name : String
  storage_location : String
  credentials : UCCredentials
  scan_plan_endpoint : String
  /-- whether the pointer is set -/
  uc_catalog : Bool := false
  table : Option TableInformation := none
  lookup_info : Option (Option BoundAtClause) := none
  filter_json : String := ""

/-- What `GetScanFunction` binds: a planned scan, or the Delta scan of a version of the log. -/
inductive BoundScan where
  | plan (bind_data : UCScanPlanBindData)
  | delta (table : DeltaTable)

/-- `StringUtil::RTrim` -/
def rTrim (s : String) (c : Char) : String :=
  String.ofList (s.toList.reverse.dropWhile (· == c)).reverse

/-- `UnityCatalog::GetIRCEndpoint` -/
def UCCredentials.ircEndpoint (credentials : UCCredentials) : String :=
  if credentials.irc_endpoint_override != "" then credentials.irc_endpoint_override
  else rTrim credentials.endpoint '/' ++ "/api/2.1/unity-catalog/iceberg-rest"

namespace TableInformation

/-- `BuildDeltaScan` -/
def buildDeltaScan (t : TableInformation) (lookup_info : Option BoundAtClause) : Run DeltaTable :=
    do
  match ← t.deltaTable lookup_info with
  | some delta_table => return delta_table
  | none => throw t.noDeltaTable

/-- The condition of the planned path. -/
def plansScan (t : TableInformation) (lookup_info : Option BoundAtClause) : Run Bool :=
  if t.scanPlanCanRead then do
    let planned ← shouldTryScanPlan t.credentials
    return planned && lookup_info.isNone
  else return false

/-- `UCTableEntry::GetScanFunction` -/
def getScanFunction (t : TableInformation) (lookup_info : Option BoundAtClause) : Run BoundScan :=
    do
  let td := t.table_data
  if ← t.plansScan lookup_info then
    t.refreshCredentials
    return .plan
      { catalog_name := td.catalog_name
        schema_name := td.schema_name
        table_name := td.name
        storage_location := td.storage_location
        credentials := t.credentials
        scan_plan_endpoint := t.credentials.ircEndpoint
        uc_catalog := true
        table := some t
        lookup_info := some lookup_info }
  else if td.data_source_format != "DELTA" then
    throw (notImplementedException ("Table '" ++ td.name ++ "' is of unsupported format '" ++
      td.data_source_format ++ "', "))
  else
    let table ← t.buildDeltaScan lookup_info
    return .delta table

end TableInformation

/-! ## Executing -/

/-- The scan an execution adopts. -/
inductive InnerScan where
  | parquet (files : UCMultiFileList)
  | delta (table : DeltaTable)

/-- `UCScanPlanGlobalState`: the scan and what it was started with. -/
structure UCScanPlanGlobalState where
  inner : InnerScan
  input : TableFunctionInitInput

/-- `AdoptInnerScan` -/
def adoptInnerScan (inner : InnerScan) (input : TableFunctionInitInput) :
    Run UCScanPlanGlobalState := do
  initGlobal
  return ⟨inner, input⟩

namespace UCScanPlanBindData

/-- What the `/plan` call is about. -/
def target (bd : UCScanPlanBindData) : ScanTarget where
  catalog_name := bd.catalog_name
  schema_name := bd.schema_name
  table_name := bd.table_name
  credentials := bd.credentials
  scan_plan_endpoint := bd.scan_plan_endpoint

/-- The error of a plan that ended in another status. -/
def notCompleted (bd : UCScanPlanBindData) (plan : UCScanPlanResult) : Exception :=
  ioException ("scan-plan: planning for '" ++
    qualified bd.catalog_name bd.schema_name bd.table_name ++ "' returned status '" ++
    plan.status.toText ++ "'" ++
    (if plan.error_type = "" then "" else " type=" ++ plan.error_type) ++
    (if plan.error_message = "" then "" else ": " ++ plan.error_message))

/-- The `/plan` call, completed. -/
def completedPlan (bd : UCScanPlanBindData) : Run UCScanPlanResult := do
  let plan ← UCAPI.planTableScan bd.target bd.filter_json
  if plan.status = .completed then return plan else throw (bd.notCompleted plan)

/-- The error of a failed plan that nothing stands in for. -/
def noFallback (bd : UCScanPlanBindData) (e : Exception) : Exception :=
  ioException ("UC scan plan API call failed for table '" ++ bd.table_name ++
    "' and no Delta fallback is available: " ++ e.message)

/-- The scan after a failed plan. -/
def fallback (bd : UCScanPlanBindData) (e : Exception) (input : TableFunctionInitInput) :
    Run UCScanPlanGlobalState := do
  match bd.table, bd.lookup_info with
  | some table, some lookup_info =>
    if table.table_data.data_source_format = "DELTA" then
      let delta ← table.buildDeltaScan lookup_info
      adoptInnerScan (.delta delta) input
    else throw (bd.noFallback e)
  | _, _ => throw (bd.noFallback e)

/-- One of the plan's storage credentials, as a secret. -/
def storageSecret (bd : UCScanPlanBindData) (i : ℕ) (pre : String)
    (cfg : List (String × String)) : CreateSecretInput :=
  let get_cfg (k : String) := ((cfg.find? fun m => m.1 == k).map Prod.snd).getD ""
  { name := "__internal_uc_scanplan__" ++ bd.catalog_name ++ "__" ++ bd.schema_name ++ "__" ++
      bd.table_name ++ "__" ++ toString i
    options := [("key_id", get_cfg "s3.access-key-id"),
      ("secret", get_cfg "s3.secret-access-key"),
      ("session_token", get_cfg "s3.session-token"), ("region", get_cfg "client.region")]
    scope := pre }

/-- The loop over the plan's storage credentials. -/
def registerSecrets (bd : UCScanPlanBindData) : ℕ → List (String × List (String × String)) →
    Run Unit
  | _, [] => return ()
  | i, (pre, cfg) :: rest => do
    createSecret (bd.storageSecret i pre cfg)
    bd.registerSecrets (i + 1) rest

/-- The scan of a completed plan. -/
def planned (bd : UCScanPlanBindData) (plan : UCScanPlanResult) (input : TableFunctionInitInput) :
    Run UCScanPlanGlobalState := do
  bd.registerSecrets 0 plan.storage_credentials
  let files ← Prog.ofExcept (UCMultiFileList.create bd.target plan)
  bindParquet (if bd.storage_location = "" then "uc://scan_plan" else bd.storage_location)
  adoptInnerScan (.parquet files) input

end UCScanPlanBindData

/-- `UCScanPlanInitGlobal`, with the plan it has executed, if any. -/
def ucScanPlanInitGlobalTelling (bd : UCScanPlanBindData) (input : TableFunctionInitInput) :
    Run (UCScanPlanGlobalState × Option UCScanPlanResult) := do
  match ← bd.completedPlan.attempt with
  | .error e =>
    if e.type = .interrupt then throw e
    else
      if bd.uc_catalog then markScanPlanUnavailable
      let gstate ← bd.fallback e input
      return (gstate, none)
  | .ok plan =>
    if bd.uc_catalog then markScanPlanAvailable
    let gstate ← bd.planned plan input
    return (gstate, some plan)

/-- `UCScanPlanInitGlobal` -/
def ucScanPlanInitGlobal (bd : UCScanPlanBindData) (input : TableFunctionInitInput) :
    Run UCScanPlanGlobalState := do
  let x ← ucScanPlanInitGlobalTelling bd input
  return x.1

/-- Without what it tells. -/
theorem ucScanPlanInitGlobal_eq (bd : UCScanPlanBindData) (input : TableFunctionInitInput) :
    ucScanPlanInitGlobal bd input = (do
      match ← bd.completedPlan.attempt with
      | .error e =>
        if e.type = .interrupt then throw e
        else
          if bd.uc_catalog then markScanPlanUnavailable
          bd.fallback e input
      | .ok plan =>
        if bd.uc_catalog then markScanPlanAvailable
        bd.planned plan input) := by
  rw [ucScanPlanInitGlobal, ucScanPlanInitGlobalTelling]
  simp only [Prog.bind_eq, Prog.bind_assoc]
  refine congrArg _ (funext fun plan => ?_)
  cases plan with
  | error e =>
    dsimp only
    by_cases he : e.type = .interrupt
    · rw [if_pos he, if_pos he]
      rfl
    · rw [if_neg he, if_neg he]
      cases bd.uc_catalog <;> simp [Prog.bind_assoc, Prog.bind_ret]
  | ok plan =>
    dsimp only
    cases bd.uc_catalog <;> simp [Prog.bind_assoc, Prog.bind_ret]

/-! ## Plans that need no polling -/

section

variable {W : World Client Exception} {c : W.Ctx} {s s' : W.State}

/-- A plan that is answered at once is that answer. -/
theorem exec_planTableScan {t : ScanTarget} {filter_json : String} {resp : HttpResponse}
    {result : UCScanPlanResult}
    (h : (makeRequestResp t.planUrl t.credentials.token (planBody filter_json)
      statusInvalid).Exec c s (.ok resp) s')
    (hresult : parseScanPlanResponse resp.body = .ok result) (hdone : result.status ≠ .submitted) :
    (UCAPI.planTableScan t filter_json).Exec c s (.ok result) s' := by
  refine Prog.exec_bind.2 (.inl ⟨resp, s', h, ?_⟩)
  refine Prog.exec_bind.2 (.inl ⟨result, s', Prog.exec_ofExcept.2 ⟨hresult.symm, rfl⟩, ?_⟩)
  rw [pollLoop, if_neg hdone]
  exact ⟨rfl, rfl⟩

/-- A plan that is completed at once is that answer. -/
theorem exec_completedPlan_of_parse {bd : UCScanPlanBindData} {resp : HttpResponse}
    {plan : UCScanPlanResult}
    (h : (makeRequestResp bd.target.planUrl bd.target.credentials.token (planBody bd.filter_json)
      statusInvalid).Exec c s (.ok resp) s')
    (hplan : parseScanPlanResponse resp.body = .ok plan) (hdone : plan.status = .completed) :
    bd.completedPlan.Exec c s (.ok plan) s' := by
  have hnot : plan.status ≠ .submitted := by
    rw [hdone]
    nofun
  refine Prog.exec_bind.2 (.inl ⟨plan, s', exec_planTableScan h hplan hnot, ?_⟩)
  rw [if_pos hdone]
  exact ⟨rfl, rfl⟩

/-- A plan that is completed at once is executed. -/
theorem exec_initGlobal {bd : UCScanPlanBindData} {input : TableFunctionInitInput}
    {resp : HttpResponse} {plan : UCScanPlanResult} {r : Except Exception UCScanPlanGlobalState}
    {s₁ : W.State}
    (h : (makeRequestResp bd.target.planUrl bd.target.credentials.token (planBody bd.filter_json)
      statusInvalid).Exec c s (.ok resp) s₁)
    (hplan : parseScanPlanResponse resp.body = .ok plan) (hdone : plan.status = .completed)
    (hr : (do
      if bd.uc_catalog then markScanPlanAvailable
      bd.planned plan input : Run UCScanPlanGlobalState).Exec c s₁ r s') :
    (ucScanPlanInitGlobal bd input).Exec c s r s' := by
  have hcompleted := exec_completedPlan_of_parse h hplan hdone
  rw [ucScanPlanInitGlobal_eq]
  exact Prog.exec_bind.2 (.inl ⟨.ok plan, s₁, Prog.exec_attempt.2 ⟨_, rfl, hcompleted⟩, hr⟩)

end

end UnityCatalog
