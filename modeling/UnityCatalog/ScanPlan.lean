import UnityCatalog.Api

/-!
# Server-side scan planning

The scan-plan half of `uc_api.cpp`: what a planning response decodes to, and `PlanTableScan`, which
submits a plan and polls it until the server reaches a terminal status. The per-column counts of a
data file are decoded without any check and never read, and are left out.

The poll loop keeps **one variable, `result`, for two things**: the latest answer and the id it
polls and cancels with. `planTableScan_addresses_iff` says what that costs: a run stays with the
plan it submitted exactly if every answer that keeps it polling repeats that plan's id.
-/

namespace UnityCatalog

open Effectful Yyjson

/-! ## What a planning response holds -/

/-- `UCScanPlanDataFile` -/
structure UCScanPlanDataFile where
  content : String := ""
  file_path : String := ""
  file_format : String := ""
  spec_id : ℤ := 0
  file_size_in_bytes : ℤ := 0
  record_count : ℤ := 0
  first_row_id : ℤ := -1
  deriving DecidableEq

/-- `UCScanPlanStatus` -/
inductive UCScanPlanStatus where
  | unknown | completed | submitted | failed | cancelled
  deriving DecidableEq, Repr

/-- `UCScanDeleteFileType` -/
inductive UCScanDeleteFileType where
  | positionDeletes | equalityDeletes
  deriving DecidableEq, Repr

/-- `UCScanDeleteFile` -/
structure UCScanDeleteFile where
  content : UCScanDeleteFileType
  file_path : String
  file_format : String
  file_size_in_bytes : ℤ
  record_count : ℤ
  equality_ids : List ℕ
  content_offset : ℤ
  content_size_in_bytes : ℤ
  deriving DecidableEq

/-- `UCScanPlanFileScanTask` -/
structure UCScanPlanFileScanTask where
  data_file : UCScanPlanDataFile := {}
  delete_file_references : List ℕ := []
  deriving DecidableEq

/-- `UCScanPlanResult` -/
structure UCScanPlanResult where
  status : UCScanPlanStatus := .unknown
  plan_id : String := ""
  delete_files : List UCScanDeleteFile := []
  file_scan_tasks : List UCScanPlanFileScanTask := []
  plan_tasks : List String := []
  storage_credentials : List (String × List (String × String)) := []
  error_message : String := ""
  error_type : String := ""
  deriving DecidableEq

/-- `UCScanPlanStatusToString` -/
def UCScanPlanStatus.toText : UCScanPlanStatus → String
  | .completed => "completed"
  | .submitted => "submitted"
  | .failed => "failed"
  | .cancelled => "cancelled"
  | .unknown => "unknown"

/-! ## Decoding -/

/-- `ParseDataFile` -/
def parseDataFile (df_val : Option Val) : Except Exception UCScanPlanDataFile := do
  let content ← tryGetStrFromObject df_val "content" false
  let file_path ← tryGetStrFromObject df_val "file-path"
  let file_format ← tryGetStrFromObject df_val "file-format" false
  let spec_id ← tryGetNumFromObject df_val "spec-id" false
  let file_size_in_bytes ← tryGetNumFromObject df_val "file-size-in-bytes" false
  let record_count ← tryGetNumFromObject df_val "record-count" false
  let frid := objGet df_val "first-row-id"
  return ⟨content, file_path, file_format, int64 spec_id, int64 file_size_in_bytes,
    int64 record_count, if frid.isSome then getSint frid else -1⟩

/-- A cast to `uint32_t`. -/
def uint32 (n : ℕ) : ℕ := n % 2 ^ 32

/-- `ParseDeleteFile` -/
def parseDeleteFile (del_val : Option Val) : Except Exception UCScanDeleteFile := do
  let file_path ← tryGetStrFromObject del_val "file-path"
  let content ← tryGetStrFromObject del_val "content"
  let content ←
    if content = "position-deletes" then pure UCScanDeleteFileType.positionDeletes
    else if content = "equality-deletes" then pure UCScanDeleteFileType.equalityDeletes
    else throw (ioException ("scan-plan: delete file '" ++ file_path ++
      "' has unknown content discriminator '" ++ content ++
      "' (expected 'position-deletes' or 'equality-deletes') — server response is malformed"))
  let file_format ← tryGetStrFromObject del_val "file-format" false
  let file_size_in_bytes ← tryGetNumFromObject del_val "file-size-in-bytes" false
  let record_count ← tryGetNumFromObject del_val "record-count" false
  let equality_ids :=
    (items (objGet del_val "equality-ids")).map fun id => uint32 (getUint (some id))
  let offset := objGet del_val "content-offset"
  let csize := objGet del_val "content-size-in-bytes"
  return ⟨content, file_path, file_format, int64 file_size_in_bytes, int64 record_count,
    equality_ids, if offset.isSome then getSint offset else -1,
    if csize.isSome then getSint csize else -1⟩

/-- One item of `file-scan-tasks`. -/
def parseFileScanTask (task_val : Option Val) : Except Exception UCScanPlanFileScanTask := do
  let df_val := objGet task_val "data-file"
  let data_file ← if df_val.isSome then parseDataFile df_val else pure {}
  let refs := (items (objGet task_val "delete-file-references")).map fun r => getUint (some r)
  return ⟨data_file, refs⟩

/-- One item of `storage-credentials`; the first of two members of one name stays. -/
def parseStorageCredential (cred_val : Option Val) :
    Except Exception (String × List (String × String)) := do
  let pre ← tryGetStrFromObject cred_val "prefix" false
  let config := (members (objGet cred_val "config")).filterMap fun m =>
    (getStr (some m.2)).map fun v => (cString m.1, cString v)
  return (pre, config)

/-- `ParseScanTasksPayload`, into `result`. -/
def parseScanTasksPayload (root : Option Val) (result : UCScanPlanResult) :
    Except Exception UCScanPlanResult := do
  let delete_files ← (items (objGet root "delete-files")).mapM fun v => parseDeleteFile (some v)
  let file_scan_tasks ←
    (items (objGet root "file-scan-tasks")).mapM fun v => parseFileScanTask (some v)
  let plan_tasks :=
    (items (objGet root "plan-tasks")).filterMap fun v => (getStr (some v)).map cString
  let storage_credentials ←
    (items (objGet root "storage-credentials")).mapM fun v => parseStorageCredential (some v)
  return { result with
    delete_files := result.delete_files ++ delete_files
    file_scan_tasks := result.file_scan_tasks ++ file_scan_tasks
    plan_tasks := result.plan_tasks ++ plan_tasks
    storage_credentials := result.storage_credentials ++ storage_credentials }

/-- The status a response writes, in any case. -/
def parseStatus (status_str : String) : UCScanPlanStatus :=
  if status_str = "completed" then .completed
  else if status_str = "submitted" then .submitted
  else if status_str = "failed" then .failed
  else if status_str = "cancelled" then .cancelled
  else .unknown

/-- `ParseScanPlanResponse` -/
def parseScanPlanResponse (json_str : String) : Except Exception UCScanPlanResult := do
  let root := read json_str
  if root.isNone then throw (ioException "Failed to parse scan plan response")
  let status_str ← tryGetStrFromObject root "status"
  let status := parseStatus (lower status_str)
  let plan_id ← tryGetStrFromObject root "plan-id" false
  let result : UCScanPlanResult := { status, plan_id }
  if status = .failed then
    let error_obj := objGet root "error"
    if error_obj.isNone then return result
    let error_message ← tryGetStrFromObject error_obj "message" false
    let error_type ← tryGetStrFromObject error_obj "type" false
    return { result with error_message, error_type }
  if status ≠ .completed then return result
  parseScanTasksPayload root result

/-! ## Planning -/

/-- What every scan-plan call is told of the table. -/
structure ScanTarget where
  catalog_name : String
  schema_name : String
  table_name : String
  credentials : UCCredentials
  scan_plan_endpoint : String

/-- The URL plans are submitted to. -/
def ScanTarget.planUrl (t : ScanTarget) : String :=
  t.scan_plan_endpoint ++ "/v1/catalogs/" ++ t.catalog_name ++ "/namespaces/" ++ t.schema_name ++
    "/tables/" ++ t.table_name ++ "/plan"

/-- The URL of one plan. -/
def ScanTarget.planIdUrl (t : ScanTarget) (plan_id : String) : String :=
  t.planUrl ++ ("/" ++ plan_id)

/-- `std::stoll` on base 10: white space, a sign, digits, and whatever follows; `none` where it
throws. -/
def stoll (s : String) : Option ℤ :=
  let isspace (c : Char) := c = ' ' ∨ ('\x09' ≤ c ∧ c ≤ '\x0d')
  let (neg, cs) := match s.toList.dropWhile isspace with
    | '-' :: rest => (true, rest)
    | '+' :: rest => (false, rest)
    | cs => (false, cs)
  match readDigits cs with
  | ([], _) => none
  | (ds, _) =>
    let n : ℤ := if neg then -digitsValue ds else digitsValue ds
    if -2 ^ 63 ≤ n ∧ n < 2 ^ 63 then some n else none

/-- `GetHeaderValue`, where `HasHeader`; header names ignore case. -/
def HttpResponse.header (resp : HttpResponse) (name : String) : Option String :=
  (resp.headers.find? fun h => lower h.1 == lower name).map Prod.snd

/-- `ParseRetryAfterMs`; the product is an `int64_t`. -/
def parseRetryAfterMs (resp : HttpResponse) : ℤ :=
  match (resp.header "Retry-After").bind stoll with
  | some secs => if secs ≥ 0 then Int.bmod (secs * 1000) (2 ^ 64) else -1
  | none => -1

/-- `CancelPlan`: best effort, never throws. -/
def cancelPlan (t : ScanTarget) (plan_id : String) : Run Unit := do
  if plan_id ≠ "" then
    tryCatch
      (do
        issue ⟨.delete, t.planIdUrl plan_id, t.credentials.token, .empty⟩
        let _ ← answer
        return ())
      fun _ => return ()

/-- `FetchPlanningResult`, with the delay the response asks for. -/
def fetchPlanningResult (t : ScanTarget) (plan_id : String) : Run (UCScanPlanResult × ℤ) := do
  let resp ← makeRequestResp (t.planIdUrl plan_id) t.credentials.token .empty statusInvalid
  let retry_after_ms := parseRetryAfterMs resp
  let result ← Prog.ofExcept (parseScanPlanResponse resp.body)
  return (result, retry_after_ms)

/-- `POLL_BUDGET_MS` -/
def pollBudgetMs : ℤ := 5 * 60 * 1000

/-- `POLL_MIN_SLEEP_MS` -/
def pollMinSleepMs : ℤ := 100

/-- `POLL_MAX_SLEEP_MS` -/
def pollMaxSleepMs : ℤ := 1000

/-- `POLL_MAX_RETRY_AFTER_MS` -/
def pollMaxRetryAfterMs : ℤ := 60 * 1000

/-- One sleep, in chunks a cancel can land between. -/
def sleepInChunks (sleep_ms slept : ℤ) : Run Unit :=
  if slept < sleep_ms then do
    interruptCheck
    sleepFor (min pollMinSleepMs (sleep_ms - slept))
    sleepInChunks sleep_ms (slept + pollMinSleepMs)
  else return ()
termination_by (sleep_ms - slept).toNat
decreasing_by simp only [pollMinSleepMs]; omega

/-- The length of the next sleep. -/
def sleepMs (retry_after_ms backoff_ms : ℤ) : ℤ :=
  min (max (if retry_after_ms ≥ 0 then retry_after_ms else backoff_ms) pollMinSleepMs)
    pollMaxRetryAfterMs

theorem pollMinSleepMs_le_sleepMs (retry_after_ms backoff_ms : ℤ) :
    pollMinSleepMs ≤ sleepMs retry_after_ms backoff_ms := by
  simp only [sleepMs, pollMinSleepMs, pollMaxRetryAfterMs]
  omega

/-- The error of a plan that outlasts the budget. -/
def budgetExceeded (t : ScanTarget) (plan_id : String) : Exception :=
  ioException ("scan-plan: planning for '" ++
    qualified t.catalog_name t.schema_name t.table_name ++ "' (plan_id=" ++ plan_id ++
    ") did not reach a terminal status within " ++ toString (pollBudgetMs / 1000) ++ " s")

/-- The `catch (...)` of the poll loop. -/
def abandon {α : Type} (t : ScanTarget) (plan_id : String) (e : Exception) : Run α := do
  cancelPlan t plan_id
  throw e

/-- The poll loop. A throw leaves `result` as the previous round set it, so each round's handler is
given the `plan_id` the round started with. -/
def pollLoop (t : ScanTarget) (result : UCScanPlanResult)
    (retry_after_ms backoff_ms elapsed_ms : ℤ) : Run UCScanPlanResult :=
  if result.status = .submitted then
    if elapsed_ms ≥ pollBudgetMs then abandon t result.plan_id (budgetExceeded t result.plan_id)
    else do
      let sleep_ms := sleepMs retry_after_ms backoff_ms
      let (next, next_retry_ms) ← tryCatch
        (do
          sleepInChunks sleep_ms 0
          fetchPlanningResult t result.plan_id)
        (abandon t result.plan_id)
      pollLoop t next next_retry_ms (min (backoff_ms * 2) pollMaxSleepMs) (elapsed_ms + sleep_ms)
  else return result
termination_by (pollBudgetMs - elapsed_ms).toNat
decreasing_by
  have := pollMinSleepMs_le_sleepMs retry_after_ms backoff_ms
  simp only [pollBudgetMs, pollMinSleepMs] at *
  omega

/-- The body a plan is submitted with. -/
def planBody (filter_json : String) : RequestBody :=
  .text (if filter_json = "" then "\x7b\"case-sensitive\":false\x7d"
    else "\x7b\"case-sensitive\":false,\"filter\":" ++ filter_json ++ "\x7d")

/-- `UCAPI::PlanTableScan` -/
def UCAPI.planTableScan (t : ScanTarget) (filter_json : String) : Run UCScanPlanResult := do
  let resp ← makeRequestResp t.planUrl t.credentials.token (planBody filter_json) statusInvalid
  let retry_after_ms := parseRetryAfterMs resp
  let result ← Prog.ofExcept (parseScanPlanResponse resp.body)
  pollLoop t result retry_after_ms pollMinSleepMs 0

/-! ## On the wire -/

/-- `InterruptException` -/
def interruptException : Exception := ⟨.interrupt, "Interrupted!", []⟩

/-- What planning is seen to do. -/
inductive WireEvent where
  /-- a request, and its response or what the HTTP layer threw -/
  | exchange (req : HttpRequest) (resp : Except Exception HttpResponse)
  /-- an interrupt check -/
  | check
  /-- a sleep -/
  | slept (ms : ℤ)

/-- The request under way, and what happened before it. -/
structure WireState where
  pending : Option HttpRequest := none
  events : List WireEvent := []

/-- What the surroundings may do with an operation. -/
inductive WireChoice where
  /-- go on -/
  | proceed
  /-- respond -/
  | respond (resp : HttpResponse)
  /-- throw -/
  | fail (e : Exception)

/-- Operations of planning, answered any way they can be: a server that responds as it likes, an
HTTP layer that throws, a user who cancels. -/
def wireAnswer (s : WireState) : (op : Op) → WireChoice →
    Option (Except Exception op.Ans × WireState)
  | .ensureHttpfs, .proceed => some (.ok (), s)
  | .ensureHttpfs, .fail e => some (.error e, s)
  | .issue req, .proceed => some (.ok (), { s with pending := some req })
  | .answer, .respond resp => s.pending.map fun req =>
    (.ok resp, ⟨none, s.events ++ [.exchange req (.ok resp)]⟩)
  | .answer, .fail e => s.pending.map fun req =>
    (.error e, ⟨none, s.events ++ [.exchange req (.error e)]⟩)
  | .interruptCheck, .proceed => some (.ok (), { s with events := s.events ++ [.check] })
  | .interruptCheck, .fail e =>
    if e = interruptException then some (.error e, { s with events := s.events ++ [.check] })
    else none
  | .sleepFor ms, .proceed => some (.ok (), { s with events := s.events ++ [.slept ms] })
  | _, _ => none

/-- One thread on the wire. -/
abbrev Wire : World Client Exception where
  Ctx := Unit
  State := WireState
  Choice := WireChoice
  answer _ s op ch := wireAnswer s op ch

/-- A request with its response or what the HTTP layer threw. -/
abbrev Exchange := HttpRequest × Except Exception HttpResponse

/-- The requests made. -/
def exchanges (events : List WireEvent) : List Exchange :=
  events.filterMap fun
    | .exchange req resp => some (req, resp)
    | _ => none

/-- The URLs requested with a method. -/
def urls (m : Method) (xs : List Exchange) : List String :=
  (xs.filter fun x => x.1.method = m).map fun x => x.1.url

/-- The responses to GET requests: in planning, the polls' answers. -/
def polled (xs : List Exchange) : List HttpResponse :=
  (xs.filter fun x => x.1.method = .get).filterMap fun x => x.2.toOption

@[simp] theorem exchanges_append (xs ys : List WireEvent) :
    exchanges (xs ++ ys) = exchanges xs ++ exchanges ys := List.filterMap_append

@[simp] theorem exchanges_exchange (req : HttpRequest) (resp : Except Exception HttpResponse) :
    exchanges [.exchange req resp] = [(req, resp)] := rfl

@[simp] theorem urls_append (m : Method) (xs ys : List Exchange) :
    urls m (xs ++ ys) = urls m xs ++ urls m ys := by
  simp [urls]

@[simp] theorem polled_append (xs ys : List Exchange) :
    polled (xs ++ ys) = polled xs ++ polled ys := by
  simp [polled]

theorem polled_eq_nil {xs : List Exchange} (h : urls .get xs = []) : polled xs = [] := by
  have hf : (xs.filter fun x => x.1.method = .get) = [] := List.map_eq_nil_iff.1 h
  rw [polled, hf]
  rfl

/-! ### What each function does on the wire -/

section

variable {t : ScanTarget} {s s' : WireState}

theorem wire_ensureHttpfs {r : Except Exception Unit} :
    ensureHttpfs.Exec (W := Wire) () s r s' ↔ s' = s := by
  refine Prog.exec_perform.trans ⟨?_, ?_⟩
  · rintro ⟨_ | _ | e, h⟩ <;> simp_all [Wire, wireAnswer]
  · rintro rfl
    cases r with
    | ok u => exact ⟨.proceed, rfl⟩
    | error e => exact ⟨.fail e, rfl⟩

theorem wire_issue {req : HttpRequest} {r : Except Exception Unit} :
    (issue req).Exec (W := Wire) () s r s' ↔
      r = .ok () ∧ s' = { s with pending := some req } := by
  refine Prog.exec_perform.trans ⟨?_, ?_⟩
  · rintro ⟨_ | _ | e, h⟩ <;> simp_all [Wire, wireAnswer]
  · rintro ⟨rfl, rfl⟩
    exact ⟨.proceed, rfl⟩

theorem wire_answer {req : HttpRequest} {r : Except Exception HttpResponse}
    (hp : s.pending = some req) :
    answer.Exec (W := Wire) () s r s' ↔ s' = ⟨none, s.events ++ [.exchange req r]⟩ := by
  refine Prog.exec_perform.trans ⟨?_, ?_⟩
  · rintro ⟨_ | resp | e, h⟩
    · cases h
    · simp only [Wire, wireAnswer, hp, Option.map_some, Option.some.injEq, Prod.mk.injEq] at h
      obtain ⟨rfl, rfl⟩ := h
      rfl
    · simp only [Wire, wireAnswer, hp, Option.map_some, Option.some.injEq, Prod.mk.injEq] at h
      obtain ⟨rfl, rfl⟩ := h
      rfl
  · rintro rfl
    cases r with
    | ok resp => exact ⟨.respond resp, by simp [Wire, wireAnswer, hp]⟩
    | error e => exact ⟨.fail e, by simp [Wire, wireAnswer, hp]⟩

/-- `MakeRequestResp`: no request at all, or one, whose response is returned if it is accepted. -/
theorem wire_makeRequestResp {url token : String} {body : RequestBody} {tolerated : ℕ}
    {r : Except Exception HttpResponse}
    (h : (makeRequestResp url token body tolerated).Exec (W := Wire) () s r s') :
    (∃ e, r = .error e ∧ s'.events = s.events) ∨
      ∃ x, s'.events = s.events ++ [.exchange ⟨body.method, url, token, body⟩ x] ∧
        match r with
        | .ok resp => x = .ok resp ∧ resp.accepted tolerated = true
        | .error _ => ∀ resp, x = .ok resp → resp.accepted tolerated = false := by
  simp only [makeRequestResp, Prog.bind_eq, Prog.exec_bind, wire_ensureHttpfs, wire_issue] at h
  rcases h with ⟨_, s₁, rfl, h⟩ | ⟨e, rfl, rfl⟩
  · rcases h with ⟨_, s₂, ⟨-, rfl⟩, h⟩ | ⟨e, ⟨h, -⟩, -⟩
    · rcases h with ⟨resp, s₃, ha, h⟩ | ⟨e, ha, rfl⟩
      · rw [wire_answer rfl] at ha
        subst ha
        refine .inr ⟨.ok resp, ?_⟩
        split at h
        · rename_i hacc
          obtain ⟨rfl, rfl⟩ := h
          refine ⟨rfl, ?_⟩
          rintro _ ⟨⟩
          simpa [HttpResponse.accepted] using hacc
        · rename_i hacc
          obtain ⟨rfl, rfl⟩ := h
          refine ⟨rfl, rfl, ?_⟩
          simpa [HttpResponse.accepted, or_iff_not_imp_left] using hacc
      · rw [wire_answer rfl] at ha
        subst ha
        exact .inr ⟨.error e, rfl, by simp⟩
    · cases h
  · exact .inl ⟨e, rfl, rfl⟩

/-- `FetchPlanningResult`: no request, or one, whose response is decoded if it is accepted. -/
theorem wire_fetchPlanningResult {plan_id : String} {r : Except Exception (UCScanPlanResult × ℤ)}
    (h : (fetchPlanningResult t plan_id).Exec (W := Wire) () s r s') :
    (∃ e, r = .error e ∧ s'.events = s.events) ∨
      ∃ x, s'.events =
          s.events ++ [.exchange ⟨.get, t.planIdUrl plan_id, t.credentials.token, .empty⟩ x] ∧
        match r with
        | .ok a => ∃ resp, x = .ok resp ∧ resp.accepted statusInvalid = true ∧
            parseScanPlanResponse resp.body = .ok a.1
        | .error _ => ∀ resp, x = .ok resp → resp.accepted statusInvalid = true →
            ∀ result, parseScanPlanResponse resp.body ≠ .ok result := by
  simp only [fetchPlanningResult, Prog.bind_eq, Prog.exec_bind, Prog.exec_ofExcept] at h
  rcases h with ⟨resp, s₁, hm, h⟩ | ⟨e, hm, rfl⟩
  · rcases wire_makeRequestResp hm with ⟨e, he, -⟩ | ⟨x, hx, rfl, hacc⟩
    · cases he
    · rcases h with ⟨result, s₂, ⟨hp, rfl⟩, h⟩ | ⟨e, ⟨hp, rfl⟩, rfl⟩
      · obtain ⟨rfl, rfl⟩ := h
        exact .inr ⟨_, hx, resp, rfl, hacc, hp.symm⟩
      · refine .inr ⟨_, hx, ?_⟩
        rintro _ ⟨⟩ - result hr
        rw [hr] at hp
        cases hp
  · rcases wire_makeRequestResp hm with ⟨e', he, hs⟩ | ⟨x, hx, hrej⟩
    · exact .inl ⟨e, rfl, hs⟩
    · refine .inr ⟨x, hx, ?_⟩
      intro resp hr hacc
      rw [hrej resp hr] at hacc
      cases hacc

/-- `CancelPlan`: one DELETE, or nothing where there is no id. -/
theorem wire_cancelPlan {plan_id : String} {r : Except Exception Unit}
    (h : (cancelPlan t plan_id).Exec (W := Wire) () s r s') :
    r = .ok () ∧ ∃ new, exchanges s'.events = exchanges s.events ++ new ∧
      urls .get new = [] ∧
      urls .delete new = if plan_id = "" then [] else [t.planIdUrl plan_id] := by
  simp only [cancelPlan] at h
  split at h
  · rename_i hne
    rw [if_neg hne]
    simp only [Prog.tryCatch_eq', Prog.bind_eq, Prog.exec_tryCatch, Prog.exec_bind, wire_issue] at h
    have one : ∀ x : Except Exception HttpResponse, exchanges (s.events ++
        [.exchange ⟨.delete, t.planIdUrl plan_id, t.credentials.token, .empty⟩ x]) =
        exchanges s.events ++ [(⟨.delete, t.planIdUrl plan_id, t.credentials.token, .empty⟩, x)] :=
      fun x => exchanges_append _ _
    rcases h with ⟨a, h, rfl⟩ | ⟨e, s₁, h, rfl, rfl⟩
    · rcases h with ⟨_, s₂, ⟨-, rfl⟩, ⟨resp, s₃, ha, -, rfl⟩ | ⟨e, -, he⟩⟩ | ⟨e, -, he⟩
      · rw [wire_answer rfl] at ha
        subst ha
        exact ⟨rfl, _, one _, rfl, rfl⟩
      · cases he
      · cases he
    · rcases h with ⟨_, s₂, ⟨-, rfl⟩, ⟨resp, s₃, -, he, -⟩ | ⟨e', ha, -⟩⟩ | ⟨e', ⟨he, -⟩, -⟩
      · cases he
      · rw [wire_answer rfl] at ha
        subst ha
        exact ⟨rfl, _, one _, rfl, rfl⟩
      · cases he
  · rename_i he
    obtain ⟨rfl, rfl⟩ := h
    exact ⟨rfl, [], by simp, rfl, by rw [if_pos (not_not.1 he)]; rfl⟩

theorem wire_abandon {α : Type} {plan_id : String} {e : Exception} {r : Except Exception α}
    (h : (abandon t plan_id e).Exec (W := Wire) () s r s') :
    r = .error e ∧ ∃ new, exchanges s'.events = exchanges s.events ++ new ∧
      urls .get new = [] ∧
      urls .delete new = if plan_id = "" then [] else [t.planIdUrl plan_id] := by
  simp only [abandon, Prog.bind_eq, Prog.exec_bind] at h
  rcases h with ⟨_, s₁, hc, h⟩ | ⟨e', hc, -⟩
  · obtain ⟨rfl, rfl⟩ := h
    exact ⟨rfl, (wire_cancelPlan hc).2⟩
  · cases (wire_cancelPlan hc).1

/-- Sleeping sends nothing. -/
theorem wire_sleepInChunks {sleep_ms slept : ℤ} {r : Except Exception Unit}
    (h : (sleepInChunks sleep_ms slept).Exec (W := Wire) () s r s') :
    exchanges s'.events = exchanges s.events := by
  have huses : ∀ slept, (sleepInChunks sleep_ms slept).Uses fun op =>
      op = Op.interruptCheck ∨ ∃ ms, op = Op.sleepFor ms := by
    intro slept
    fun_induction sleepInChunks sleep_ms slept with
    | case1 slept hlt ih =>
      refine (Prog.uses_perform (.inl rfl)).bind fun _ => ?_
      exact (Prog.uses_perform (.inr ⟨_, rfl⟩)).bind fun _ => ih
    | case2 slept hge => trivial
  refine Prog.Exec.frame (W := Wire) (I := fun w => exchanges w.events = exchanges s.events)
    (huses slept) ?_ h rfl
  rintro w op ch x w₁ (rfl | ⟨ms, rfl⟩) hw ha
  · rcases ch with _ | _ | e
    · obtain ⟨-, rfl⟩ := Prod.mk.inj (Option.some.inj ha)
      simpa [exchanges] using hw
    · cases ha
    · simp only [Wire, wireAnswer] at ha
      split at ha
      · obtain ⟨-, rfl⟩ := Prod.mk.inj (Option.some.inj ha)
        simpa [exchanges] using hw
      · cases ha
  · rcases ch with _ | _ | e
    · obtain ⟨-, rfl⟩ := Prod.mk.inj (Option.some.inj ha)
      simpa [exchanges] using hw
    · cases ha
    · cases ha

/-- The request of one poll. -/
def pollRequest (t : ScanTarget) (plan_id : String) : HttpRequest :=
  ⟨.get, t.planIdUrl plan_id, t.credentials.token, .empty⟩

/-- One round at plan `q`: a poll whose answer decodes, or at most one poll whose answer does not,
and then the cancel. -/
theorem wire_round {q : String} {sleep_ms : ℤ} {r : Except Exception (UCScanPlanResult × ℤ)}
    (h : (Prog.tryCatch ((sleepInChunks sleep_ms 0).bind fun _ => fetchPlanningResult t q)
      (abandon t q)).Exec (W := Wire) () s r s') :
    match r with
    | .ok a => ∃ resp, exchanges s'.events = exchanges s.events ++ [(pollRequest t q, .ok resp)] ∧
        resp.accepted statusInvalid = true ∧ parseScanPlanResponse resp.body = .ok a.1
    | .error _ => ∃ polls cancel,
        exchanges s'.events = exchanges s.events ++ (polls ++ cancel) ∧
        urls .delete polls = [] ∧ (∀ url ∈ urls .get polls, url = t.planIdUrl q) ∧
        (∀ resp ∈ polled polls, resp.accepted statusInvalid = true →
          ∀ result, parseScanPlanResponse resp.body ≠ .ok result) ∧
        urls .get cancel = [] ∧
        urls .delete cancel = if q = "" then [] else [t.planIdUrl q] := by
  simp only [Prog.exec_tryCatch, Prog.exec_bind] at h
  rcases h with ⟨a, ⟨_, s₁, hs, hf⟩ | ⟨e, -, he⟩, rfl⟩ | ⟨e, s₁, hpoll, hab⟩
  · rcases wire_fetchPlanningResult hf with ⟨e, he, -⟩ | ⟨x, hx, resp, rfl, hacc, hparse⟩
    · cases he
    · refine ⟨resp, ?_, hacc, hparse⟩
      rw [hx, exchanges_append, exchanges_exchange, wire_sleepInChunks hs]
      rfl
  · cases he
  · obtain ⟨rfl, cancel, hcancel, hg, hd⟩ := wire_abandon hab
    rcases hpoll with ⟨_, s₂, hs, hf⟩ | ⟨e', hs, -⟩
    · rcases wire_fetchPlanningResult hf with ⟨e', -, hx⟩ | ⟨x, hx, hrej⟩
      · refine ⟨[], cancel, ?_, rfl, by simp [urls], by simp [polled], hg, hd⟩
        rw [hcancel, hx, wire_sleepInChunks hs]
        rfl
      · refine ⟨[(pollRequest t q, x)], cancel, ?_, rfl, by simp [urls, pollRequest], ?_, hg, hd⟩
        · rw [hcancel, hx, exchanges_append, exchanges_exchange, wire_sleepInChunks hs,
            List.append_assoc]
          rfl
        · intro resp hresp
          cases x with
          | ok resp' =>
            obtain rfl : resp = resp' := by simpa [polled, pollRequest, Except.toOption] using hresp
            exact hrej resp rfl
          | error e' => simp [polled, Except.toOption] at hresp
    · refine ⟨[], cancel, ?_, rfl, by simp [urls], by simp [polled], hg, hd⟩
      rw [hcancel, wire_sleepInChunks hs]
      rfl

/-! ### Staying with one plan -/

/-- The property a planning run is meant to have: every poll and the cancel address plan `p`, and
there is exactly one cancel on an error, none otherwise. -/
def Addresses {α : Type} (t : ScanTarget) (p : String) (r : Except Exception α)
    (xs : List Exchange) : Prop :=
  (∀ url ∈ urls .get xs, url = t.planIdUrl p) ∧
    urls .delete xs = match r with
      | .ok _ => []
      | .error _ => [t.planIdUrl p]

/-- A response that keeps the loop polling names plan `p`. -/
def Renames (p : String) (resp : HttpResponse) : Prop :=
  resp.accepted statusInvalid = true → ∀ result, parseScanPlanResponse resp.body = .ok result →
    result.status = .submitted → result.plan_id = p

theorem planIdUrl_inj {p q : String} : t.planIdUrl q = t.planIdUrl p ↔ q = p := by
  simp [ScanTarget.planIdUrl, String.append_right_inj]

/-- What is left of the loop when a round abandons plan `q` after the exchanges `xs`. -/
theorem addresses_abandon {α : Type} {p q : String} {e : Exception} {x new : List Exchange}
    (hp : p ≠ "") (hx : urls .delete x = []) (hg : urls .get new = [])
    (hd : urls .delete new = if q = "" then [] else [t.planIdUrl q])
    (hq : ∀ url ∈ urls .get x, url = t.planIdUrl q) :
    Addresses t p (.error e : Except Exception α) (x ++ new) ↔ q = p := by
  simp only [Addresses, urls_append, hx, hg, hd, List.nil_append, List.append_nil]
  constructor
  · rintro ⟨-, hd⟩
    split at hd
    · cases hd
    · exact planIdUrl_inj.1 (List.cons.inj hd).1
  · rintro rfl
    exact ⟨hq, by rw [if_neg hp]⟩

/-- **One loop, one plan**: from any round on, the loop stays with plan `p` exactly if it is at `p`
now, unless it is done, and every answer that keeps it polling names `p` again. -/
theorem pollLoop_addresses_iff {p : String} (hp : p ≠ "") (result : UCScanPlanResult)
    (retry_after_ms backoff_ms elapsed_ms : ℤ) {s s' : WireState}
    {r : Except Exception UCScanPlanResult}
    (h : (pollLoop t result retry_after_ms backoff_ms elapsed_ms).Exec (W := Wire) () s r s') :
    ∃ new, exchanges s'.events = exchanges s.events ++ new ∧
      (Addresses t p r new ↔ (result.status = .submitted → result.plan_id = p) ∧
        ∀ resp ∈ polled new, Renames p resp) := by
  induction result, retry_after_ms, backoff_ms, elapsed_ms using pollLoop.induct
    generalizing s s' r with
  | case1 result retry backoff elapsed hsub hbudget =>
    rw [pollLoop, if_pos hsub, if_pos hbudget] at h
    -- the budget is used up: the plan is cancelled under the id it has now
    obtain ⟨rfl, new, hnew, hg, hd⟩ := wire_abandon h
    refine ⟨new, hnew, ?_⟩
    have := addresses_abandon (α := UCScanPlanResult) (e := budgetExceeded t result.plan_id)
      (x := []) hp rfl hg hd (by simp [urls])
    rw [List.nil_append] at this
    rw [this, polled_eq_nil hg]
    simp [hsub]
  | case2 result retry backoff elapsed hsub hbudget sleep =>
    rename_i ih
    rw [pollLoop, if_pos hsub, if_neg hbudget] at h
    simp only [Prog.bind_eq, Prog.tryCatch_eq', Prog.exec_bind] at h
    rcases h with ⟨a, s₁, hround, h⟩ | ⟨e, hround, rfl⟩
    · -- a poll was answered: the loop goes on with the id in the answer
      obtain ⟨resp, hx, hacc, hparse⟩ := wire_round hround
      obtain ⟨new, hnew, hiff⟩ := ih a.1 a.2 h
      refine ⟨(pollRequest t result.plan_id, .ok resp) :: new, ?_, ?_⟩
      · rw [hnew, hx, List.append_assoc]
        rfl
      have hren : Renames p resp ↔ (a.1.status = .submitted → a.1.plan_id = p) := by
        refine ⟨fun h => h hacc a.1 hparse, ?_⟩
        intro h _ result hr
        rw [hparse] at hr
        cases hr
        exact h
      have hcons : Addresses t p r ((pollRequest t result.plan_id, .ok resp) :: new) ↔
          result.plan_id = p ∧ Addresses t p r new := by
        have hget : urls .get ((pollRequest t result.plan_id, .ok resp) :: new) =
            t.planIdUrl result.plan_id :: urls .get new := rfl
        have hdel : urls .delete ((pollRequest t result.plan_id, .ok resp) :: new) =
            urls .delete new := rfl
        simp only [Addresses, hget, hdel, List.forall_mem_cons, planIdUrl_inj, and_assoc]
      rw [hcons, hiff, ← hren, ← List.forall_mem_cons]
      exact ⟨fun hq => ⟨fun _ => hq.1, hq.2⟩, fun hq => ⟨hq.1 hsub, hq.2⟩⟩
    · -- the round threw: the plan is cancelled under the id that was polled
      obtain ⟨polls, cancel, hx, hpd, hpg, hrej, hg, hd⟩ := wire_round hround
      refine ⟨polls ++ cancel, hx, ?_⟩
      rw [addresses_abandon hp hpd hg hd hpg, polled_append, polled_eq_nil hg, List.append_nil]
      refine ⟨fun hq => ⟨fun _ => hq, ?_⟩, fun hq => hq.1 hsub⟩
      intro resp hresp hacc result hparse
      exact absurd hparse (hrej resp hresp hacc result)
  | case3 result retry backoff elapsed hsub =>
    rw [pollLoop, if_neg hsub] at h
    obtain ⟨rfl, rfl⟩ := h
    exact ⟨[], by simp, by simp [Addresses, urls, polled, hsub]⟩

theorem planBody_method (filter_json : String) : (planBody filter_json).method = .post := by
  have h : (if filter_json = "" then "\x7b\"case-sensitive\":false\x7d"
      else "\x7b\"case-sensitive\":false,\"filter\":" ++ filter_json ++ "\x7d") ≠ "" := by
    split <;> simp
  rw [planBody, RequestBody.method, if_neg h]

/-- The response submits plan `p`. An empty id is how the code holds a missing one. -/
def Submits (p : String) (resp : HttpResponse) : Prop :=
  resp.accepted statusInvalid = true ∧ p ≠ "" ∧
    ∃ result, parseScanPlanResponse resp.body = .ok result ∧ result.status = .submitted ∧
      result.plan_id = p

/-- **A planning run stays with the plan it submitted exactly if every answer that keeps it polling
names that plan again.** -/
theorem planTableScan_addresses_iff {filter_json p : String} {resp : HttpResponse}
    {r : Except Exception UCScanPlanResult}
    (h : (UCAPI.planTableScan t filter_json).Exec (W := Wire) () {} r s')
    (hfirst : (exchanges s'.events).head? =
      some (⟨.post, t.planUrl, t.credentials.token, planBody filter_json⟩, .ok resp))
    (hp : Submits p resp) :
    Addresses t p r (exchanges s'.events) ↔
      ∀ answer ∈ polled (exchanges s'.events), Renames p answer := by
  obtain ⟨hacc, hp, result, hparse, hsub, hid⟩ := hp
  have hempty : exchanges ({} : WireState).events = [] := rfl
  simp only [UCAPI.planTableScan, Prog.bind_eq, Prog.exec_bind, Prog.exec_ofExcept] at h
  rcases h with ⟨resp', s₁, hm, h⟩ | ⟨e, hm, rfl⟩
  · rcases wire_makeRequestResp hm with ⟨e, he, -⟩ | ⟨x, hx, rfl, -⟩
    · cases he
    -- the first exchange is the submission
    have first : ∀ new, exchanges s'.events = exchanges s₁.events ++ new →
        resp' = resp ∧ exchanges s'.events =
          (⟨.post, t.planUrl, t.credentials.token, planBody filter_json⟩, .ok resp) :: new := by
      intro new hnew
      rw [hx, exchanges_append, exchanges_exchange, planBody_method, hempty, List.nil_append]
        at hnew
      rw [hnew] at hfirst
      obtain ⟨-, hresp⟩ := Prod.mk.inj (Option.some.inj hfirst)
      obtain rfl := Except.ok.inj hresp
      exact ⟨rfl, hnew⟩
    rcases h with ⟨result', s₂, ⟨hr, rfl⟩, h⟩ | ⟨e, ⟨hr, rfl⟩, rfl⟩
    · obtain ⟨new, hnew, hiff⟩ := pollLoop_addresses_iff hp _ _ _ _ h
      obtain ⟨rfl, hall⟩ := first new hnew
      rw [hparse] at hr
      cases hr
      rw [hall]
      have hpost : Addresses t p r ((⟨.post, t.planUrl, t.credentials.token,
          planBody filter_json⟩, .ok resp') :: new) ↔ Addresses t p r new := Iff.rfl
      rw [hpost, hiff]
      exact ⟨fun hq => hq.2, fun hq => ⟨fun _ => hid, hq⟩⟩
    · obtain ⟨rfl, -⟩ := first [] (List.append_nil _).symm
      rw [hparse] at hr
      cases hr
  · rcases wire_makeRequestResp hm with ⟨e', -, hs⟩ | ⟨x, hx, hrej⟩
    · -- the submission was not answered, so no answer was accepted
      rw [hs] at hfirst
      cases hfirst
    · rw [hx, exchanges_append, exchanges_exchange, hempty, List.nil_append] at hfirst
      obtain ⟨-, rfl⟩ := Prod.mk.inj (Option.some.inj hfirst)
      rw [hrej resp rfl] at hacc
      cases hacc

end

/-! ### A plan that is lost

A server that answers the first poll with `submitted` and no id, as the specification's `submitted`
body carries none, and a user who cancels right after. -/

section

variable {t : ScanTarget} {s : WireState}

theorem wire_respond {url token : String} {body : RequestBody} {tolerated : ℕ}
    {resp : HttpResponse} (hacc : resp.accepted tolerated = true) :
    (makeRequestResp url token body tolerated).Exec (W := Wire) () s (.ok resp)
      ⟨none, s.events ++ [.exchange ⟨body.method, url, token, body⟩ (.ok resp)]⟩ := by
  refine Prog.exec_bind.2 (.inl ⟨(), s, wire_ensureHttpfs.2 rfl, ?_⟩)
  refine Prog.exec_bind.2 (.inl ⟨(), _, wire_issue.2 ⟨rfl, rfl⟩, ?_⟩)
  refine Prog.exec_bind.2 (.inl ⟨resp, _, (wire_answer rfl).2 rfl, ?_⟩)
  rw [if_neg]
  · exact ⟨rfl, rfl⟩
  · simpa [HttpResponse.accepted, or_iff_not_imp_left] using hacc

/-- One chunk is slept through. -/
theorem wire_sleep_100 :
    (sleepInChunks 100 0).Exec (W := Wire) () s (.ok ())
      { s with events := s.events ++ [.check, .slept 100] } := by
  rw [sleepInChunks, if_pos (by decide)]
  refine Prog.exec_bind.2 (.inl ⟨(), _, Prog.exec_perform.2 ⟨.proceed, rfl⟩, ?_⟩)
  refine Prog.exec_bind.2 (.inl ⟨(), _, Prog.exec_perform.2 ⟨.proceed, rfl⟩, ?_⟩)
  rw [sleepInChunks, if_neg (by decide)]
  refine ⟨rfl, ?_⟩
  simp [pollMinSleepMs]

/-- A sleep is cancelled before its first chunk. -/
theorem wire_cancelled {sleep_ms : ℤ} (hpos : 0 < sleep_ms) :
    (sleepInChunks sleep_ms 0).Exec (W := Wire) () s (.error interruptException)
      { s with events := s.events ++ [.check] } := by
  rw [sleepInChunks, if_pos hpos]
  exact Prog.exec_bind.2
    (.inr ⟨_, Prog.exec_perform.2 ⟨.fail interruptException, rfl⟩, rfl⟩)

/-- A round whose poll is answered. -/
theorem wire_polled {q : String} {poll : HttpResponse} {result : UCScanPlanResult}
    (hp : poll.accepted statusInvalid = true)
    (hpp : parseScanPlanResponse poll.body = .ok result) :
    (Prog.tryCatch ((sleepInChunks 100 0).bind fun _ => fetchPlanningResult t q)
      (abandon t q)).Exec (W := Wire) () s (.ok (result, parseRetryAfterMs poll))
      ⟨none, s.events ++ [.check, .slept 100] ++ [.exchange (pollRequest t q) (.ok poll)]⟩ := by
  refine Prog.exec_tryCatch.2 (.inl ⟨_, ?_, rfl⟩)
  refine Prog.exec_bind.2 (.inl ⟨(), _, wire_sleep_100, ?_⟩)
  refine Prog.exec_bind.2 (.inl ⟨poll, _, wire_respond hp, ?_⟩)
  exact Prog.exec_bind.2 (.inl ⟨_, _, Prog.exec_ofExcept.2 ⟨hpp.symm, rfl⟩, rfl, rfl⟩)

/-- Two rounds: the first poll is answered without an id, the second is cancelled. No cancel goes
out for the plan that was submitted. -/
theorem lost_run (filter_json : String) {p : String} {submission poll : HttpResponse}
    (hs : submission.accepted statusInvalid = true) (hp : poll.accepted statusInvalid = true)
    (hsp : parseScanPlanResponse submission.body = .ok { status := .submitted, plan_id := p })
    (hpp : parseScanPlanResponse poll.body = .ok { status := .submitted })
    (hsr : parseRetryAfterMs submission = -1) :
    (UCAPI.planTableScan t filter_json).Exec (W := Wire) () {} (.error interruptException)
      ⟨none, [.exchange ⟨.post, t.planUrl, t.credentials.token, planBody filter_json⟩
        (.ok submission), .check, .slept 100, .exchange (pollRequest t p) (.ok poll), .check]⟩ := by
  have hsleep : sleepMs (-1) pollMinSleepMs = 100 := by decide
  refine Prog.exec_bind.2 (.inl ⟨submission, _, wire_respond hs, ?_⟩)
  refine Prog.exec_bind.2 (.inl ⟨_, _, Prog.exec_ofExcept.2 ⟨hsp.symm, rfl⟩, ?_⟩)
  rw [pollLoop, if_pos rfl, if_neg (by decide), hsr, hsleep]
  refine Prog.exec_bind.2 (.inl ⟨_, _, wire_polled hp hpp, ?_⟩)
  have hpos : 0 < sleepMs (parseRetryAfterMs poll) (min (pollMinSleepMs * 2) pollMaxSleepMs) :=
    Int.lt_of_lt_of_le (b := pollMinSleepMs) (by decide) (pollMinSleepMs_le_sleepMs _ _)
  dsimp only
  rw [pollLoop, if_pos rfl, if_neg (by decide)]
  refine Prog.exec_bind.2 (.inr ⟨_, ?_, rfl⟩)
  refine Prog.exec_tryCatch.2
    (.inr ⟨_, _, Prog.exec_bind.2 (.inr ⟨_, wire_cancelled hpos, rfl⟩), ?_⟩)
  refine ⟨rfl, ?_⟩
  rw [planBody_method]
  rfl

end

/-- The planned table. -/
def lostScan : ScanTarget where
  catalog_name := "c"
  schema_name := "s"
  table_name := "t"
  credentials := { endpoint := "http://uc", token := "", use_irc_scan_plan := true }
  scan_plan_endpoint := "http://irc"

/-- The submission: plan `p1`. -/
def lostSubmission : HttpResponse :=
  ⟨200, true, "", [], "\x7b\"status\":\"submitted\",\"plan-id\":\"p1\"\x7d"⟩

/-- The answer to the first poll. -/
def lostPoll : HttpResponse := ⟨200, true, "", [], "\x7b\"status\":\"submitted\"\x7d"⟩

theorem lostSubmission_parse :
    parseScanPlanResponse lostSubmission.body = .ok { status := .submitted, plan_id := "p1" } := by
  decide +kernel

theorem lostPoll_parse : parseScanPlanResponse lostPoll.body = .ok { status := .submitted } := by
  decide +kernel

theorem lostSubmission_submits : Submits "p1" lostSubmission :=
  ⟨rfl, by decide, _, lostSubmission_parse, rfl, rfl⟩

/-- The first poll's answer leads the loop to the plan with no id, and no cancel goes out. -/
theorem planTableScan_loses_plan :
    ∃ (r : Except Exception UCScanPlanResult) (s' : WireState),
      (UCAPI.planTableScan lostScan "").Exec (W := Wire) () {} r s' ∧
        (exchanges s'.events).head? =
          some (⟨.post, lostScan.planUrl, lostScan.credentials.token, planBody ""⟩,
            .ok lostSubmission) ∧
        Submits "p1" lostSubmission ∧ ¬ Addresses lostScan "p1" r (exchanges s'.events) := by
  refine ⟨_, _, lost_run _ rfl rfl lostSubmission_parse lostPoll_parse (by decide), rfl,
    lostSubmission_submits, ?_⟩
  rintro ⟨-, hd⟩
  cases hd

theorem planTableScan_addresses_iff_lost :
    ∃ (r : Except Exception UCScanPlanResult) (s' : WireState),
      (UCAPI.planTableScan lostScan "").Exec (W := Wire) () {} r s' ∧
        (Addresses lostScan "p1" r (exchanges s'.events) ↔
          ∀ answer ∈ polled (exchanges s'.events), Renames "p1" answer) :=
  have h := lost_run (t := lostScan) "" rfl rfl lostSubmission_parse
    lostPoll_parse (by decide)
  ⟨_, _, h, planTableScan_addresses_iff h rfl lostSubmission_submits⟩

end UnityCatalog
