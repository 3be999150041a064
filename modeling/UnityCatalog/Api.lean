import UnityCatalog.Client

/-!
# Requests to Unity Catalog

`uc_api.cpp` without its scan-plan half: the one place requests go through, the reading of JSON
answers, and the calls that load, update, look up and register a table. Each call is a program that
asks for a URL and a pure `decode…` of the body it is answered with; the debug log lines and the
assertions of debug builds are left out.
-/

namespace UnityCatalog

open Effectful Yyjson

/-! ## Texts and integers -/

/-- `StringUtil::Lower` -/
def lower (s : String) : String := String.ofList (s.toList.map Char.toLower)

/-- A cast to `int64_t`. -/
def int64 (n : ℕ) : ℤ := Int.bmod n (2 ^ 64)

theorem int64_eq {n : ℕ} (h : n < 2 ^ 64) :
    int64 n = if n < 2 ^ 63 then (n : ℤ) else (n : ℤ) - 2 ^ 64 := by
  have h' : n < 18446744073709551616 := h
  show Int.bmod n 18446744073709551616 =
    if n < 9223372036854775808 then (n : ℤ) else n - 18446744073709551616
  rw [Int.bmod_def]
  push_cast
  split <;> split <;> omega

/-- The value of `optional_idx(n)`: `DConstants::INVALID_INDEX` is not one. -/
def optionalIdx (n : ℕ) : Except Exception ℕ :=
  if n = 2 ^ 64 - 1 then
    throw (internalException "optional_idx cannot be initialized with an invalid index")
  else pure n

/-- `UCCredentials` -/
structure UCCredentials where
  endpoint : String
  token : String
  /-- opt-in to the server-side scan-plan read path -/
  use_irc_scan_plan : Bool := false
  aws_region : String := ""
  /-- hidden test override -/
  irc_endpoint_override : String := ""

/-- Inversion for sequencing in `Except`. -/
theorem except_bind_eq_ok {ε α β : Type} {x : Except ε α} {f : α → Except ε β} {b : β} :
    x >>= f = .ok b ↔ ∃ a, x = .ok a ∧ f a = .ok b := by
  cases x with
  | ok a => exact ⟨fun h => ⟨a, rfl, h⟩, fun ⟨_, ha, h⟩ => Except.ok.inj ha ▸ h⟩
  | error e => exact ⟨nofun, fun ⟨_, h, _⟩ => nomatch h⟩

/-- A decoder along an array. -/
theorem mapM_eq_ok {ε α β : Type} {f : α → Except ε β} {xs : List α} :
    ∀ {ys : List β}, xs.mapM f = .ok ys ↔ xs.map f = ys.map .ok := by
  induction xs with
  | nil =>
    intro ys
    constructor
    · intro h
      obtain rfl := Except.ok.inj h
      rfl
    · intro h
      rw [List.map_eq_nil_iff.1 h.symm]
      rfl
  | cons x xs ih =>
    intro ys
    rw [List.mapM_cons, except_bind_eq_ok]
    constructor
    · rintro ⟨y, hy, h⟩
      obtain ⟨ys', hys, h⟩ := except_bind_eq_ok.1 h
      obtain rfl := Except.ok.inj h
      rw [List.map_cons, List.map_cons, hy, ih.1 hys]
    · intro h
      cases ys with
      | nil => cases h
      | cons y ys =>
        obtain ⟨hy, hys⟩ := List.cons.inj h
        exact ⟨y, hy, except_bind_eq_ok.2 ⟨ys, ih.2 hys, rfl⟩⟩

/-! ## Requests -/

/-- The error a failed response becomes. -/
def requestFailed (url : String) (resp : HttpResponse) : Exception :=
  ioException ("Request to '" ++ url ++ "' failed (HTTP " ++ toString resp.status ++ "): " ++
    resp.error ++ "\nResponse body: " ++ if resp.body = "" then "(empty)" else resp.body)

/-- A request without a body goes out as a GET. -/
def RequestBody.method : RequestBody → Method
  | .empty => .get
  | .text s => if s = "" then .get else .post
  | _ => .post

/-- `MakeRequestResp`: throws on every response that is no success, `tolerated` apart. -/
def makeRequestResp (url token : String) (body : RequestBody) (tolerated : ℕ) :
    Run HttpResponse := do
  ensureHttpfs
  issue ⟨body.method, url, token, body⟩
  let resp ← answer
  if !resp.success && resp.status != tolerated then throw (requestFailed url resp)
  else return resp

/-- `MakeRequestResp` hands a response on. -/
def HttpResponse.accepted (resp : HttpResponse) (tolerated : ℕ) : Bool :=
  resp.success || resp.status == tolerated

/-- What `MakeRequestResp` makes of what the HTTP layer returns. -/
def checkResponse (url : String) (tolerated : ℕ) :
    Except Exception HttpResponse → Except Exception HttpResponse
  | .ok resp => if resp.accepted tolerated then .ok resp else .error (requestFailed url resp)
  | .error e => .error e

/-- What a caller of `MakeRequest` that decodes the body makes of a response. -/
def HttpResponse.decoded {α : Type} (resp : HttpResponse) (url : String)
    (decode : Option Val → Except Exception α) : Except Exception α :=
  if resp.accepted statusInvalid then decode (read resp.body) else .error (requestFailed url resp)

/-- `MakeRequest`, for callers that only need the body. -/
def makeRequest (url token : String) (body : RequestBody) : Run String := do
  let resp ← makeRequestResp url token body statusInvalid
  return resp.body

/-- A request and what its caller makes of the response, operation by operation. -/
theorem makeRequestResp_bind_eq {α : Type} {url token : String} {body : RequestBody} {tolerated : ℕ}
    {f : HttpResponse → Except Exception α} :
    ((makeRequestResp url token body tolerated).bind fun resp => Prog.ofExcept (f resp)) =
      ensureHttpfs.bind fun _ => (issue ⟨body.method, url, token, body⟩).bind fun _ =>
        answer.bind fun resp =>
          Prog.ofExcept ((checkResponse url tolerated (.ok resp)).bind f) := by
  simp only [makeRequestResp, Prog.bind_eq, Prog.bind_assoc]
  refine congrArg _ (funext fun _ =>
    congrArg _ (funext fun _ => congrArg _ (funext fun resp => ?_)))
  rw [checkResponse, HttpResponse.accepted]
  cases resp.success
  · by_cases hs : resp.status = tolerated
    · simp [hs, Except.bind]
    · simp [hs, Prog.ofExcept, Except.bind]
  · simp [Except.bind]

/-- `MakeRequest` and decoding the body, operation by operation. -/
theorem makeRequest_decode_eq {α : Type} {url token : String} {body : RequestBody}
    {decode : Option Val → Except Exception α} :
    ((makeRequest url token body).bind fun b => Prog.ofExcept (decode (read b))) =
      ensureHttpfs.bind fun _ => (issue ⟨body.method, url, token, body⟩).bind fun _ =>
        answer.bind fun resp => Prog.ofExcept (resp.decoded url decode) := by
  have h : ((makeRequest url token body).bind fun b => Prog.ofExcept (decode (read b))) =
      (makeRequestResp url token body statusInvalid).bind fun resp =>
        Prog.ofExcept (decode (read resp.body)) := by
    simp only [makeRequest, Prog.bind_eq, Prog.bind_assoc, Prog.pure_eq, Prog.ret_bind]
  rw [h, makeRequestResp_bind_eq]
  refine congrArg _ (funext fun _ =>
    congrArg _ (funext fun _ => congrArg _ (funext fun resp => ?_)))
  rw [HttpResponse.decoded, checkResponse]
  split <;> rfl

section

variable {W : World Client Exception} {c : W.Ctx} {s s' : W.State} {url token : String}
variable {body : RequestBody} {tolerated : ℕ}

/-- `MakeRequestResp`: the request goes out and the answer is checked, or the call fails before. -/
theorem exec_makeRequestResp {r : Except Exception HttpResponse} :
    (makeRequestResp url token body tolerated).Exec c s r s' ↔
      (∃ s₁ s₂, ensureHttpfs.Exec c s (.ok ()) s₁ ∧
        (issue ⟨body.method, url, token, body⟩).Exec c s₁ (.ok ()) s₂ ∧
        ∃ x, answer.Exec c s₂ x s' ∧ r = checkResponse url tolerated x) ∨
      (∃ e, r = .error e ∧ ensureHttpfs.Exec c s (.error e) s') ∨
      ∃ e s₁, r = .error e ∧ ensureHttpfs.Exec c s (.ok ()) s₁ ∧
        (issue ⟨body.method, url, token, body⟩).Exec c s₁ (.error e) s' := by
  have checked : ∀ (s₂ : W.State) (r : Except Exception HttpResponse),
      (answer.bind fun resp =>
        if !resp.success && resp.status != tolerated then throw (requestFailed url resp)
        else pure resp : Run HttpResponse).Exec c s₂ r s' ↔
      ∃ x, answer.Exec c s₂ x s' ∧ r = checkResponse url tolerated x := by
    intro s₂ r
    have hif : ∀ resp s₃, ((if !resp.success && resp.status != tolerated then
        throw (requestFailed url resp) else pure resp : Run HttpResponse)).Exec c s₃ r s' ↔
        r = checkResponse url tolerated (.ok resp) ∧ s' = s₃ := by
      intro resp s₃
      rw [checkResponse, HttpResponse.accepted]
      cases resp.success
      · by_cases hs : resp.status = tolerated
        · simp [hs]
        · simp [hs]
      · simp
    simp only [Prog.exec_bind, hif]
    constructor
    · rintro (⟨resp, s₃, ha, hr, rfl⟩ | ⟨e, ha, rfl⟩)
      · exact ⟨.ok resp, ha, hr⟩
      · exact ⟨.error e, ha, rfl⟩
    · rintro ⟨x, ha, rfl⟩
      cases x with
      | ok resp => exact .inl ⟨resp, s', ha, rfl, rfl⟩
      | error e => exact .inr ⟨e, ha, rfl⟩
  rw [makeRequestResp, Prog.bind_eq, Prog.exec_bind]
  simp only [Prog.bind_eq, Prog.exec_bind (p := issue _), checked]
  constructor
  · rintro (⟨_, s₁, he, ⟨_, s₂, hi, hx⟩ | ⟨e, hi, rfl⟩⟩ | ⟨e, he, rfl⟩)
    · exact .inl ⟨s₁, s₂, he, hi, hx⟩
    · exact .inr (.inr ⟨e, s₁, rfl, he, hi⟩)
    · exact .inr (.inl ⟨e, rfl, he⟩)
  · rintro (⟨s₁, s₂, he, hi, hx⟩ | ⟨e, rfl, he⟩ | ⟨e, s₁, rfl, he, hi⟩)
    · exact .inl ⟨(), s₁, he, .inl ⟨(), s₂, hi, hx⟩⟩
    · exact .inr ⟨e, he, rfl⟩
    · exact .inl ⟨(), s₁, he, .inr ⟨e, hi, rfl⟩⟩

/-- `MakeRequest` and decoding the body. -/
theorem exec_makeRequest_decode {α : Type} {decode : Option Val → Except Exception α}
    {r : Except Exception α} :
    ((makeRequest url token body).bind fun b => Prog.ofExcept (decode (read b))).Exec c s r s' ↔
      ∃ y, (makeRequestResp url token body statusInvalid).Exec c s y s' ∧
        r = y.bind fun resp => decode (read resp.body) := by
  simp only [makeRequest, Prog.bind_eq, Prog.exec_bind, Prog.exec_ofExcept]
  constructor
  · rintro (⟨b, s₁, ⟨resp, s₂, hy, hb⟩ | ⟨e, hy, he⟩, rfl, rfl⟩ | ⟨e,
      ⟨resp, s₂, -, he⟩ | ⟨e', hy, he⟩, rfl⟩)
    · obtain ⟨hb, rfl⟩ := hb
      cases hb
      exact ⟨.ok resp, hy, rfl⟩
    · cases he
    · cases he.1
    · cases he
      exact ⟨.error e, hy, rfl⟩
  · rintro ⟨y, hy, rfl⟩
    cases y with
    | ok resp => exact .inl ⟨resp.body, s', .inl ⟨resp, s', hy, rfl, rfl⟩, rfl, rfl⟩
    | error e => exact .inr ⟨e, .inr ⟨e, hy, rfl⟩, rfl⟩

theorem checkResponse_bind {α : Type} {decode : Option Val → Except Exception α}
    (x : Except Exception HttpResponse) :
    ((checkResponse url statusInvalid x).bind fun resp => decode (read resp.body)) =
      x.bind fun resp => resp.decoded url decode := by
  cases x with
  | ok resp =>
    simp only [checkResponse, HttpResponse.decoded, Except.bind]
    split <;> rename_i h <;> split at h <;> simp_all
  | error e => rfl

end

/-! ## Reading answers -/

/-- The error of `TemplatedTryGetYYJson`. -/
def invalidField (field : String) : Exception :=
  ioException ("Invalid field found while parsing field: " ++ field)

/-- `TemplatedTryGetYYJson`: a member of the wrong type throws; an absent or null one throws where
it is required and is the default elsewhere. -/
def templatedTryGetYYJson {α : Type} (is_type : Option Val → Bool) (get : Option Val → α)
    (obj : Option Val) (field : String) (default_val : α) (fail_on_missing : Bool) :
    Except Exception α :=
  let val := objGet obj field
  if val.isSome && !isNull val then
    if is_type val then pure (get val) else throw (invalidField field)
  else if fail_on_missing then throw (invalidField field)
  else pure default_val

/-- `TryGetNumFromObject` -/
def tryGetNumFromObject (obj : Option Val) (field : String) (fail_on_missing : Bool := true)
    (default_val : ℕ := 0) : Except Exception ℕ :=
  templatedTryGetYYJson isNum getUint obj field default_val fail_on_missing

/-- `TryGetStrFromObject`; the text goes through a `const char *`. -/
def tryGetStrFromObject (obj : Option Val) (field : String) (fail_on_missing : Bool := true) :
    Except Exception String :=
  templatedTryGetYYJson (fun v => (getStr v).isSome) (fun v => cString ((getStr v).getD ""))
    obj field "" fail_on_missing

/-- `UCAPIError` -/
structure UCAPIError where
  error_code : String := ""
  message : String := ""

/-- `HasError` -/
def UCAPIError.hasError (e : UCAPIError) : Bool := e.error_code != ""

/-- `IsAlreadyExists` -/
def UCAPIError.isAlreadyExists (e : UCAPIError) : Bool :=
  e.error_code == "AlreadyExistsException" || e.error_code == "ALREADY_EXISTS" ||
    e.error_code == "TABLE_ALREADY_EXISTS"

/-- What `ThrowError` throws. -/
def UCAPIError.exception (e : UCAPIError) (pre : String) : Exception :=
  ioException (pre ++ ". error_code: " ++ e.error_code ++ ", message: " ++ e.message)

/-- `if (error.HasError()) error.ThrowError(...)` -/
def UCAPIError.throwIfError (e : UCAPIError) (pre : String) : Except Exception Unit :=
  if e.hasError then throw (e.exception pre) else pure ()

/-- `CheckError`: the v1 format first, then the legacy one. -/
def checkError (api_result : Option Val) : Except Exception UCAPIError := do
  let error_obj := objGet api_result "error"
  let message ← if isObj error_obj then tryGetStrFromObject error_obj "message" false else pure ""
  if message != "" then
    let type ← tryGetStrFromObject error_obj "type" false
    return ⟨if type = "" then "error" else type, message⟩
  let error_code ← tryGetStrFromObject api_result "error_code" false
  if error_code != "" then
    let message ← tryGetStrFromObject api_result "message" false
    return ⟨error_code, if message = "" then "-" else message⟩
  return {}

/-- What is no object has no members to get. -/
theorem tryGetStr_of_not_isObj {v : Option Val} (h : ¬ isObj v = true) (field : String) :
    tryGetStrFromObject v field false = .ok "" := by
  rcases v with _ | v
  · rfl
  · cases v with
    | obj ms => exact absurd rfl h
    | _ => rfl

/-- `CheckError`, getter by getter: an `error` that is no object has no message. -/
theorem checkError_eq (root : Option Val) :
    checkError root =
      (tryGetStrFromObject (objGet root "error") "message" false).bind fun message =>
        if message != "" then
          (tryGetStrFromObject (objGet root "error") "type" false).bind fun type =>
            .ok ⟨if type = "" then "error" else type, message⟩
        else
          (tryGetStrFromObject root "error_code" false).bind fun error_code =>
            if error_code != "" then
              (tryGetStrFromObject root "message" false).bind fun message =>
                .ok ⟨error_code, if message = "" then "-" else message⟩
            else .ok {} := by
  rw [checkError]
  split
  · rfl
  · rename_i h
    rw [tryGetStr_of_not_isObj h "message"]
    rfl

/-- What a text getter throws names the field. -/
theorem tryGetStr_error {obj : Option Val} {field : String} {fail_on_missing : Bool} {e : Exception}
    (h : tryGetStrFromObject obj field fail_on_missing = .error e) : e = invalidField field := by
  simp only [tryGetStrFromObject, templatedTryGetYYJson] at h
  split at h
  · split at h
    · cases h
    · exact (Except.error.inj h).symm
  · split at h
    · exact (Except.error.inj h).symm
    · cases h

/-- `CheckError` itself throws only for a member of another type. -/
theorem checkError_error {root : Option Val} {e : Exception} (h : checkError root = .error e) :
    ∃ field, e = invalidField field := by
  rw [checkError_eq] at h
  cases hm : tryGetStrFromObject (objGet root "error") "message" false with
  | error e' =>
    rw [hm] at h
    exact ⟨_, (Except.error.inj h) ▸ tryGetStr_error hm⟩
  | ok message =>
    rw [hm] at h
    simp only [Except.bind] at h
    split at h
    · cases ht : tryGetStrFromObject (objGet root "error") "type" false with
      | error e' =>
        rw [ht] at h
        exact ⟨_, (Except.error.inj h) ▸ tryGetStr_error ht⟩
      | ok type =>
        rw [ht] at h
        cases h
    · cases hc : tryGetStrFromObject root "error_code" false with
      | error e' =>
        rw [hc] at h
        exact ⟨_, (Except.error.inj h) ▸ tryGetStr_error hc⟩
      | ok code =>
        rw [hc] at h
        simp only at h
        split at h
        · cases ht : tryGetStrFromObject root "message" false with
          | error e' =>
            rw [ht] at h
            exact ⟨_, (Except.error.inj h) ▸ tryGetStr_error ht⟩
          | ok text =>
            rw [ht] at h
            cases h
        · cases h

/-- A table's name with its catalog and schema, as messages and URLs spell it. -/
def qualified (catalog_name schema_name table_name : String) : String :=
  catalog_name ++ "." ++ schema_name ++ "." ++ table_name

/-- The Delta v1 URL of a schema. -/
def schemaUrl (credentials : UCCredentials) (catalog_name schema_name : String) : String :=
  credentials.endpoint ++ "/api/2.1/unity-catalog/delta/v1/catalogs/" ++ catalog_name ++
    "/schemas/" ++ schema_name

/-- The Delta v1 URL of a table. -/
def tableUrl (credentials : UCCredentials) (catalog_name schema_name table_name : String) :
    String :=
  schemaUrl credentials catalog_name schema_name ++ "/tables/" ++ table_name

/-! ## `UCAPI::CreateTable` and `UCAPI::TableExists` -/

/-- What `CreateTable` makes of the response. -/
def decodeCreateTable (catalog_name schema_name : String) (table : UCAPICommittedTable)
    (url : String) (response : HttpResponse) : Except Exception Unit := do
  let error ← checkError (read response.body)
  if error.hasError then
    if error.isAlreadyExists then throw (entryAlreadyExists table.name)
    throw (error.exception
      ("Failed to create table " ++ qualified catalog_name schema_name table.name))
  if !response.success then throw (requestFailed url response)

/-- Where `WireSchema` throws; the keys it renames are left to the body. -/
def UCAPI.wireSchema (schema_json : String) : Except Exception Unit :=
  if (read schema_json).isNone then
    throw (invalidInputException "could not parse the table schema written to the Delta log")
  else pure ()

/-- `UCAPI::CreateTable` -/
def UCAPI.createTable (catalog_name schema_name : String) (table : UCAPICommittedTable)
    (table_type : String) (credentials : UCCredentials) : Run Unit := do
  let url := schemaUrl credentials catalog_name schema_name ++ "/tables"
  Prog.ofExcept (UCAPI.wireSchema table.schema_json)
  let response ← makeRequestResp url credentials.token (.registerTable table table_type) 409
  Prog.ofExcept (decodeCreateTable catalog_name schema_name table url response)

/-- The URL a table is looked up at. -/
def lookupUrl (credentials : UCCredentials) (catalog_name schema_name table_name : String) :
    String :=
  credentials.endpoint ++ "/api/2.1/unity-catalog/tables/" ++
    qualified catalog_name schema_name table_name

/-- `UCAPI::TableExists`: false on a 404. -/
def UCAPI.tableExists (catalog_name schema_name table_name : String)
    (credentials : UCCredentials) : Run Bool := do
  let url := lookupUrl credentials catalog_name schema_name table_name
  let response ← makeRequestResp url credentials.token .empty 404
  return response.status != 404

/-- What `UCAPI::TableExists` makes of a response. -/
def HttpResponse.tableFound (resp : HttpResponse) (url : String) : Except Exception Bool :=
  (checkResponse url 404 (.ok resp)).bind fun resp => .ok (resp.status != 404)

theorem UCAPI.tableExists_eq (catalog_name schema_name table_name : String)
    (credentials : UCCredentials) :
    UCAPI.tableExists catalog_name schema_name table_name credentials =
      ensureHttpfs.bind fun _ =>
        (issue ⟨.get, lookupUrl credentials catalog_name schema_name table_name, credentials.token,
          .empty⟩).bind fun _ =>
        answer.bind fun resp => Prog.ofExcept
          (resp.tableFound (lookupUrl credentials catalog_name schema_name table_name)) :=
  makeRequestResp_bind_eq (f := fun resp => .ok (resp.status != 404))

/-- What `UCAPI::CreateTable` makes of a response. -/
def HttpResponse.tableCreated (resp : HttpResponse) (catalog_name schema_name : String)
    (table : UCAPICommittedTable) (url : String) : Except Exception Unit :=
  (checkResponse url 409 (.ok resp)).bind (decodeCreateTable catalog_name schema_name table url)

theorem UCAPI.createTable_eq (catalog_name schema_name : String) (table : UCAPICommittedTable)
    (table_type : String) (credentials : UCCredentials) :
    UCAPI.createTable catalog_name schema_name table table_type credentials =
      (Prog.ofExcept (UCAPI.wireSchema table.schema_json)).bind fun _ => ensureHttpfs.bind fun _ =>
        (issue ⟨.post, schemaUrl credentials catalog_name schema_name ++ "/tables",
          credentials.token, .registerTable table table_type⟩).bind fun _ =>
        answer.bind fun resp => Prog.ofExcept (resp.tableCreated catalog_name schema_name table
          (schemaUrl credentials catalog_name schema_name ++ "/tables")) :=
  congrArg _ (funext fun _ => makeRequestResp_bind_eq)

/-! ## `UCAPI::LoadTable` -/

/-- `UCAPICommitsResult` -/
structure UCAPICommitsResult where
  commits : List UCAPICommit := []
  table_uuid : String := ""
  location : String := ""
  ratified_version : ℕ := 0
  etag : String := ""
  deriving DecidableEq

/-- One item of `commits`. -/
def readCommit (commit : Option Val) : Except Exception UCAPICommit := do
  let version ← tryGetNumFromObject commit "version"
  let timestamp ← tryGetNumFromObject commit "timestamp"
  let file_name ← tryGetStrFromObject commit "file-name"
  let file_size ← tryGetNumFromObject commit "file-size"
  let modified ← tryGetNumFromObject commit "file-modification-timestamp"
  return ⟨version, int64 timestamp, file_name, int64 file_size, int64 modified⟩

/-- `max_commit_version` after the loop over the commits. -/
def maxCommitVersion (commits : List UCAPICommit) : ℕ :=
  commits.foldl (fun m c => if c.version > m then c.version else m) 0

/-- What `LoadTable` makes of the body. -/
def decodeLoadTable (catalog_name schema_name table_name : String) (root : Option Val) :
    Except Exception UCAPICommitsResult := do
  let error ← checkError root
  error.throwIfError ("Failed to load table " ++ qualified catalog_name schema_name table_name)
  let metadata := objGet root "metadata"
  let member (field : String) : Except Exception String :=
    if isObj metadata then tryGetStrFromObject metadata field false else pure ""
  let etag ← member "etag"
  let table_uuid ← member "table-uuid"
  let location ← member "location"
  let server_ltv ← tryGetNumFromObject root "latest-table-version" false 0
  let commits ← (items (objGet root "commits")).mapM fun commit => readCommit (some commit)
  let max_commit_version := maxCommitVersion commits
  let ratified_version :=
    if server_ltv > max_commit_version then server_ltv else max_commit_version
  return { commits, table_uuid, location, ratified_version, etag }

/-- `UCAPI::LoadTable` -/
def UCAPI.loadTable (catalog_name schema_name table_name : String) (credentials : UCCredentials) :
    Run UCAPICommitsResult := do
  let api_result ←
    makeRequest (tableUrl credentials catalog_name schema_name table_name) credentials.token .empty
  Prog.ofExcept (decodeLoadTable catalog_name schema_name table_name (read api_result))

/-! ## `UCAPI::UpdateTable` -/

/-- What `UpdateTable` makes of the body: the new etag, empty if there is none. -/
def decodeUpdateTable (catalog_name schema_name table_name : String) (root : Option Val) :
    Except Exception String := do
  let error ← checkError root
  error.throwIfError ("Failed to commit to " ++ qualified catalog_name schema_name table_name)
  let metadata := objGet root "metadata"
  if isObj metadata then tryGetStrFromObject metadata "etag" false else return ""

/-- `UCAPI::UpdateTable` -/
def UCAPI.updateTable (catalog_name schema_name table_name : String) (credentials : UCCredentials)
    (commit : AddCommit) : Run String := do
  let api_result ← makeRequest (tableUrl credentials catalog_name schema_name table_name)
    credentials.token (.addCommit commit)
  Prog.ofExcept (decodeUpdateTable catalog_name schema_name table_name (read api_result))

theorem UCAPI.loadTable_eq (catalog_name schema_name table_name : String)
    (credentials : UCCredentials) :
    UCAPI.loadTable catalog_name schema_name table_name credentials =
      ensureHttpfs.bind fun _ =>
        (issue ⟨.get, tableUrl credentials catalog_name schema_name table_name, credentials.token,
          .empty⟩).bind fun _ =>
        answer.bind fun resp => Prog.ofExcept (resp.decoded
          (tableUrl credentials catalog_name schema_name table_name)
          (decodeLoadTable catalog_name schema_name table_name)) :=
  makeRequest_decode_eq

theorem UCAPI.updateTable_eq (catalog_name schema_name table_name : String)
    (credentials : UCCredentials) (commit : AddCommit) :
    UCAPI.updateTable catalog_name schema_name table_name credentials commit =
      ensureHttpfs.bind fun _ =>
        (issue ⟨.post, tableUrl credentials catalog_name schema_name table_name, credentials.token,
          .addCommit commit⟩).bind fun _ =>
        answer.bind fun resp => Prog.ofExcept (resp.decoded
          (tableUrl credentials catalog_name schema_name table_name)
          (decodeUpdateTable catalog_name schema_name table_name)) :=
  makeRequest_decode_eq

/-! ## `UCAPI::GetTableCredentials` -/

/-- `UCAPITableCredentials` -/
structure UCAPITableCredentials where
  key_id : String := ""
  secret : String := ""
  session_token : String := ""
  deriving DecidableEq

/-- Three members of an object, as an S3 key. -/
def readKeys (cfg : Option Val) (key_id secret session_token : String) :
    Except Exception UCAPITableCredentials := do
  let key_id ← tryGetStrFromObject cfg key_id false
  let secret ← tryGetStrFromObject cfg secret false
  let session_token ← tryGetStrFromObject cfg session_token false
  return { key_id, secret, session_token }

/-- `ReadStorageCredentials`: the first entry only. -/
def readStorageCredentials (root : Option Val) : Except Exception UCAPITableCredentials :=
  match items (objGet root "storage-credentials") with
  | [] => pure {}
  | first :: _ =>
    let cfg := objGet (some first) "config"
    if isObj cfg then readKeys cfg "s3.access-key-id" "s3.secret-access-key" "s3.session-token"
    else pure {}

/-- What `GetTableCredentials` makes of the body. -/
def decodeTableCredentials (catalog_name schema_name table_name : String) (catalog_managed : Bool)
    (root : Option Val) : Except Exception UCAPITableCredentials := do
  let error ← checkError root
  error.throwIfError
    ("Failed to get table credentials for " ++ qualified catalog_name schema_name table_name)
  if catalog_managed then readStorageCredentials root
  else
    let aws := objGet root "aws_temp_credentials"
    if isObj aws then readKeys aws "access_key_id" "secret_access_key" "session_token" else pure {}

/-- Where `GetTableCredentials` asks: the v1 endpoint rejects tables UC does not manage the commits
of, which have one keyed by the table's id. -/
def tableCredentialsRequest (catalog_name schema_name table_name table_id operation : String)
    (catalog_managed : Bool) (credentials : UCCredentials) : String × RequestBody :=
  if catalog_managed then
    (tableUrl credentials catalog_name schema_name table_name ++ "/credentials?operation=" ++
      operation, .empty)
  else
    (credentials.endpoint ++ "/api/2.1/unity-catalog/temporary-table-credentials",
      .text ("\x7b\"table_id\": \"" ++ table_id ++ "\", \"operation\": \"" ++ operation ++
        "\"\x7d"))

/-- `UCAPI::GetTableCredentials` -/
def UCAPI.getTableCredentials (catalog_name schema_name table_name table_id : String)
    (catalog_managed write : Bool) (credentials : UCCredentials) : Run UCAPITableCredentials := do
  let (url, body) := tableCredentialsRequest catalog_name schema_name table_name table_id
    (if write then "READ_WRITE" else "READ") catalog_managed credentials
  let api_result ← makeRequest url credentials.token body
  Prog.ofExcept (decodeTableCredentials catalog_name schema_name table_name catalog_managed
    (read api_result))

end UnityCatalog
