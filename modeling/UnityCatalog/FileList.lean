import UnityCatalog.QueueOrder
import UnityCatalog.ScanPlan
import UnityCatalog.YyjsonText

/-!
# The lazy file list

`UCMultiFileList` and `UCAPI::FetchScanTasks`: the files of a plan come inline or behind tokens,
which are exchanged one at a time, as the scan asks for more files. The members a scan changes are
`mutable` in the source: here each member function returns the list it leaves, also where it throws.

`expansion_complete` is the whole-run result: the tokens are exchanged in queue order, each once,
and the list ends up with the files of all of them.
-/

namespace UnityCatalog

open Effectful Yyjson QueueOrder

/-! ## `UCAPI::FetchScanTasks` -/

/-- The URL tokens are exchanged at. -/
def ScanTarget.tasksUrl (t : ScanTarget) : String :=
  t.scan_plan_endpoint ++ "/v1/catalogs/" ++ t.catalog_name ++ "/namespaces/" ++ t.schema_name ++
    "/tables/" ++ t.table_name ++ "/tasks"

/-- A token as the body spells it. -/
def escaped (plan_task : String) : List Char :=
  plan_task.toList.flatMap fun c => if c = '"' ∨ c = '\\' then ['\\', c] else [c]

/-- The body a token is exchanged with. -/
def taskBody (plan_task : String) : RequestBody :=
  .text ("\x7b\"plan-task\":\"" ++ String.ofList (escaped plan_task) ++ "\"\x7d")

/-- What `FetchScanTasks` makes of the body: a bare object without a status. -/
def decodeScanTasks (url : String) (root : Option Val) : Except Exception UCScanPlanResult := do
  if root.isNone then
    throw (ioException ("Failed to parse fetchScanTasks response from '" ++ url ++ "'"))
  parseScanTasksPayload root { status := .completed }

/-- `UCAPI::FetchScanTasks` -/
def UCAPI.fetchScanTasks (t : ScanTarget) (plan_task : String) : Run UCScanPlanResult := do
  let resp ← makeRequest t.tasksUrl t.credentials.token (taskBody plan_task)
  Prog.ofExcept (decodeScanTasks t.tasksUrl (read resp))

/-- The request that exchanges a token. -/
def ScanTarget.taskRequest (t : ScanTarget) (plan_task : String) : HttpRequest :=
  ⟨.post, t.tasksUrl, t.credentials.token, taskBody plan_task⟩

theorem taskBody_method (plan_task : String) : (taskBody plan_task).method = .post := by
  rw [taskBody, RequestBody.method, if_neg]
  simp

theorem escaped_inj {k k' : String} : escaped k = escaped k' ↔ k = k' := by
  have hchars : ∀ cs cs' : List Char,
      (cs.flatMap fun c => if c = '"' ∨ c = '\\' then ['\\', c] else [c]) =
        (cs'.flatMap fun c => if c = '"' ∨ c = '\\' then ['\\', c] else [c]) → cs = cs' := by
    intro cs
    induction cs with
    | nil =>
      rintro (_ | ⟨c', cs'⟩) h
      · rfl
      · simp only [List.flatMap_nil, List.flatMap_cons] at h
        split at h <;> simp at h
    | cons c cs ih =>
      rintro (_ | ⟨c', cs'⟩) h
      · simp only [List.flatMap_nil, List.flatMap_cons] at h
        split at h <;> simp at h
      · simp only [List.flatMap_cons] at h
        -- only an escaped character starts with a backslash
        split at h <;> split at h
        · obtain ⟨rfl, htail⟩ := List.cons.inj (List.cons.inj h).2
          rw [ih cs' htail]
        · rename_i hc hc'
          exact absurd (.inr (List.cons.inj h).1.symm) hc'
        · rename_i hc hc'
          exact absurd (.inr (List.cons.inj h).1) hc
        · obtain ⟨rfl, htail⟩ := List.cons.inj h
          rw [ih cs' htail]
  constructor
  · intro h
    exact String.toList_inj.1 (hchars _ _ h)
  · rintro rfl
    rfl

/-- A request tells which token it exchanges. -/
theorem ScanTarget.taskRequest_inj {t : ScanTarget} {k k' : String} :
    t.taskRequest k = t.taskRequest k' ↔ k = k' := by
  simp [ScanTarget.taskRequest, taskBody, String.ofList_inj, escaped_inj]

/-! ## The list -/

/-- `OpenFileInfo`, with the option `file_size` -/
structure OpenFileInfo where
  path : String
  file_size : Option ℕ
  deriving DecidableEq

/-- `MakeOpenFileInfo` -/
def makeOpenFileInfo (df : UCScanPlanDataFile) : OpenFileInfo :=
  ⟨df.file_path,
    if df.file_size_in_bytes > 0 then some df.file_size_in_bytes.toNat else none⟩

/-- `UCMultiFileList` -/
structure UCMultiFileList where
  /-- the members its requests are made of -/
  target : ScanTarget
  expanded_files : List OpenFileInfo := []
  /-- parallel to `expanded_files` -/
  file_deletes : List (List UCScanDeleteFile) := []
  remaining_tokens : List String := []
  all_files_expanded : Bool := false

/-- The error of a reference that names no delete file. -/
def danglingReference (task : UCScanPlanFileScanTask) (ref size : ℕ) : Exception :=
  ioException ("scan-plan: file-scan-task for '" ++ task.data_file.file_path ++
    "' references delete-file index " ++ toString ref ++ ", but the response only carries " ++
    toString size ++ " delete file(s) — server response is malformed")

/-- The delete file a task's reference names. -/
def resolveReference (task : UCScanPlanFileScanTask) (all_delete_files : List UCScanDeleteFile)
    (ref : ℕ) : Except Exception UCScanDeleteFile :=
  match all_delete_files[ref]? with
  | some d => pure d
  | none => throw (danglingReference task ref all_delete_files.length)

namespace UCMultiFileList

/-- `AddFileScanTask`: the file is listed before its references are resolved. -/
def addFileScanTask (l : UCMultiFileList) (task : UCScanPlanFileScanTask)
    (all_delete_files : List UCScanDeleteFile) : Except Exception Unit × UCMultiFileList :=
  let l := { l with expanded_files := l.expanded_files ++ [makeOpenFileInfo task.data_file] }
  match task.delete_file_references.mapM (resolveReference task all_delete_files) with
  | .ok resolved => (.ok (), { l with file_deletes := l.file_deletes ++ [resolved] })
  | .error e => (.error e, l)

/-- `AddFileScanTask` along the tasks of one response. -/
def addFileScanTasks (l : UCMultiFileList) (all_delete_files : List UCScanDeleteFile) :
    List UCScanPlanFileScanTask → Except Exception Unit × UCMultiFileList
  | [] => (.ok (), l)
  | task :: tasks =>
    match l.addFileScanTask task all_delete_files with
    | (.ok (), l) => l.addFileScanTasks all_delete_files tasks
    | (.error e, l) => (.error e, l)

/-- The constructor. -/
def create (target : ScanTarget) (plan : UCScanPlanResult) : Except Exception UCMultiFileList :=
  match addFileScanTasks { target } plan.delete_files plan.file_scan_tasks with
  | (.ok (), l) => pure { l with
      remaining_tokens := plan.plan_tasks
      all_files_expanded := plan.plan_tasks.isEmpty }
  | (.error e, _) => throw e

/-- What a call of `ExpandNextPath` comes to: `none` where it is cut off. -/
abbrev Outcome : Type := Option (Except Exception Bool)

/-- What the `FetchScanTasks` calls of one `ExpandNextPath` come to, in order. -/
abbrev Answers := List (Except Exception UCScanPlanResult)

/-- What taking a response's tasks in comes to, as the end of a call. -/
def takeIn (l : UCMultiFileList) (result : UCScanPlanResult) : Outcome × UCMultiFileList :=
  match l.addFileScanTasks result.delete_files result.file_scan_tasks with
  | (.ok (), l) => (some (.ok true), l)
  | (.error e, l) => (some (.error e), l)

/-- `ExpandNextPath`, cut off after `fuel` tokens, with what its requests were answered. -/
def expandNextPathTelling : ℕ → UCMultiFileList → Run ((Outcome × UCMultiFileList) × Answers)
  | 0, l => return ((none, l), [])
  | fuel + 1, l =>
    match l.remaining_tokens with
    | [] => return ((some (.ok false), l), [])
    | token :: remaining_tokens => do
      let l := { l with remaining_tokens }
      let answer ← (UCAPI.fetchScanTasks l.target token).attempt
      match answer with
      | .error e => return ((some (.error e), l), [answer])
      | .ok result =>
        let l := { l with remaining_tokens := l.remaining_tokens ++ result.plan_tasks }
        if result.file_scan_tasks.isEmpty then
          let x ← expandNextPathTelling fuel l
          return (x.1, answer :: x.2)
        else return (l.takeIn result, [answer])

/-- `ExpandNextPath` -/
def expandNextPath (fuel : ℕ) (l : UCMultiFileList) : Run (Outcome × UCMultiFileList) := do
  let x ← l.expandNextPathTelling fuel
  return x.1

/-- One token of a call. -/
theorem expandNextPath_succ (fuel : ℕ) (l : UCMultiFileList) : l.expandNextPath (fuel + 1) =
    match l.remaining_tokens with
    | [] => return (some (.ok false), l)
    | token :: remaining_tokens => do
      let l := { l with remaining_tokens }
      match ← (UCAPI.fetchScanTasks l.target token).attempt with
      | .error e => return (some (.error e), l)
      | .ok result =>
        let l := { l with remaining_tokens := l.remaining_tokens ++ result.plan_tasks }
        if result.file_scan_tasks.isEmpty then expandNextPath fuel l
        else
          match l.addFileScanTasks result.delete_files result.file_scan_tasks with
          | (.ok (), l) => return (some (.ok true), l)
          | (.error e, l) => return (some (.error e), l) := by
  rw [expandNextPath, expandNextPathTelling]
  rcases l.remaining_tokens with _ | ⟨token, queue⟩
  · rfl
  · simp only [Prog.bind_eq, Prog.bind_assoc]
    refine congrArg _ (funext fun answer => ?_)
    cases answer with
    | error e => rfl
    | ok result =>
      dsimp only
      split
      · exact Prog.bind_assoc ..
      · simp only [takeIn, Prog.pure_eq, Prog.ret_bind]
        split <;> rfl

/-- Calls `ExpandNextPath` until it returns false; a throw ends the calls as well. -/
def expandUntilFalse (fuel : ℕ) : ℕ → UCMultiFileList → Run (Outcome × UCMultiFileList)
  | 0, l => return (none, l)
  | calls + 1, l => do
    let (outcome, l) ← l.expandNextPath fuel
    match outcome with
    | some (.ok true) => expandUntilFalse fuel calls l
    | _ => return (outcome, l)

end UCMultiFileList

/-! ## What the list takes in -/

/-- The tasks of a response, each with the delete files its references are about. -/
def UCScanPlanResult.carried (result : UCScanPlanResult) :
    List (UCScanPlanFileScanTask × List UCScanDeleteFile) :=
  result.file_scan_tasks.map fun task => (task, result.delete_files)

/-- Some task of the response references a delete file it does not carry. -/
def UCScanPlanResult.Dangling (result : UCScanPlanResult) : Prop :=
  ∃ task ∈ result.file_scan_tasks, ∃ ref ∈ task.delete_file_references,
    result.delete_files.length ≤ ref

/-- The files a list of tasks adds. -/
def filesOf (tasks : List (UCScanPlanFileScanTask × List UCScanDeleteFile)) : List OpenFileInfo :=
  tasks.map fun x => makeOpenFileInfo x.1.data_file

/-- The delete files each task's references name, `none` for a reference that names none. -/
def namedBy (tasks : List (UCScanPlanFileScanTask × List UCScanDeleteFile)) :
    List (List (Option UCScanDeleteFile)) :=
  tasks.map fun x => x.1.delete_file_references.map fun ref => x.2[ref]?

theorem resolveReferences_eq_ok {task : UCScanPlanFileScanTask}
    {all_delete_files resolved : List UCScanDeleteFile} :
    task.delete_file_references.mapM (resolveReference task all_delete_files) = .ok resolved ↔
      task.delete_file_references.map (fun ref => all_delete_files[ref]?) =
        resolved.map some := by
  have hone : ∀ ref d, resolveReference task all_delete_files ref = .ok d ↔
      all_delete_files[ref]? = some d := by
    intro ref d
    rw [resolveReference]
    cases all_delete_files[ref]? with
    | some d' => simp [pure, Except.pure]
    | none => simp [throw, throwThe, MonadExceptOf.throw]
  rw [mapM_eq_ok]
  generalize task.delete_file_references = refs
  induction refs generalizing resolved with
  | nil => cases resolved <;> simp
  | cons ref refs ih =>
    cases resolved with
    | nil => simp
    | cons d resolved => simp [hone, ih]

theorem resolveReferences_error {task : UCScanPlanFileScanTask}
    {all_delete_files : List UCScanDeleteFile} {e : Exception}
    (h : task.delete_file_references.mapM (resolveReference task all_delete_files) = .error e) :
    ∃ ref ∈ task.delete_file_references, all_delete_files.length ≤ ref := by
  by_contra hall
  push Not at hall
  obtain ⟨resolved, hres⟩ : ∃ resolved : List UCScanDeleteFile,
      task.delete_file_references.map (fun ref => all_delete_files[ref]?) =
        resolved.map some := by
    refine ⟨task.delete_file_references.filterMap fun ref => all_delete_files[ref]?, ?_⟩
    revert hall
    generalize task.delete_file_references = refs
    intro hall
    induction refs with
    | nil => rfl
    | cons ref refs ih =>
      have hlt := hall ref List.mem_cons_self
      simp [hlt, ih fun r hr => hall r (List.mem_cons_of_mem _ hr)]
  rw [resolveReferences_eq_ok.2 hres] at h
  cases h

namespace UCMultiFileList

variable {l l' : UCMultiFileList}

/-- `l'` is `l` with the files of `tasks` at its end, and their delete files beside them. -/
structure Gains (tasks : List (UCScanPlanFileScanTask × List UCScanDeleteFile))
    (l l' : UCMultiFileList) : Prop where
  target : l'.target = l.target
  files : l'.expanded_files = l.expanded_files ++ filesOf tasks
  deletes : l'.file_deletes.map (List.map some) =
    l.file_deletes.map (List.map some) ++ namedBy tasks

theorem Gains.refl (l : UCMultiFileList) : Gains [] l l := by
  constructor <;> simp [filesOf, namedBy]

theorem Gains.trans {l'' : UCMultiFileList}
    {tasks tasks' : List (UCScanPlanFileScanTask × List UCScanDeleteFile)}
    (h : Gains tasks l l') (h' : Gains tasks' l' l'') : Gains (tasks ++ tasks') l l'' where
  target := h'.target.trans h.target
  files := by simp [h'.files, h.files, filesOf]
  deletes := by simp [h'.deletes, h.deletes, namedBy]

/-- Taking in a response's tasks: all of them, or a reference dangles. The tokens stay. -/
theorem addFileScanTasks_spec (all_delete_files : List UCScanDeleteFile)
    (tasks : List UCScanPlanFileScanTask) :
    ∀ l : UCMultiFileList,
      match l.addFileScanTasks all_delete_files tasks with
      | (.ok (), l') => Gains (tasks.map fun task => (task, all_delete_files)) l l' ∧
          l'.remaining_tokens = l.remaining_tokens
      | (.error _, _) => ∃ task ∈ tasks, ∃ ref ∈ task.delete_file_references,
          all_delete_files.length ≤ ref := by
  induction tasks with
  | nil =>
    intro l
    exact ⟨Gains.refl l, rfl⟩
  | cons task tasks ih =>
    intro l
    rw [addFileScanTasks, addFileScanTask]
    cases hres : task.delete_file_references.mapM (resolveReference task all_delete_files) with
    | error e =>
      obtain ⟨ref, href, hlen⟩ := resolveReferences_error hres
      exact ⟨task, List.mem_cons_self, ref, href, hlen⟩
    | ok resolved =>
      dsimp only
      let l₁ : UCMultiFileList := { l with
        expanded_files := l.expanded_files ++ [makeOpenFileInfo task.data_file]
        file_deletes := l.file_deletes ++ [resolved] }
      have hone : Gains [(task, all_delete_files)] l l₁ := by
        constructor
        · rfl
        · rfl
        · simp [l₁, namedBy, resolveReferences_eq_ok.1 hres]
      have htail := ih l₁
      cases htasks : l₁.addFileScanTasks all_delete_files tasks with
      | mk r l' =>
        rw [htasks] at htail
        cases r with
        | ok u => exact ⟨hone.trans htail.1, htail.2⟩
        | error e =>
          obtain ⟨task', hmem, hdangling⟩ := htail
          exact ⟨task', List.mem_cons_of_mem _ hmem, hdangling⟩

/-- The constructor takes the inline tasks in and queues the tokens, or a reference dangles. -/
theorem create_spec (target : ScanTarget) (plan : UCScanPlanResult) :
    match create target plan with
    | .ok l => Gains plan.carried { target } l ∧ l.remaining_tokens = plan.plan_tasks
    | .error _ => plan.Dangling := by
  have h := addFileScanTasks_spec plan.delete_files plan.file_scan_tasks { target }
  rw [create]
  cases hadd : addFileScanTasks { target } plan.delete_files plan.file_scan_tasks with
  | mk r l =>
    rw [hadd] at h
    cases r with
    | ok u => exact ⟨⟨h.1.target, h.1.files, h.1.deletes⟩, rfl⟩
    | error e => exact h

end UCMultiFileList

namespace UCMultiFileList

/-- A call that returns true has added a file, and one that returns false has left no token,
whatever it was answered. -/
theorem expandNextPath_added {W : World Client Exception} {c : W.Ctx} {fuel : ℕ} :
    ∀ {l l' : UCMultiFileList} {s s' : W.State} {more : Bool},
      (l.expandNextPath fuel).Exec c s (.ok (some (.ok more), l')) s' →
      if more then l.expanded_files.length < l'.expanded_files.length
      else l'.remaining_tokens = [] := by
  induction fuel with
  | zero =>
    intro l l' s s' more h
    cases h.1
  | succ fuel ih =>
    intro l l' s s' more h
    rw [expandNextPath_succ] at h
    split at h
    · rename_i hq
      obtain ⟨h, -⟩ := h
      cases h
      exact hq
    · rename_i token queue hq
      simp only [Prog.bind_eq, Prog.exec_bind] at h
      rcases h with ⟨x, s₁, hf, h⟩ | ⟨e, -, he⟩
      · split at h
        · cases h.1
        · rename_i result
          split at h
          · have hnext := ih h
            exact hnext
          · rename_i hne
            split at h
            · rename_i l₁ hl₁
              obtain ⟨h, -⟩ := h
              cases h
              have hadd := addFileScanTasks_spec result.delete_files result.file_scan_tasks
                { l with remaining_tokens := queue ++ result.plan_tasks }
              rw [hl₁] at hadd
              have hpos : 0 < result.file_scan_tasks.length :=
                List.length_pos_iff.2 fun hn => hne (List.isEmpty_iff.2 hn)
              simpa [hadd.1.files, filesOf] using hpos
            · cases h.1
      · cases he

end UCMultiFileList

/-! ## Exchanging tokens -/

/-- What the server has seen. -/
structure TasksState where
  /-- the request under way -/
  pending : Option HttpRequest := none
  /-- the requests made -/
  requests : List HttpRequest := []

/-- What a server that answers every request, and nothing else, makes of an operation. -/
def tasksAnswer (server : HttpRequest → HttpResponse) (s : TasksState) (op : Op) :
    Except Exception op.Ans × TasksState :=
  match op with
  | .ensureHttpfs => (.ok (), s)
  | .issue req => (.ok (), ⟨some req, s.requests ++ [req]⟩)
  | .answer =>
    match s.pending with
    | some req => (.ok (server req), { s with pending := none })
    | none => (.error (internalException "no request"), s)
  | _ => (.error (internalException "not there"), s)

/-- A scan at such a server. -/
abbrev TaskServer (server : HttpRequest → HttpResponse) : World Client Exception :=
  Prog.det (tasksAnswer server)

section

variable {server : HttpRequest → HttpResponse} {t : ScanTarget} {s s' : TasksState}

/-- What the server's answer to a token decodes to. -/
def exchanged (server : HttpRequest → HttpResponse) (t : ScanTarget) (k : String) :
    Except Exception UCScanPlanResult :=
  (server (t.taskRequest k)).decoded t.tasksUrl (decodeScanTasks t.tasksUrl)

theorem tasks_fetchScanTasks {k : String} {r : Except Exception UCScanPlanResult}
    (h : (UCAPI.fetchScanTasks t k).Exec (W := TaskServer server) () s r s') :
    r = exchanged server t k ∧ s'.requests = s.requests ++ [t.taskRequest k] := by
  rw [UCAPI.fetchScanTasks, Prog.bind_eq, makeRequest_decode_eq, taskBody_method] at h
  obtain ⟨_, _, s₁, he, h⟩ := h
  obtain ⟨rfl, rfl⟩ := Prod.mk.inj (Option.some.inj he)
  obtain ⟨_, _, s₂, hi, h⟩ := h
  obtain ⟨rfl, rfl⟩ := Prod.mk.inj (Option.some.inj hi)
  obtain ⟨_, _, s₃, ha, h⟩ := h
  obtain ⟨rfl, rfl⟩ := Prod.mk.inj (Option.some.inj ha)
  obtain ⟨rfl, rfl⟩ := Prog.exec_ofExcept.1 h
  exact ⟨rfl, rfl⟩

namespace UCMultiFileList

variable {answers : String → UCScanPlanResult} {fuel : ℕ} {queue order : List String}

/-- What calls of `ExpandNextPath` do to a list whose tokens are exchanged in the order
`taken ++ rest`: they exchange the tokens `taken` and take in what these carry, or one of them
carries a dangling reference. -/
structure Expands (answers : String → UCScanPlanResult) (taken rest : List String)
    (l : UCMultiFileList) (s : TasksState) (outcome : Except Exception Bool) (l' : UCMultiFileList)
    (s' : TasksState) : Prop where
  requests : s'.requests = s.requests ++ taken.map l.target.taskRequest
  gains : ∀ more, outcome = .ok more →
    Gains (taken.flatMap fun k => (answers k).carried) l l' ∧
      Order (fun k => (answers k).plan_tasks) l'.remaining_tokens rest
  /-- false: no token is left -/
  exhausted : outcome = .ok false → l'.remaining_tokens = []
  dangling : ∀ e, outcome = .error e → ∃ k ∈ taken, (answers k).Dangling

/-- One call, by induction on the order in which the tokens are due. -/
theorem expandNextPath_spec (ho : Order (fun k => (answers k).plan_tasks) queue order) :
    ∀ {fuel : ℕ} {l : UCMultiFileList} {s s' : TasksState}
      {r : Except Exception (Outcome × UCMultiFileList)},
      l.remaining_tokens = queue →
      (∀ k ∈ order, exchanged server l.target k = .ok (answers k)) → order.length < fuel →
      (l.expandNextPath fuel).Exec (W := TaskServer server) () s r s' →
      ∃ outcome l' taken rest, r = .ok (some outcome, l') ∧ order = taken ++ rest ∧
        (outcome = .ok true → taken ≠ []) ∧ Expands answers taken rest l s outcome l' s' := by
  induction ho with
  | nil =>
    intro fuel l s s' r hq _ hfuel h
    obtain ⟨n, rfl⟩ : ∃ n, fuel = n + 1 := ⟨fuel - 1, by simp at hfuel; omega⟩
    rw [expandNextPath_succ, hq] at h
    obtain ⟨rfl, rfl⟩ := h
    refine ⟨.ok false, l, [], [], rfl, rfl, nofun, by simp, ?_, fun _ => hq, nofun⟩
    intro more _
    rw [hq]
    exact ⟨Gains.refl l, .nil⟩
  | @take queue order token ho ih =>
    intro fuel l s s' r hq hserver hfuel h
    obtain ⟨n, rfl⟩ : ∃ n, fuel = n + 1 := ⟨fuel - 1, by simp at hfuel; omega⟩
    rw [expandNextPath_succ, hq] at h
    simp only [Prog.bind_eq, Prog.exec_bind, Prog.exec_attempt] at h
    rcases h with ⟨x, s₁, ⟨y, hy, hf⟩, h⟩ | ⟨e, ⟨y, hy, -⟩, -⟩
    · obtain rfl := Except.ok.inj hy
      -- the token was taken off before it was exchanged
      obtain ⟨rfl, hreq⟩ := tasks_fetchScanTasks hf
      rw [hserver token List.mem_cons_self] at h
      dsimp only at h
      split at h
      · -- the token carried no files: on with the next
        rename_i hempty
        obtain ⟨outcome, l', taken, rest, rfl, rfl, hne, hexp⟩ :=
          ih (l := { l with remaining_tokens := queue ++ (answers token).plan_tasks }) rfl
            (fun k hk => hserver k (List.mem_cons_of_mem _ hk)) (by simp at hfuel ⊢; omega) h
        have hnone : (answers token).carried = [] := by
          simp [UCScanPlanResult.carried, List.isEmpty_iff.1 hempty]
        refine ⟨outcome, l', token :: taken, rest, rfl, rfl, fun _ => by simp, ?_⟩
        constructor
        · rw [hexp.requests, hreq]
          simp
        · intro more hm
          obtain ⟨hg, hrest⟩ := hexp.gains more hm
          refine ⟨?_, hrest⟩
          rw [List.flatMap_cons, hnone]
          exact ⟨hg.target, hg.files, hg.deletes⟩
        · exact hexp.exhausted
        · intro e he
          obtain ⟨k, hk, hd⟩ := hexp.dangling e he
          exact ⟨k, List.mem_cons_of_mem _ hk, hd⟩
      · have hadd := addFileScanTasks_spec (answers token).delete_files
          (answers token).file_scan_tasks
          { l with remaining_tokens := queue ++ (answers token).plan_tasks }
        split at h
        · rename_i l' hl'
          obtain ⟨rfl, rfl⟩ := h
          rw [hl'] at hadd
          obtain ⟨hg, htokens⟩ := hadd
          refine ⟨.ok true, l', [token], order, rfl, rfl, fun _ => by simp, ?_⟩
          constructor
          · simp [hreq]
          · intro more _
            rw [htokens]
            refine ⟨?_, ho⟩
            rw [List.flatMap_singleton]
            exact ⟨hg.target, hg.files, hg.deletes⟩
          · nofun
          · nofun
        · -- a task that names a delete file which is not there
          rename_i e l' hl'
          obtain ⟨rfl, rfl⟩ := h
          rw [hl'] at hadd
          refine ⟨.error e, l', [token], order, rfl, rfl, nofun, ?_⟩
          constructor
          · simp [hreq]
          · nofun
          · nofun
          · intro _ _
            exact ⟨token, List.mem_singleton_self token, hadd⟩
    · cases hy

/-- Calls until one does not return true, by induction on the number of tokens that are due. -/
theorem expandUntilFalse_spec {fuel : ℕ} {calls : ℕ} :
    ∀ {order : List String} {l : UCMultiFileList} {s s' : TasksState}
      {r : Except Exception (Outcome × UCMultiFileList)},
      Order (fun k => (answers k).plan_tasks) l.remaining_tokens order →
      (∀ k ∈ order, exchanged server l.target k = .ok (answers k)) →
      order.length < fuel → order.length < calls →
      (l.expandUntilFalse fuel calls).Exec (W := TaskServer server) () s r s' →
      ∃ outcome l' taken rest, r = .ok (some outcome, l') ∧ order = taken ++ rest ∧
        outcome ≠ .ok true ∧ Expands answers taken rest l s outcome l' s' := by
  induction calls with
  | zero =>
    intro order l s s' r _ _ _ hcalls
    exact absurd hcalls (Nat.not_lt_zero _)
  | succ calls ih =>
    intro order l s s' r ho hserver hfuel hcalls h
    rw [expandUntilFalse] at h
    simp only [Prog.bind_eq, Prog.exec_bind] at h
    rcases h with ⟨x, s₁, hcall, h⟩ | ⟨e, hcall, -⟩
    · obtain ⟨outcome, l₁, taken, rest, hx, rfl, hne, hexp⟩ :=
        expandNextPath_spec ho rfl hserver hfuel hcall
      obtain rfl := Except.ok.inj hx
      dsimp only at h
      split at h
      · rename_i hmore
        obtain rfl := Option.some.inj hmore
        obtain ⟨hg, hrest⟩ := hexp.gains true rfl
        -- a call that returns true took a token, so fewer are left for the others
        have hlen : 0 < taken.length := List.length_pos_iff.2 (hne rfl)
        rw [List.length_append] at hfuel hcalls
        obtain ⟨outcome, l', taken', rest', rfl, rfl, hlast, hexp'⟩ :=
          ih hrest (fun k hk => hg.target ▸ hserver k (List.mem_append_right _ hk))
            (by omega) (by omega) h
        refine ⟨outcome, l', taken ++ taken', rest', rfl, (List.append_assoc _ _ _).symm, hlast, ?_⟩
        constructor
        · rw [hexp'.requests, hexp.requests, hg.target]
          simp
        · intro more hm
          obtain ⟨hg', hrest'⟩ := hexp'.gains more hm
          rw [List.flatMap_append]
          exact ⟨hg.trans hg', hrest'⟩
        · exact hexp'.exhausted
        · intro e he
          obtain ⟨k, hk, hd⟩ := hexp'.dangling e he
          exact ⟨k, List.mem_append_right _ hk, hd⟩
      · rename_i hmore
        obtain ⟨rfl, rfl⟩ := h
        exact ⟨outcome, l₁, taken, rest, rfl, rfl, fun hm => hmore (congrArg some hm), hexp⟩
    · obtain ⟨outcome, l₁, taken, rest, hx, -⟩ := expandNextPath_spec ho rfl hserver hfuel hcall
      cases hx

/-- **Lazy expansion loses and repeats nothing.** Where the plan's tokens form a finite tree, calls
of `ExpandNextPath` until one returns false exchange each token once, in queue order, and leave the
inline files followed by the files of the tokens, each with the delete files its references name in
the response that carried it; they end without a false only by throwing at a dangling reference. A
call that returns true has added a file, and one that returns false has left no token. -/
theorem expansion_complete {plan : UCScanPlanResult} {l : UCMultiFileList}
    (htree : FiniteTree (fun k => (answers k).plan_tasks) plan.plan_tasks)
    (hserver : ∀ k, Reach (fun k => (answers k).plan_tasks) plan.plan_tasks k →
      exchanged server t k = .ok (answers k))
    (hl : create t plan = .ok l) :
    (∀ fuel l₁ s₁ more l₂ s₂,
      (expandNextPath fuel l₁).Exec (W := TaskServer server) () s₁ (.ok (some (.ok more), l₂)) s₂ →
        if more then l₁.expanded_files.length < l₂.expanded_files.length
        else l₂.remaining_tokens = []) ∧
    ∃ order, Order (fun k => (answers k).plan_tasks) plan.plan_tasks order ∧ order.Nodup ∧
      (∀ k, k ∈ order ↔ Reach (fun k => (answers k).plan_tasks) plan.plan_tasks k) ∧
      ∀ fuel calls, order.length < fuel → order.length < calls →
        (∃ r s', (l.expandUntilFalse fuel calls).Exec (W := TaskServer server) () {} r s') ∧
        ∀ r s', (l.expandUntilFalse fuel calls).Exec (W := TaskServer server) () {} r s' →
          ∃ outcome l', r = .ok (some outcome, l') ∧
            match outcome with
            | .ok more => more = false ∧ l'.remaining_tokens = [] ∧
                s'.requests = order.map t.taskRequest ∧
                (∀ k ∈ order, s'.requests.count (t.taskRequest k) = 1) ∧
                l'.expanded_files =
                  filesOf (plan.carried ++ order.flatMap fun k => (answers k).carried) ∧
                l'.file_deletes.map (List.map some) =
                  namedBy (plan.carried ++ order.flatMap fun k => (answers k).carried)
            | .error _ => ∃ k ∈ order, (answers k).Dangling := by
  -- the tokens in the order they come up in: breadth first
  obtain ⟨order, ho⟩ := htree.exists_order
  have hcreate := create_spec t plan
  rw [hl] at hcreate
  obtain ⟨hinline, htokens⟩ := hcreate
  refine ⟨fun _ _ _ _ _ _ h => expandNextPath_added h, order, ho, ho.nodup htree,
    fun k => ho.mem_iff, ?_⟩
  intro fuel calls hfuel hcalls
  refine ⟨⟨_, _, Prog.exec_det.2 rfl⟩, ?_⟩
  intro r s' h
  obtain ⟨outcome, l', taken, rest, rfl, rfl, hlast, hexp⟩ :=
    expandUntilFalse_spec (htokens ▸ ho)
      (fun k hk => by rw [hinline.target]; exact hserver k (ho.mem_iff.1 hk)) hfuel hcalls h
  refine ⟨outcome, l', rfl, ?_⟩
  cases outcome with
  | error e =>
    obtain ⟨k, hk, hd⟩ := hexp.dangling e rfl
    exact ⟨k, List.mem_append_left _ hk, hd⟩
  | ok more =>
    cases more with
    | true => exact absurd rfl hlast
    | false =>
      -- false is returned only with no token due: all of the order was taken
      have hempty := hexp.exhausted rfl
      obtain ⟨hg, hrest⟩ := hexp.gains false rfl
      rw [hempty] at hrest
      cases hrest
      rw [List.append_nil] at *
      have hreq : s'.requests = taken.map t.taskRequest := by
        rw [hexp.requests, hinline.target]
        rfl
      have hall := hinline.trans hg
      refine ⟨rfl, hempty, hreq, ?_, hall.files, hall.deletes⟩
      intro k hk
      have hinj : Function.Injective t.taskRequest := fun _ _ => ScanTarget.taskRequest_inj.1
      rw [hreq, List.count_map_of_injective _ _ hinj]
      exact List.count_eq_one_of_mem (ho.nodup htree) hk

end UCMultiFileList

end

/-! ### Chained and empty answers

One inline file; the first token yields a file with a deletion vector and the second token, the
second nothing but the third, the third a file. -/

/-- The plan. -/
def chainedPlan : UCScanPlanResult :=
  { status := .completed
    file_scan_tasks := [⟨{ file_path := "f0" }, []⟩]
    plan_tasks := ["t1"] }

/-- The deletion vector. -/
def chainedDelete : UCScanDeleteFile := ⟨.positionDeletes, "d1", "puffin", 0, 0, [], -1, -1⟩

/-- What the answers decode to. -/
def chainedAnswers (k : String) : UCScanPlanResult :=
  if k = "t1" then
    { status := .completed
      delete_files := [chainedDelete]
      file_scan_tasks := [⟨{ file_path := "f1" }, [0]⟩]
      plan_tasks := ["t2"] }
  else if k = "t2" then { status := .completed, plan_tasks := ["t3"] }
  else { status := .completed, file_scan_tasks := [⟨{ file_path := "f2" }, []⟩] }

/-- The scanned table. -/
def chainedScan : ScanTarget where
  catalog_name := "c"
  schema_name := "s"
  table_name := "t"
  credentials := { endpoint := "http://uc", token := "", use_irc_scan_plan := true }
  scan_plan_endpoint := "http://irc"

/-- The first answer: a file with the deletion vector, and the next token. -/
def chainedText : String :=
  String.ofList ("\x7b\"delete-files\":[\x7b\"content\":\"position-deletes\",".toList ++
    "\"file-path\":\"d1\",\"file-format\":\"puffin\"\x7d],".toList ++
    "\"file-scan-tasks\":[\x7b\"data-file\":\x7b\"file-path\":\"f1\"\x7d,".toList ++
    "\"delete-file-references\":[0]\x7d],\"plan-tasks\":[\"t2\"]\x7d".toList)

/-- What it says. -/
def chainedRoot : Val :=
  .obj [("delete-files", .arr [.obj [("content", .str "position-deletes"), ("file-path", .str "d1"),
      ("file-format", .str "puffin")]]),
    ("file-scan-tasks", .arr [.obj [("data-file", .obj [("file-path", .str "f1")]),
      ("delete-file-references", .arr [.num (.uint 0)])]]),
    ("plan-tasks", .arr [.str "t2"])]

/-- The server. -/
def chainedServer (req : HttpRequest) : HttpResponse :=
  ⟨200, true, "", [],
    if req.body = taskBody "t1" then chainedText
    else if req.body = taskBody "t2" then "\x7b\"plan-tasks\":[\"t3\"]\x7d"
    else "\x7b\"file-scan-tasks\":[\x7b\"data-file\":\x7b\"file-path\":\"f2\"\x7d\x7d]\x7d"⟩

theorem chainedServer_answers : ∀ k ∈ ["t1", "t2", "t3"],
    exchanged chainedServer chainedScan k = .ok (chainedAnswers k) := by
  have hread : read chainedText = some chainedRoot := read_ofList (by decide +kernel)
  have hfirst : exchanged chainedServer chainedScan "t1" = .ok (chainedAnswers "t1") := by
    have hbody : chainedServer (chainedScan.taskRequest "t1") = ⟨200, true, "", [], chainedText⟩ :=
      congrArg (HttpResponse.mk 200 true "" []) (if_pos rfl)
    have hok : (⟨200, true, "", [], chainedText⟩ : HttpResponse).accepted statusInvalid = true :=
      rfl
    rw [exchanged, hbody, HttpResponse.decoded, if_pos hok, hread]
    decide +kernel
  have hothers : exchanged chainedServer chainedScan "t2" = .ok (chainedAnswers "t2") ∧
      exchanged chainedServer chainedScan "t3" = .ok (chainedAnswers "t3") := by
    decide +kernel
  simp only [List.mem_cons, List.not_mem_nil, or_false]
  rintro k (rfl | rfl | rfl)
  · exact hfirst
  · exact hothers.1
  · exact hothers.2

theorem chained_reach {k : String}
    (h : Reach (fun k => (chainedAnswers k).plan_tasks) chainedPlan.plan_tasks k) :
    k ∈ ["t1", "t2", "t3"] := by
  induction h with
  | root h => exact List.mem_cons.2 (.inl (List.mem_singleton.1 h))
  | child _ hb ih =>
    have hnext : ∀ a ∈ ["t1", "t2", "t3"], ∀ b ∈ (chainedAnswers a).plan_tasks,
        b ∈ ["t1", "t2", "t3"] := by decide
    exact hnext _ ih _ hb

theorem chained_tree :
    FiniteTree (fun k => (chainedAnswers k).plan_tasks) chainedPlan.plan_tasks where
  finite := (List.finite_toSet ["t1", "t2", "t3"]).subset fun _ h => chained_reach h
  roots_nodup := by decide
  children_nodup := by
    intro a ha
    have h : ∀ a ∈ ["t1", "t2", "t3"], (chainedAnswers a).plan_tasks.Nodup := by decide
    exact h a (chained_reach ha)
  child_not_root := by
    intro a ha
    have h : ∀ a ∈ ["t1", "t2", "t3"], ∀ b ∈ (chainedAnswers a).plan_tasks,
      b ∉ chainedPlan.plan_tasks := by decide
    exact h a (chained_reach ha)
  parent_unique := by
    intro a a' ha ha'
    have h : ∀ a ∈ ["t1", "t2", "t3"], ∀ a' ∈ ["t1", "t2", "t3"],
      ∀ b ∈ (chainedAnswers a).plan_tasks, b ∈ (chainedAnswers a').plan_tasks → a = a' := by decide
    exact h a (chained_reach ha) a' (chained_reach ha')

/-- The list after the constructor. -/
def chainedList : UCMultiFileList :=
  { target := chainedScan
    expanded_files := [⟨"f0", none⟩]
    file_deletes := [[]]
    remaining_tokens := ["t1"] }

theorem expansion_complete_chained :
    ∃ order, Order (fun k => (chainedAnswers k).plan_tasks) chainedPlan.plan_tasks order ∧
      order.Nodup ∧ "t3" ∈ order := by
  obtain ⟨-, order, ho, hnodup, hmem, -⟩ := UCMultiFileList.expansion_complete
    chained_tree (fun k hk => chainedServer_answers k (chained_reach hk))
    (show UCMultiFileList.create chainedScan chainedPlan = .ok chainedList from rfl)
  refine ⟨order, ho, hnodup, (hmem "t3").2 ?_⟩
  have h1 : Reach (fun k => (chainedAnswers k).plan_tasks) chainedPlan.plan_tasks "t1" :=
    .root (by decide)
  exact .child (a := "t2") (.child h1 (by decide)) (by decide)

end UnityCatalog
