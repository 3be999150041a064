import UnityCatalog.ExactAnswers
import UnityCatalog.FileList

/-!
# Payloads that are taken in whole

What `ParseScanTasksPayload` makes of a JSON payload and `AddFileScanTask` of that. Every member is
read with a leniency of its own: a task without a data file is one whose path is empty, a list that
is no array is empty, a token that is no string is left out, and `yyjson_get_uint` makes 0 of
whatever is no integer, which is a reference to the first delete file. `ingestedWhole_iff` says for
which payloads, of those that are accepted, nothing is lost or made up this way.
-/

namespace UnityCatalog

open Effectful Yyjson Decoding

/-! ## What a payload says -/

/-- A list that is an array where it is there at all. -/
def IsTaskList (v : Option Val) : Prop := v = none ∨ isArr v = true

/-- A list of references that is an array, or is written as not there. -/
def IsRefList (v : Option Val) : Prop := Absent v ∨ isArr v = true

/-- The member `data-file`'s path. -/
def pathMember (task_val : Val) : Option Val :=
    objGet (objGet (some task_val) "data-file") "file-path"

/-- The reference names the delete file: the one at the integer it is. -/
def Resolves (root : Option Val) (ref : Val) (d : UCScanDeleteFile) : Prop :=
  ∃ (n : Yyjson.Num) (i : ℕ) (del_val : Val), ref = .num n ∧ IsInteger n ∧ n.value = i ∧
    (items (objGet root "delete-files"))[i]? = some del_val ∧ parseDeleteFile (some del_val) = .ok d

/-- What is added for a task: the file its `data-file` names, with the delete files it
references. -/
structure Names (root : Option Val) (task_val : Val) (x : OpenFileInfo × List UCScanDeleteFile) :
    Prop where
  path : pathMember task_val = some (.str x.1.path)
  nonempty : x.1.path ≠ ""
  refs_list : IsRefList (objGet (some task_val) "delete-file-references")
  refs : List.Forall₂ (Resolves root) (items (objGet (some task_val) "delete-file-references")) x.2

/-- The list `l'` is `l` with one file for each task of the payload, and every token is one of
`result`. -/
structure IngestedWhole (root : Option Val) (result : UCScanPlanResult) (l l' : UCMultiFileList) :
    Prop where
  tasks_list : IsTaskList (objGet root "file-scan-tasks")
  tasks : ∃ added, l'.expanded_files = l.expanded_files ++ added.map Prod.fst ∧
    l'.file_deletes = l.file_deletes ++ added.map Prod.snd ∧
    List.Forall₂ (Names root) (items (objGet root "file-scan-tasks")) added
  tokens_list : IsTaskList (objGet root "plan-tasks")
  tokens : List.Forall₂ (fun v token => v = .str token) (items (objGet root "plan-tasks"))
    result.plan_tasks

/-! ## Payloads that say it well -/

/-- A task with a path, written without a zero byte, and references that are natural numbers. -/
structure SoundTask (task_val : Val) : Prop where
  path : ∃ s, pathMember task_val = some (.str s) ∧ s ≠ "" ∧ NulFree s
  refs_list : IsRefList (objGet (some task_val) "delete-file-references")
  refs : ∀ r ∈ items (objGet (some task_val) "delete-file-references"), ∃ n, r = .num n ∧
    IsNatural n

/-- Lists that are arrays, tasks that are sound, and tokens that are texts without a zero byte. -/
structure SoundPayload (root : Option Val) : Prop where
  tasks_list : IsTaskList (objGet root "file-scan-tasks")
  tasks : ∀ v ∈ items (objGet root "file-scan-tasks"), SoundTask v
  tokens_list : IsTaskList (objGet root "plan-tasks")
  tokens : ∀ v ∈ items (objGet root "plan-tasks"), ∃ s, v = .str s ∧ NulFree s

/-- A task references a delete file past the last. -/
def Dangles (root : Option Val) : Prop :=
  ∃ task_val ∈ items (objGet root "file-scan-tasks"),
    ∃ r ∈ items (objGet (some task_val) "delete-file-references"),
      (items (objGet root "delete-files")).length ≤ getUint (some r)

/-! ## Item by item -/

section

variable {α β : Type}

theorem forall₂_iff_forall_of_forall₂ {R P : α → β → Prop} {S : α → Prop} {xs : List α}
    {ys : List β} (h : List.Forall₂ R xs ys) (hiff : ∀ x y, R x y → (P x y ↔ S x)) :
    List.Forall₂ P xs ys ↔ ∀ x ∈ xs, S x := by
  induction h with
  | nil => simp
  | cons hr _ ih => rw [List.forall₂_cons, List.forall_mem_cons, hiff _ _ hr, ih]

theorem forall₂_of_mapM_eq_ok {ε : Type} {f : α → Except ε β} {xs : List α} {ys : List β}
    (h : xs.mapM f = .ok ys) : List.Forall₂ (fun x y => f x = .ok y) xs ys := by
  rw [mapM_eq_ok] at h
  induction xs generalizing ys with
  | nil =>
    rw [List.map_eq_nil_iff.1 h.symm]
    exact .nil
  | cons x xs ih =>
    obtain ⟨y, ys', rfl, hy, hys⟩ := List.map_eq_cons_iff.1 h.symm
    exact .cons hy.symm (ih hys.symm)

/-- Two relations in a row. -/
theorem forall₂_comp {γ : Type} {R : α → β → Prop} {S : β → γ → Prop} {xs : List α} {ys : List β}
    {zs : List γ} (h : List.Forall₂ R xs ys) (h' : List.Forall₂ S ys zs) :
    List.Forall₂ (fun x z => ∃ y, R x y ∧ S y z) xs zs := by
  induction h generalizing zs with
  | nil =>
    cases h'
    exact .nil
  | cons hr _ ih =>
    cases h' with
    | cons hs hs' => exact .cons ⟨_, hr, hs⟩ (ih hs')

end

/-- A required text: what is written, up to a zero byte. -/
theorem tryGetStr_eq_ok {obj : Option Val} {field s : String}
    (h : tryGetStrFromObject obj field = .ok s) :
      ∃ t, objGet obj field = some (.str t) ∧ s = cString t := by
  rw [tryGetStrFromObject] at h
  by_cases ha : Absent (objGet obj field)
  · rw [templatedTryGetYYJson_absent ha] at h
    cases h
  · rw [templatedTryGetYYJson_present ha] at h
    rcases hv : objGet obj field with _ | v
    · exact absurd (.inl hv) ha
    · rw [hv] at h
      cases v with
      | str t => exact ⟨t, rfl, (Except.ok.inj h).symm⟩
      | _ => cases h

theorem parseDataFile_path {df_val : Option Val} {df : UCScanPlanDataFile}
    (h : parseDataFile df_val = .ok df) :
    ∃ t, objGet df_val "file-path" = some (.str t) ∧ df.file_path = cString t := by
  simp only [parseDataFile, except_bind_eq_ok] at h
  obtain ⟨content, -, file_path, hpath, file_format, -, spec_id, -, size, -, count, -, hdf⟩ := h
  obtain ⟨t, ht, rfl⟩ := tryGetStr_eq_ok hpath
  exact ⟨t, ht, (congrArg UCScanPlanDataFile.file_path (Except.ok.inj hdf)).symm⟩

/-- What an accepted task's file is called: the text its data file names, up to a zero byte, and
nothing where there is no data file. -/
theorem parseFileScanTask_eq_ok {task_val : Val} {task : UCScanPlanFileScanTask}
    (h : parseFileScanTask (some task_val) = .ok task) :
    ((∃ t, pathMember task_val = some (.str t) ∧ task.data_file.file_path = cString t) ∨
      pathMember task_val = none ∧ task.data_file.file_path = "") ∧
    task.delete_file_references =
      (items (objGet (some task_val) "delete-file-references")).map fun r => getUint (some r) := by
  rw [parseFileScanTask] at h
  cases hmember : objGet (some task_val) "data-file" with
  | none =>
    rw [hmember] at h
    obtain rfl := Except.ok.inj h
    refine ⟨.inr ⟨?_, rfl⟩, rfl⟩
    rw [pathMember, hmember]
    rfl
  | some df_val =>
    rw [hmember] at h
    obtain ⟨df, hdf, htask⟩ := except_bind_eq_ok.1 h
    obtain rfl := Except.ok.inj htask
    refine ⟨.inl ?_, rfl⟩
    rw [pathMember, hmember]
    exact parseDataFile_path hdf

/-! ## Taking tasks in -/

/-- What the list gains when every reference resolves. -/
theorem addFileScanTasks_eq_ok {all_delete_files : List UCScanDeleteFile}
    {tasks : List UCScanPlanFileScanTask} {l l' : UCMultiFileList}
    (h : l.addFileScanTasks all_delete_files tasks = (.ok (), l')) :
    ∃ added : List (OpenFileInfo × List UCScanDeleteFile),
      l'.expanded_files = l.expanded_files ++ added.map Prod.fst ∧
        l'.file_deletes = l.file_deletes ++ added.map Prod.snd ∧
          List.Forall₂ (fun task x => x.1 = makeOpenFileInfo task.data_file ∧
            task.delete_file_references.map (fun ref => all_delete_files[ref]?) = x.2.map some)
            tasks added := by
  induction tasks generalizing l with
  | nil =>
    obtain ⟨-, rfl⟩ := Prod.mk.inj h
    exact ⟨[], (List.append_nil _).symm, (List.append_nil _).symm, .nil⟩
  | cons task tasks ih =>
    rw [UCMultiFileList.addFileScanTasks, UCMultiFileList.addFileScanTask] at h
    cases hres : task.delete_file_references.mapM (resolveReference task all_delete_files) with
    | error e =>
      simp only [hres] at h
      cases h
    | ok resolved =>
      simp only [hres] at h
      obtain ⟨added, hfiles, hdeletes, hall⟩ := ih h
      refine ⟨(makeOpenFileInfo task.data_file, resolved) :: added, ?_, ?_, .cons ?_ hall⟩
      · rw [hfiles, List.map_cons, List.append_assoc, List.singleton_append]
      · rw [hdeletes, List.map_cons, List.append_assoc, List.singleton_append]
      · exact ⟨rfl, resolveReferences_eq_ok.1 hres⟩

/-! ## The references of one task -/

/-- The delete file at an index is the one its item was read as. -/
theorem getElem?_of_forall₂ {vals : List Val} {dels : List UCScanDeleteFile}
    (h : List.Forall₂ (fun v d => parseDeleteFile (some v) = .ok d) vals dels) {i : ℕ}
    {d : UCScanDeleteFile} :
    dels[i]? = some d ↔ ∃ v, vals[i]? = some v ∧ parseDeleteFile (some v) = .ok d := by
  induction h generalizing i with
  | nil => simp
  | cons hd _ ih =>
    cases i with
    | zero => simp [hd]
    | succ i => simpa using ih

/-- References that resolve do so at the integers they are, exactly if they are natural numbers. -/
theorem resolves_iff {root : Option Val} {dels ds : List UCScanDeleteFile} {refs : List Val}
    (hdels : List.Forall₂ (fun v d => parseDeleteFile (some v) = .ok d)
      (items (objGet root "delete-files")) dels)
    (h : (refs.map fun r => getUint (some r)).map (fun ref => dels[ref]?) = ds.map some) :
    List.Forall₂ (Resolves root) refs ds ↔ ∀ r ∈ refs, ∃ n, r = .num n ∧ IsNatural n := by
  have hpairs : List.Forall₂ (fun r d => dels[getUint (some r)]? = some d) refs ds := by
    clear hdels
    induction refs generalizing ds with
    | nil =>
      rw [List.map_eq_nil_iff.1 h.symm]
      exact .nil
    | cons r refs ih =>
      obtain ⟨d, ds', rfl, hd, hds⟩ := List.map_eq_cons_iff.1 h.symm
      exact .cons hd.symm (ih hds.symm)
  refine forall₂_iff_forall_of_forall₂ hpairs fun r d hr => ⟨?_, ?_⟩
  · rintro ⟨n, i, -, rfl, hint, hval, -⟩
    refine ⟨n, rfl, hint, ?_⟩
    rw [hval]
    exact Nat.cast_nonneg i
  · rintro ⟨n, rfl, hint, hnonneg⟩
    obtain ⟨del_val, hmem, hd⟩ := (getElem?_of_forall₂ hdels).1 hr
    exact ⟨n, _, del_val, rfl, hint, (uintOf_of_nonneg hint hnonneg).symm, hmem, hd⟩

/-- One task that is accepted and taken in. -/
theorem names_iff {root : Option Val} {dels : List UCScanDeleteFile} {task_val : Val}
    {task : UCScanPlanFileScanTask} {x : OpenFileInfo × List UCScanDeleteFile}
    (hdels : List.Forall₂ (fun v d => parseDeleteFile (some v) = .ok d)
      (items (objGet root "delete-files")) dels)
    (hparse : parseFileScanTask (some task_val) = .ok task)
    (hfile : x.1 = makeOpenFileInfo task.data_file)
    (hrefs : task.delete_file_references.map (fun ref => dels[ref]?) = x.2.map some) :
    Names root task_val x ↔ SoundTask task_val := by
  obtain ⟨hpath, hwritten⟩ := parseFileScanTask_eq_ok hparse
  rw [hwritten] at hrefs
  have hfile : x.1.path = task.data_file.file_path := by rw [hfile, makeOpenFileInfo]
  constructor
  · intro h
    refine ⟨⟨x.1.path, h.path, h.nonempty, ?_⟩, h.refs_list, (resolves_iff hdels hrefs).1 h.refs⟩
    rcases hpath with ⟨t, -, ht⟩ | ⟨hnone, -⟩
    · rw [hfile, ht]
      exact nulFree_cString t
    · cases hnone.symm.trans h.path
  · intro h
    obtain ⟨s, hs, hne, hnul⟩ := h.path
    have hsame : x.1.path = s := by
      rcases hpath with ⟨t, ht, htask⟩ | ⟨hnone, -⟩
      · cases hs.symm.trans ht
        rw [hfile, htask, cString_eq_self.2 hnul]
      · cases hnone.symm.trans hs
    exact ⟨hsame.symm ▸ hs, hsame.symm ▸ hne, h.refs_list, (resolves_iff hdels hrefs).2 h.refs⟩

/-! ## Tokens -/

/-- Every token is kept exactly if all are texts without a zero byte. -/
theorem tokens_iff (vals : List Val) :
    List.Forall₂ (fun v token => v = .str token) vals
      (vals.filterMap fun v => (getStr (some v)).map cString) ↔
        ∀ v ∈ vals, ∃ s, v = .str s ∧ NulFree s := by
  induction vals with
  | nil => simp
  | cons v vals ih =>
    rw [List.forall_mem_cons]
    cases v with
    | str t =>
      have hcons : (Val.str t :: vals).filterMap (fun v => (getStr (some v)).map cString) =
          cString t :: vals.filterMap fun v => (getStr (some v)).map cString := rfl
      rw [hcons, List.forall₂_cons, ih]
      refine and_congr ⟨fun h => ⟨t, rfl, ?_⟩, ?_⟩ Iff.rfl
      · exact cString_eq_self.1 (Val.str.inj h).symm
      · rintro ⟨s, hs, hnul⟩
        rw [← Val.str.inj hs] at hnul
        rw [cString_eq_self.2 hnul]
    | _ =>
      -- one that is left out leaves fewer tokens than items
      refine ⟨fun h => ?_, fun h => ?_⟩
      · have hlen := h.length_eq
        have hle := List.length_filterMap_le (fun v => (getStr (some v)).map cString) vals
        simp only [List.length_cons] at hlen
        have hskip : ∀ v : Val, getStr (some v) = none →
            ((v :: vals).filterMap fun v => (getStr (some v)).map cString).length =
              (vals.filterMap fun v => (getStr (some v)).map cString).length := by
          intro v hv
          rw [List.filterMap_cons_none (by rw [hv]; rfl)]
        rw [hskip _ rfl] at hlen
        omega
      · obtain ⟨⟨s, hs, -⟩, -⟩ := h
        cases hs

/-! ## References past the last -/

/-- References resolve exactly if none is past the last delete file. -/
theorem mapM_resolveReference (task : UCScanPlanFileScanTask) (dels : List UCScanDeleteFile)
    (refs : List ℕ) :
    (∃ resolved, refs.mapM (resolveReference task dels) = .ok resolved) ↔ ∀ ref ∈ refs,
      ref < dels.length := by
  induction refs with
  | nil => simp [List.mapM_nil, pure, Except.pure]
  | cons ref refs ih =>
    rw [List.mapM_cons, List.forall_mem_cons, ← ih, resolveReference]
    by_cases h : ref < dels.length
    · rw [List.getElem?_eq_getElem h]
      refine ⟨?_, ?_⟩
      · rintro ⟨resolved, hr⟩
        obtain ⟨d, -, hr⟩ := except_bind_eq_ok.1 hr
        obtain ⟨ds, hds, -⟩ := except_bind_eq_ok.1 hr
        exact ⟨h, ds, hds⟩
      · rintro ⟨-, ds, hds⟩
        exact ⟨_, except_bind_eq_ok.2 ⟨_, rfl, except_bind_eq_ok.2 ⟨ds, hds, rfl⟩⟩⟩
    · rw [List.getElem?_eq_none (by omega)]
      refine ⟨?_, fun hlt => absurd hlt.1 h⟩
      rintro ⟨resolved, hr⟩
      cases hr

/-- The tasks are taken in exactly if no reference is past the last delete file. -/
theorem addFileScanTasks_ok_iff {dels : List UCScanDeleteFile} {tasks : List UCScanPlanFileScanTask}
    {l l' : UCMultiFileList} {out : Except Exception Unit}
    (h : l.addFileScanTasks dels tasks = (out, l')) :
    out = .ok () ↔ ∀ task ∈ tasks, ∀ ref ∈ task.delete_file_references, ref < dels.length := by
  induction tasks generalizing l with
  | nil =>
    obtain ⟨rfl, -⟩ := Prod.mk.inj h
    simp
  | cons task tasks ih =>
    rw [List.forall_mem_cons, ← mapM_resolveReference task]
    rw [UCMultiFileList.addFileScanTasks, UCMultiFileList.addFileScanTask] at h
    cases hres : task.delete_file_references.mapM (resolveReference task dels) with
    | error e =>
      simp only [hres] at h
      obtain ⟨rfl, -⟩ := Prod.mk.inj h
      simp
    | ok resolved =>
      simp only [hres] at h
      rw [ih h]
      exact ⟨fun hall => ⟨⟨resolved, rfl⟩, hall⟩, And.right⟩

/-! ## The whole payload -/

theorem ingestedWhole_iff_sound {root : Option Val} {status : UCScanPlanStatus} {plan_id : String}
    {result : UCScanPlanResult} {l l' : UCMultiFileList}
    (hparse : parseScanTasksPayload root { status, plan_id } = .ok result)
    (hadd : l.addFileScanTasks result.delete_files result.file_scan_tasks = (.ok (), l')) :
    IngestedWhole root result l l' ↔ SoundPayload root := by
  simp only [parseScanTasksPayload, except_bind_eq_ok] at hparse
  obtain ⟨dels, hdels, tasks, htasks, creds, -, hresult⟩ := hparse
  obtain rfl := Except.ok.inj hresult
  have hdels := forall₂_of_mapM_eq_ok hdels
  have htasks := forall₂_of_mapM_eq_ok htasks
  obtain ⟨added, hfiles, hdeletes, hadded⟩ := addFileScanTasks_eq_ok hadd
  simp only [List.nil_append] at hadded
  have hall : List.Forall₂ (Names root) (items (objGet root "file-scan-tasks")) added ↔
      ∀ v ∈ items (objGet root "file-scan-tasks"), SoundTask v := by
    refine forall₂_iff_forall_of_forall₂ (forall₂_comp htasks hadded) ?_
    rintro v x ⟨task, htask, hfile, hrefs⟩
    exact names_iff hdels htask hfile hrefs
  have htokens := tokens_iff (items (objGet root "plan-tasks"))
  constructor
  · intro h
    refine ⟨h.tasks_list, hall.1 ?_, h.tokens_list, htokens.1 h.tokens⟩
    -- what was added is told by the two lists
    obtain ⟨added', hfiles', hdeletes', hnames⟩ := h.tasks
    have hfst := List.append_cancel_left (hfiles.symm.trans hfiles')
    have hsnd := List.append_cancel_left (hdeletes.symm.trans hdeletes')
    have hsame : added = added' :=
      (List.zip_of_prod hfst hsnd).trans (List.zip_of_prod rfl rfl).symm
    rwa [hsame]
  · intro h
    exact ⟨h.tasks_list, ⟨added, hfiles, hdeletes, hall.2 h.tasks⟩, h.tokens_list,
      htokens.2 h.tokens⟩

/-- What is read of a payload dangles exactly if the payload does. -/
theorem dangles_iff {root : Option Val} {status : UCScanPlanStatus} {plan_id : String}
    {result : UCScanPlanResult}
    (hparse : parseScanTasksPayload root { status, plan_id } = .ok result) :
    Dangles root ↔ ∃ task ∈ result.file_scan_tasks, ∃ ref ∈ task.delete_file_references,
      result.delete_files.length ≤ ref := by
  simp only [parseScanTasksPayload, except_bind_eq_ok] at hparse
  obtain ⟨dels, hdels, tasks, htasks, creds, -, hresult⟩ := hparse
  obtain rfl := Except.ok.inj hresult
  have hlen := (forall₂_of_mapM_eq_ok hdels).length_eq
  have hall := forall₂_of_mapM_eq_ok htasks
  simp only [List.nil_append]
  rw [Dangles, hlen]
  clear hdels hlen hresult htasks
  generalize items (objGet root "file-scan-tasks") = vals at hall ⊢
  induction hall with
  | nil => simp
  | cons htask _ ih =>
    rw [List.exists_mem_cons_iff, List.exists_mem_cons_iff, (parseFileScanTask_eq_ok htask).2]
    refine or_congr ?_ ih
    simp only [List.mem_map, exists_exists_and_eq_and]

/-- **A payload that is accepted is taken in whole.** `AddFileScanTask` takes the tasks in unless
one of them references a delete file past the last; those that are taken in are taken in whole
exactly if the payload is sound. -/
theorem ingestedWhole_iff {root : Option Val} {status : UCScanPlanStatus} {plan_id : String}
    {result : UCScanPlanResult} {l l' : UCMultiFileList} {out : Except Exception Unit}
    (hparse : parseScanTasksPayload root { status, plan_id } = .ok result)
    (hadd : l.addFileScanTasks result.delete_files result.file_scan_tasks = (out, l')) :
    (out = .ok () ↔ ¬ Dangles root) ∧
      ((out = .ok () → IngestedWhole root result l l') ↔ Dangles root ∨ SoundPayload root) := by
  have hout : out = .ok () ↔ ¬ Dangles root := by
    rw [addFileScanTasks_ok_iff hadd, dangles_iff hparse]
    push Not
    rfl
  refine ⟨hout, ?_⟩
  by_cases hd : Dangles root
  · exact iff_of_true (fun h => absurd hd (hout.1 h)) (.inl hd)
  · obtain rfl := hout.2 hd
    rw [ingestedWhole_iff_sound hparse hadd]
    exact ⟨fun h => .inr (h rfl), fun h _ => h.resolve_left hd⟩

/-- Two tasks, the first of them without a data file. -/
def namelessPayload : Val :=
  .obj [("file-scan-tasks", .arr [.obj [],
    .obj [("data-file", .obj [("file-path", .str "s3://b/t/1.parquet")])]])]

/-- One task whose reference is to the only delete file, and a token. -/
def plainPayload : Val :=
  .obj [("delete-files", .arr [.obj [("file-path", .str "s3://b/t/1.dv"),
      ("content", .str "position-deletes")]]),
    ("file-scan-tasks", .arr [.obj [("data-file", .obj [("file-path", .str "s3://b/t/1.parquet")]),
      ("delete-file-references", .arr [.num (.uint 0)])]]),
    ("plan-tasks", .arr [.str "more"])]

/-- The list of a scan before any task. -/
def noFiles : UCMultiFileList :=
    ⟨⟨"uc", "s", "t", { endpoint := "https://uc", token := "token" }, ""⟩, [], [], [], false⟩

/-- The task without a data file is taken in as a file without a name. -/
theorem namelessPayload_ingested :
    ¬ ∀ (root : Option Val) (status : UCScanPlanStatus) (plan_id : String)
      (result : UCScanPlanResult) (l l' : UCMultiFileList),
        parseScanTasksPayload root { status, plan_id } = .ok result →
        l.addFileScanTasks result.delete_files result.file_scan_tasks = (.ok (), l') →
          IngestedWhole root result l l' := by
  intro h
  have hwhole := h (some namelessPayload) .completed "" _ noFiles _ rfl rfl
  obtain ⟨added, hfiles, -, hnames⟩ := hwhole.tasks
  cases hnames with
  | cons hname _ => cases hname.path

/-- The plain payload is taken in whole. -/
theorem plainPayload_ingested :
    ∃ result l', parseScanTasksPayload (some plainPayload) { status := .completed, plan_id := "" } =
        .ok result ∧
      UCMultiFileList.addFileScanTasks noFiles result.delete_files
        result.file_scan_tasks = (.ok (), l') ∧
      IngestedWhole (some plainPayload) result noFiles l' := by
  refine ⟨_, _, rfl, rfl, (ingestedWhole_iff rfl rfl).2.2 (.inr ⟨.inr rfl, ?_, .inr rfl, ?_⟩) rfl⟩
  · intro v hv
    obtain rfl := List.mem_singleton.1 hv
    refine ⟨⟨"s3://b/t/1.parquet", rfl, by decide, by unfold NulFree; decide⟩, .inr rfl, ?_⟩
    intro r hr
    obtain rfl := List.mem_singleton.1 hr
    exact ⟨_, rfl, trivial, by simp [Yyjson.Num.value]⟩
  · intro v hv
    obtain rfl := List.mem_singleton.1 hv
    exact ⟨"more", rfl, by unfold NulFree; decide⟩

end UnityCatalog
