import UnityCatalog.FileList
import UnityCatalog.PositionDeletes
import Mathlib.Logic.Relation

/-!
# The rows of a planned scan

A planned scan reads the files of its list while the list still grows: one thread asks
`ExpandNextPath` for more files, others have readers made of files that are listed already, and
`UCMultiFileReader::FinalizeBind` hangs on each reader the filter of its file's own delete files.
`rows_of_every_schedule` says which rows come of it, whatever the schedule.
-/

namespace UnityCatalog

open Effectful QueueOrder

/-! ## `UCMultiFileReader` -/

namespace UCMultiFileList

/-- `GetDeleteFilesForFile`; the bound is asserted. -/
def getDeleteFilesForFile (l : UCMultiFileList) (file_idx : ℕ)
    (h : file_idx < l.file_deletes.length) : List UCScanDeleteFile :=
  l.file_deletes[file_idx]

/-- `GetDataFilePath`; the bound is asserted. -/
def getDataFilePath (l : UCMultiFileList) (file_idx : ℕ)
    (h : file_idx < l.expanded_files.length) : String :=
  l.expanded_files[file_idx].path

/-- `UCMultiFileReader::FinalizeBind`: the `deletion_filter` of the reader. -/
def finalizeBind (C : CRoaring) (l : UCMultiFileList) (file_idx : ℕ)
    (hfile : file_idx < l.expanded_files.length) (hdeletes : file_idx < l.file_deletes.length) :
    Prog DeleteFileOps Exception (Option UCPositionDeleteFilter) :=
  let deletes := l.getDeleteFilesForFile file_idx hdeletes
  if deletes = [] then return none
  else buildUCDeleteFilter C (l.getDataFilePath file_idx hfile) deletes

end UCMultiFileList

/-! ## Schedules -/

/-- A planned scan under way. -/
structure PlannedScan where
  file_list : UCMultiFileList
  server : TasksState := {}
  /-- the readers made so far: a file's index, and the filter hung on its reader -/
  readers : List (ℕ × Option UCPositionDeleteFilter) := []
  /-- `ExpandNextPath` has returned false -/
  ended : Bool := false

section

variable (server : HttpRequest → HttpResponse) (C : CRoaring) (F : DeleteFiles) (fuel : ℕ)

/-- What the threads of a scan do, in any order. A throw ends the scan, so it is no step of it. -/
inductive PlannedScan.Step : PlannedScan → PlannedScan → Prop where
  /-- one asks for more files -/
  | expand {s : PlannedScan} {more : Bool} {l' : UCMultiFileList} {server' : TasksState} :
      (s.file_list.expandNextPath fuel).Exec (W := TaskServer server) () s.server
        (.ok (some (.ok more), l')) server' →
      Step s { s with file_list := l', server := server', ended := !more }
  /-- one makes the reader of a listed file that has none yet -/
  | bind {s : PlannedScan} {file_idx : ℕ} {filter : Option UCPositionDeleteFilter}
      (hfile : file_idx < s.file_list.expanded_files.length)
      (hdeletes : file_idx < s.file_list.file_deletes.length) :
      file_idx ∉ s.readers.map Prod.fst →
      (s.file_list.finalizeBind C file_idx hfile hdeletes).given F.answer = .ok filter →
      Step s { s with readers := s.readers ++ [(file_idx, filter)] }

end

/-- The rows the readers put out, each with its file's index; `counts` are the chunks a file's rows
come in. -/
def PlannedScan.rows (STANDARD_VECTOR_SIZE : ℕ) (counts : ℕ → List ℕ) (s : PlannedScan) :
    List (ℕ × ℕ) :=
  s.readers.flatMap fun r => (readRows STANDARD_VECTOR_SIZE r.2 0 (counts r.1)).map (r.1, ·)

/-- A file-scan task, with the delete files of the response that carried it. -/
abbrev CarriedTask : Type := UCScanPlanFileScanTask × List UCScanDeleteFile

/-- The delete files a task references mark a position of its data file. -/
def CarriedTask.Marked (C : CRoaring) (F : DeleteFiles) (task : CarriedTask) (pos : ℤ) : Prop :=
  ∃ ref ∈ task.1.delete_file_references, ∃ d, task.2[ref]? = some d ∧
    Marks C F task.1.data_file.file_path d pos

/-! ## One reader -/

section

variable {C : CRoaring} {F : DeleteFiles} {l l₀ : UCMultiFileList} {tasks : List CarriedTask}

theorem UCMultiFileList.Gains.file_deletes_length (h : Gains tasks l₀ l)
    (hfiles : l₀.expanded_files = []) (hdeletes : l₀.file_deletes = []) :
    l.expanded_files.length = tasks.length ∧ l.file_deletes.length = tasks.length := by
  have hlen := congrArg List.length h.deletes
  simp only [hdeletes, List.map_nil, List.nil_append, namedBy, List.length_map] at hlen
  exact ⟨by simp [h.files, hfiles, filesOf], hlen⟩

/-- The filter of a file's reader is that of its own task, resolved in its own response. -/
theorem UCMultiFileList.finalizeBind_spec (h : Gains tasks l₀ l) (hnofiles : l₀.expanded_files = [])
    (hnodeletes : l₀.file_deletes = []) {file_idx : ℕ} {filter : Option UCPositionDeleteFilter}
    (hfile : file_idx < l.expanded_files.length) (hdeletes : file_idx < l.file_deletes.length)
    (hfilter : (l.finalizeBind C file_idx hfile hdeletes).given F.answer = .ok filter) :
    ∃ task, tasks[file_idx]? = some task ∧
      ∀ pos, pos ∈ filter.elim ∅ UCPositionDeleteFilter.positions ↔ task.Marked C F pos := by
  have hlt : file_idx < tasks.length := (h.file_deletes_length hnofiles hnodeletes).1 ▸ hfile
  refine ⟨tasks[file_idx], by simp, ?_⟩
  -- the path is the task's, and the delete files are those its references name
  have hpath : l.getDataFilePath file_idx hfile = tasks[file_idx].1.data_file.file_path := by
    have hget : l.expanded_files[file_idx]? =
        some (makeOpenFileInfo tasks[file_idx].1.data_file) := by
      simp [h.files, hnofiles, filesOf, hlt]
    obtain ⟨_, heq⟩ := List.getElem?_eq_some_iff.1 hget
    rw [getDataFilePath, heq, makeOpenFileInfo]
  have hnamed : (l.getDeleteFilesForFile file_idx hdeletes).map some =
      tasks[file_idx].1.delete_file_references.map fun ref => tasks[file_idx].2[ref]? := by
    have hget := congrArg (·[file_idx]?) h.deletes
    simpa [hnodeletes, namedBy, hlt, hdeletes, getDeleteFilesForFile] using hget
  have hmem : ∀ d, d ∈ l.getDeleteFilesForFile file_idx hdeletes ↔
      ∃ ref ∈ tasks[file_idx].1.delete_file_references, tasks[file_idx].2[ref]? = some d := by
    intro d
    rw [← List.mem_map_of_injective (Option.some_injective _), hnamed, List.mem_map]
  intro pos
  rw [finalizeBind] at hfilter
  have hmarks : pos ∈ filter.elim ∅ UCPositionDeleteFilter.positions ↔
      ∃ d ∈ l.getDeleteFilesForFile file_idx hdeletes,
        Marks C F (l.getDataFilePath file_idx hfile) d pos := by
    split at hfilter
    · rename_i hnil
      obtain rfl := Except.ok.inj hfilter
      simp [hnil]
    · exact (buildUCDeleteFilter_eq_ok.1 hfilter).2.2 pos
  rw [hmarks, hpath, CarriedTask.Marked]
  simp only [hmem]
  constructor
  · rintro ⟨d, ⟨ref, href, hd⟩, hmark⟩
    exact ⟨ref, href, d, hd, hmark⟩
  · rintro ⟨ref, href, d, hd, hmark⟩
    exact ⟨d, ⟨ref, href, hd⟩, hmark⟩

end

/-! ## Whole scans -/

section

variable {server : HttpRequest → HttpResponse} {C : CRoaring} {F : DeleteFiles} {fuel : ℕ}
variable {t : ScanTarget} {answers : String → UCScanPlanResult} {plan : UCScanPlanResult}
variable {order : List String}

/-- The tasks a scan has seen after exchanging the tokens `taken`. -/
def UCScanPlanResult.tasksUpTo (plan : UCScanPlanResult) (answers : String → UCScanPlanResult)
    (taken : List String) : List CarriedTask :=
  plan.carried ++ taken.flatMap fun k => (answers k).carried

/-- What holds of a scan at any time: the list holds the tasks of the tokens exchanged so far, in
order, and a reader has the filter of the task at its index. -/
structure PlannedScan.Inv (C : CRoaring) (F : DeleteFiles) (t : ScanTarget)
    (plan : UCScanPlanResult)
    (answers : String → UCScanPlanResult) (order taken rest : List String) (s : PlannedScan) :
    Prop where
  split : order = taken ++ rest
  gains : UCMultiFileList.Gains (plan.tasksUpTo answers taken) { target := t } s.file_list
  queue : Order (fun k => (answers k).plan_tasks) s.file_list.remaining_tokens rest
  ended : s.ended → s.file_list.remaining_tokens = []
  distinct : (s.readers.map Prod.fst).Nodup
  filters : ∀ r ∈ s.readers, ∃ task, (plan.tasksUpTo answers taken)[r.1]? = some task ∧
    ∀ pos, pos ∈ r.2.elim ∅ UCPositionDeleteFilter.positions ↔ task.Marked C F pos

theorem UCScanPlanResult.tasksUpTo_append (taken taken' : List String) :
    plan.tasksUpTo answers (taken ++ taken') =
      plan.tasksUpTo answers taken ++ taken'.flatMap fun k => (answers k).carried := by
  simp [UCScanPlanResult.tasksUpTo]

/-- A step keeps it, with more of the tokens exchanged. -/
theorem PlannedScan.Inv.step {s s' : PlannedScan} {taken rest : List String}
    (hserver : ∀ k ∈ order, exchanged server t k = .ok (answers k)) (hfuel : order.length < fuel)
    (h : s.Inv C F t plan answers order taken rest) (hs : PlannedScan.Step server C F fuel s s') :
    ∃ taken' rest', s'.Inv C F t plan answers order taken' rest' := by
  cases hs with
  | @expand more l' server' hexp =>
    have htarget : s.file_list.target = t := h.gains.target
    obtain ⟨outcome, l₁, taken', rest', hr, hrest, -, hexpands⟩ :=
      UCMultiFileList.expandNextPath_spec h.queue rfl
        (fun k hk => by rw [htarget]; exact hserver k (h.split ▸ List.mem_append_right _ hk))
        (by rw [h.split, List.length_append] at hfuel; omega) hexp
    cases hr
    obtain ⟨hgains, hqueue⟩ := hexpands.gains more rfl
    refine ⟨taken ++ taken', rest', ?_⟩
    constructor
    · rw [h.split, hrest, List.append_assoc]
    · rw [UCScanPlanResult.tasksUpTo_append]
      exact h.gains.trans hgains
    · exact hqueue
    · intro hended
      have hmore : more = false := by simpa using hended
      exact hexpands.exhausted (by rw [hmore])
    · exact h.distinct
    · -- the files already listed keep their places
      intro r hr
      obtain ⟨task, htask, hmarked⟩ := h.filters r hr
      refine ⟨task, ?_, hmarked⟩
      rw [UCScanPlanResult.tasksUpTo_append]
      exact List.getElem?_append_left (List.getElem?_eq_some_iff.1 htask).1 ▸ htask
  | @bind file_idx filter hfile hdeletes hnew hfilter =>
    refine ⟨taken, rest, h.split, h.gains, h.queue, h.ended, ?_, ?_⟩
    · rw [List.map_append, List.nodup_append]
      refine ⟨h.distinct, by simp, ?_⟩
      rintro i hi j hj rfl
      obtain rfl : i = file_idx := by simpa using hj
      exact hnew hi
    · intro r hr
      rcases List.mem_append.1 hr with hr | hr
      · exact h.filters r hr
      · obtain rfl : r = (file_idx, filter) := by simpa using hr
        exact UCMultiFileList.finalizeBind_spec h.gains rfl rfl hfile hdeletes hfilter

/-- A whole run keeps it. -/
theorem PlannedScan.Inv.run {s s' : PlannedScan} {taken rest : List String}
    (hserver : ∀ k ∈ order, exchanged server t k = .ok (answers k)) (hfuel : order.length < fuel)
    (h : s.Inv C F t plan answers order taken rest)
    (hrun : Relation.ReflTransGen (PlannedScan.Step server C F fuel) s s') :
    ∃ taken' rest', s'.Inv C F t plan answers order taken' rest' := by
  induction hrun with
  | refl => exact ⟨taken, rest, h⟩
  | tail _ hstep ih =>
    obtain ⟨taken', rest', hinv⟩ := ih
    exact hinv.step hserver hfuel hstep

/-- It holds when the list has been made. -/
theorem PlannedScan.Inv.start {l : UCMultiFileList} (hl : UCMultiFileList.create t plan = .ok l)
    (ho : Order (fun k => (answers k).plan_tasks) plan.plan_tasks order) :
    PlannedScan.Inv C F t plan answers order [] order { file_list := l } := by
  have hcreate := UCMultiFileList.create_spec t plan
  rw [hl] at hcreate
  obtain ⟨hinline, htokens⟩ := hcreate
  constructor
  · rfl
  · simpa [UCScanPlanResult.tasksUpTo] using hinline
  · exact htokens ▸ ho
  · simp
  · simp
  · simp

/-- No token is left where the list is at its end, so it holds every task. -/
theorem PlannedScan.Inv.exhausted {s : PlannedScan} {taken rest : List String}
    (h : s.Inv C F t plan answers order taken rest) (hended : s.ended) : order = taken := by
  have hqueue := h.queue
  rw [h.ended hended] at hqueue
  obtain rfl : rest = [] := by cases hqueue; rfl
  simpa using h.split

/-- The rows of a state in which the invariant holds. -/
theorem PlannedScan.Inv.mem_rows {s : PlannedScan} {taken rest : List String}
    {STANDARD_VECTOR_SIZE : ℕ} {counts : ℕ → List ℕ}
    (hcounts : ∀ i, ∀ count ∈ counts i, count ≤ STANDARD_VECTOR_SIZE)
    (hrows : ∀ i, (counts i).sum ≤ 2 ^ 63) (h : s.Inv C F t plan answers order taken rest) :
    (s.rows STANDARD_VECTOR_SIZE counts).Nodup ∧
      ∀ i row, (i, row) ∈ s.rows STANDARD_VECTOR_SIZE counts ↔ i ∈ s.readers.map Prod.fst ∧
        ∃ task, (plan.tasksUpTo answers order)[i]? = some task ∧ row < (counts i).sum ∧
          ¬ task.Marked C F row := by
  -- a reader gives the rows that its filter does not have
  have hread : ∀ r ∈ s.readers, readRows STANDARD_VECTOR_SIZE r.2 0 (counts r.1) =
      (List.range' 0 (counts r.1).sum).filter fun row : ℕ =>
        (row : ℤ) ∉ r.2.elim ∅ UCPositionDeleteFilter.positions := by
    intro r _
    exact readRows_eq (hcounts r.1) (by simpa using hrows r.1)
  -- and its filter has the rows that its file's task marks
  have htask : ∀ r ∈ s.readers, ∃ task, (plan.tasksUpTo answers order)[r.1]? = some task ∧
      ∀ pos, pos ∈ r.2.elim ∅ UCPositionDeleteFilter.positions ↔ task.Marked C F pos := by
    intro r hr
    obtain ⟨task, htask, hmarked⟩ := h.filters r hr
    refine ⟨task, ?_, hmarked⟩
    rw [h.split, UCScanPlanResult.tasksUpTo_append]
    exact List.getElem?_append_left (List.getElem?_eq_some_iff.1 htask).1 ▸ htask
  constructor
  · rw [PlannedScan.rows, List.nodup_flatMap]
    constructor
    · intro r hr
      rw [hread r hr]
      exact ((List.nodup_range' ).filter _).map fun a b hab => (Prod.mk.inj hab).2
    · -- two readers are of two files
      have hpair := List.pairwise_map.1 h.distinct
      refine hpair.imp fun {r r'} hne => ?_
      rw [Function.onFun, List.disjoint_left]
      intro x hx hx'
      obtain ⟨_, -, rfl⟩ := List.mem_map.1 hx
      obtain ⟨_, -, heq⟩ := List.mem_map.1 hx'
      exact hne (Prod.mk.inj heq).1.symm
  · intro i row
    simp only [PlannedScan.rows, List.mem_flatMap, List.mem_map, Prod.mk.injEq]
    constructor
    · rintro ⟨r, hr, row', hrow, rfl, rfl⟩
      obtain ⟨task, hget, hmarked⟩ := htask r hr
      rw [hread r hr] at hrow
      refine ⟨⟨r, hr, rfl⟩, task, hget, ?_⟩
      simpa [hmarked] using hrow
    · rintro ⟨⟨r, hr, rfl⟩, task, hget, hlt, hunmarked⟩
      obtain ⟨task', hget', hmarked⟩ := htask r hr
      obtain rfl : task = task' := Option.some.inj (hget.symm.trans hget')
      refine ⟨r, hr, row, ?_, rfl, rfl⟩
      rw [hread r hr]
      simpa [hmarked] using ⟨hlt, hunmarked⟩

/-- **The rows of a planned scan do not depend on its schedule.** However the calls of
`ExpandNextPath` and the readers of files already listed are interleaved, the rows read so far are
those of the files that have a reader, less what the delete files of a file's own task mark, in the
response that carried the task; none is read twice. Where `ExpandNextPath` has returned false and
every listed file has its reader, they are the rows of all the plan's tasks. -/
theorem PlannedScan.rows_of_every_schedule {l : UCMultiFileList} (STANDARD_VECTOR_SIZE : ℕ)
    (counts : ℕ → List ℕ)
    (htree : FiniteTree (fun k => (answers k).plan_tasks) plan.plan_tasks)
    (hserver : ∀ k, Reach (fun k => (answers k).plan_tasks) plan.plan_tasks k →
      exchanged server t k = .ok (answers k))
    (hl : UCMultiFileList.create t plan = .ok l)
    (hcounts : ∀ i, ∀ count ∈ counts i, count ≤ STANDARD_VECTOR_SIZE)
    (hrows : ∀ i, (counts i).sum ≤ 2 ^ 63) :
    ∃ order, Order (fun k => (answers k).plan_tasks) plan.plan_tasks order ∧ order.Nodup ∧
      (∀ k, k ∈ order ↔ Reach (fun k => (answers k).plan_tasks) plan.plan_tasks k) ∧
      ∀ fuel, order.length < fuel → ∀ s,
        Relation.ReflTransGen (PlannedScan.Step server C F fuel) { file_list := l } s →
        ((s.rows STANDARD_VECTOR_SIZE counts).Nodup ∧
          ∀ i row, (i, row) ∈ s.rows STANDARD_VECTOR_SIZE counts ↔ i ∈ s.readers.map Prod.fst ∧
            ∃ task, (plan.tasksUpTo answers order)[i]? = some task ∧ row < (counts i).sum ∧
              ¬ task.Marked C F row) ∧
        (s.ended → (∀ i < s.file_list.expanded_files.length, i ∈ s.readers.map Prod.fst) →
          ∀ i row, (i, row) ∈ s.rows STANDARD_VECTOR_SIZE counts ↔
            ∃ task, (plan.tasksUpTo answers order)[i]? = some task ∧ row < (counts i).sum ∧
              ¬ task.Marked C F row) := by
  obtain ⟨order, ho⟩ := htree.exists_order
  refine ⟨order, ho, ho.nodup htree, fun k => ho.mem_iff, ?_⟩
  intro fuel hfuel s hrun
  obtain ⟨taken, rest, hinv⟩ := (PlannedScan.Inv.start hl ho).run
    (fun k hk => hserver k (ho.mem_iff.1 hk)) hfuel hrun
  obtain ⟨hnodup, hmem⟩ := hinv.mem_rows hcounts hrows
  refine ⟨⟨hnodup, hmem⟩, ?_⟩
  intro hended hall i row
  refine (hmem i row).trans ⟨fun h => h.2, fun h => ⟨?_, h⟩⟩
  have horder : order = taken := hinv.exhausted hended
  obtain ⟨task, htask, -⟩ := h
  apply hall
  rw [(hinv.gains.file_deletes_length rfl rfl).1, ← horder]
  exact (List.getElem?_eq_some_iff.1 htask).1

end

/-- Three files, one inline and two behind tokens, of three rows each. -/
theorem PlannedScan.rows_of_every_schedule_chained :
    ∃ order :
      List String, (∀ k, k ∈ order ↔ Reach (fun k => (chainedAnswers k).plan_tasks) ["t1"] k) ∧
      ∀ fuel, order.length < fuel → ∀ s,
        Relation.ReflTransGen (PlannedScan.Step chainedServer arrayRoaring twoDeleteFiles fuel)
          { file_list := chainedList } s →
        ∀ row, (0, row) ∈ s.rows 2048 (fun _ => [2, 1]) → row < 3 := by
  obtain ⟨order, -, -, hmem, hscan⟩ := PlannedScan.rows_of_every_schedule (C := arrayRoaring)
    (F := twoDeleteFiles) 2048 (fun _ => [2, 1]) chained_tree
    (fun k hk => chainedServer_answers k (chained_reach hk))
    (show UCMultiFileList.create chainedScan chainedPlan = .ok chainedList from rfl)
    (by simp) (by simp)
  refine ⟨order, hmem, fun fuel hfuel s hrun row hrow => ?_⟩
  obtain ⟨-, _, -, hlt, -⟩ := ((hscan fuel hfuel s hrun).1.2 0 row).1 hrow
  exact hlt

end UnityCatalog
