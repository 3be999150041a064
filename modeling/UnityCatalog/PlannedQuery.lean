import UnityCatalog.IrcExpression
import UnityCatalog.PlannedRows

/-!
# The answer of a planned query

The optimizer pushes filters into a scan's bind data, the server plans with what they were sent as
and may leave data files out, and DuckDB's own Filter operator applies the filters once more to the
rows the scan puts out. `planned_query_is_exact` is about all of it together: the filters that are
lost or weakened on the way to the server cost speed and no answer.
-/

namespace UnityCatalog

open Effectful QueueOrder

/-! ## What the server has -/

/-- A snapshot of a table: rows are addressed by the path of their data file and their position in
it. -/
structure Snapshot (V : Type) where
  /-- the rows of a data file -/
  rows : String → List (NamedRow V)
  /-- the rows that are not deleted -/
  live : String × ℕ → Prop

/-- The path of a task's data file. -/
def CarriedTask.path (task : CarriedTask) : String := task.1.data_file.file_path

section

variable {D V : Type}

/-- What a server owes a planner: the tasks are of this snapshot. -/
structure Snapshot.Plans (T : Snapshot V) (C : CRoaring) (F : DeleteFiles)
    (tasks : List CarriedTask) : Prop where
  /-- no data file is planned twice -/
  once : (tasks.map CarriedTask.path).Nodup
  /-- a task's delete files mark what is not live in its data file -/
  deletes : ∀ task ∈ tasks, ∀ pos < (T.rows task.path).length,
    T.live (task.path, pos) ↔ ¬ task.Marked C F pos

/-- And for this filter: a data file that is left out has no live row the filter is TRUE on. -/
def Snapshot.Prunes (T : Snapshot V) (S : SqlMeaning D V) (tasks : List CarriedTask)
    (o : Option (IrcExpr D)) : Prop :=
  ∀ path pos row, T.live (path, pos) → (T.rows path)[pos]? = some row → S.KeepsIrc row o →
    path ∈ tasks.map CarriedTask.path

/-! ## What comes out of the query -/

/-- The Filter operator over the scan: TRUE for every filter of every push. -/
def SqlMeaning.wanted (S : SqlMeaning D V) (calls : List (List (Expression D))) (row : NamedRow V) :
    Bool :=
  calls.all fun filters => filters.all fun f => S.truth (S.eval row f) == some true

theorem SqlMeaning.wanted_iff {S : SqlMeaning D V} {calls : List (List (Expression D))}
    {row : NamedRow V} :
    S.wanted calls row = true ↔ ∀ filters ∈ calls, ∀ f ∈ filters, S.Keeps row f := by
  simp [SqlMeaning.wanted, SqlMeaning.Keeps]

/-- A row of a file of the list, where the operator lets it through. -/
def UCMultiFileList.keep (l : UCMultiFileList) (T : Snapshot V) (wanted : NamedRow V → Bool)
    (x : ℕ × ℕ) : Option (String × ℕ) := do
  let file ← l.expanded_files[x.1]?
  let row ← (T.rows file.path)[x.2]?
  if wanted row then some (file.path, x.2) else none

/-- The rows of the query so far. -/
def PlannedScan.query (T : Snapshot V) (wanted : NamedRow V → Bool) (STANDARD_VECTOR_SIZE : ℕ)
    (counts : ℕ → List ℕ) (s : PlannedScan) : List (String × ℕ) :=
  (s.rows STANDARD_VECTOR_SIZE counts).filterMap (s.file_list.keep T wanted)

theorem UCMultiFileList.keep_eq_some {l : UCMultiFileList} {T : Snapshot V}
    {wanted : NamedRow V → Bool} {i pos : ℕ} {x : String × ℕ} :
    l.keep T wanted (i, pos) = some x ↔ ∃ file row, l.expanded_files[i]? = some file ∧
      (T.rows file.path)[pos]? = some row ∧ wanted row = true ∧ x = (file.path, pos) := by
  simp only [UCMultiFileList.keep, Option.bind_eq_bind, Option.bind_eq_some_iff,
    Option.ite_none_right_eq_some, Option.some.injEq]
  constructor
  · rintro ⟨file, hfile, row, hrow, hwanted, rfl⟩
    exact ⟨file, row, hfile, hrow, hwanted, rfl⟩
  · rintro ⟨file, row, hfile, hrow, hwanted, rfl⟩
    exact ⟨file, hfile, row, hrow, hwanted, rfl⟩

end

/-! ## Between the scan and the snapshot -/

section

variable {D V : Type} {T : Snapshot V} {S : SqlMeaning D V} {C : CRoaring} {F : DeleteFiles}
variable {t : ScanTarget} {plan : UCScanPlanResult} {answers : String → UCScanPlanResult}
variable {order taken rest : List String} {s : PlannedScan}

/-- The file a row is taken of is the data file of the task at its index. -/
theorem PlannedScan.Inv.file_eq (h : s.Inv C F t plan answers order taken rest) {i : ℕ}
    {file : OpenFileInfo} (hfile : s.file_list.expanded_files[i]? = some file) :
    ∃ task, (plan.tasksUpTo answers order)[i]? = some task ∧ file.path = task.path := by
  rw [h.gains.files, List.nil_append, filesOf, List.getElem?_map, Option.map_eq_some_iff] at hfile
  obtain ⟨task, htask, rfl⟩ := hfile
  refine ⟨task, ?_, rfl⟩
  -- what has been seen is how all of them begin
  rw [h.split, UCScanPlanResult.tasksUpTo_append]
  exact List.getElem?_append_left (List.getElem?_eq_some_iff.1 htask).1 ▸ htask

/-- The task of a reader has its data file listed. -/
theorem PlannedScan.Inv.file_of_reader (h : s.Inv C F t plan answers order taken rest) {i : ℕ}
    {task : CarriedTask} (hi : i ∈ s.readers.map Prod.fst)
    (htask : (plan.tasksUpTo answers order)[i]? = some task) :
    ∃ file, s.file_list.expanded_files[i]? = some file ∧ file.path = task.path := by
  obtain ⟨r, hr, rfl⟩ := List.mem_map.1 hi
  obtain ⟨task', htask', -⟩ := h.filters r hr
  have hsame : (plan.tasksUpTo answers order)[r.1]? = some task' := by
    rw [h.split, UCScanPlanResult.tasksUpTo_append]
    exact List.getElem?_append_left (List.getElem?_eq_some_iff.1 htask').1 ▸ htask'
  obtain rfl : task = task' := Option.some.inj (htask.symm.trans hsame)
  refine ⟨makeOpenFileInfo task.1.data_file, ?_, rfl⟩
  rw [h.gains.files, List.nil_append, filesOf, List.getElem?_map, htask']
  rfl

/-- Two rows of one data file are of one task. -/
theorem PlannedScan.Inv.index_inj (h : s.Inv C F t plan answers order taken rest)
    (honce : ((plan.tasksUpTo answers order).map CarriedTask.path).Nodup) {i j : ℕ}
    {file file' : OpenFileInfo} (hi : s.file_list.expanded_files[i]? = some file)
    (hj : s.file_list.expanded_files[j]? = some file') (hpath : file.path = file'.path) :
      i = j := by
  obtain ⟨task, htask, hfile⟩ := h.file_eq hi
  obtain ⟨task', htask', hfile'⟩ := h.file_eq hj
  have hlt : i < (plan.tasksUpTo answers order).length := (List.getElem?_eq_some_iff.1 htask).1
  refine (List.getElem?_inj (by simpa using hlt) honce).1 ?_
  simp [htask, htask', ← hfile, ← hfile', hpath]

end

/-! ## The answer -/

section

variable {D V : Type} [DoubleFormat D] {S : SqlMeaning D V} {C : CRoaring} {F : DeleteFiles}
variable {fuel : ℕ} {server : HttpRequest → HttpResponse} {answers : String → UCScanPlanResult}
variable {plan : UCScanPlanResult} {order : List String} {bd : UCScanPlanBindData}
variable {calls : List (List (Expression D))} {l : UCMultiFileList}

/-- **A planned query is exact.** Whatever filters the optimizer pushes, in however many calls and
whether or not they can be sent, and however the threads of the scan interleave: where the server's
plan is one for the filter it was sent, no row comes out of the query that is not a live row of the
snapshot on which every filter is TRUE, none comes out twice, and once the list is at its end and
each of its files has been read they all have come out. -/
theorem planned_query_is_exact (T : Snapshot V) (STANDARD_VECTOR_SIZE : ℕ) (counts : ℕ → List ℕ)
    (hbd : bd.filter_json = "")
    (hplans : T.Plans C F (plan.tasksUpTo answers order))
    (hprunes : ∀ o : Option (IrcExpr D),
      (calls.foldl pushdownFilter bd).filter_json = filterText o →
      T.Prunes S (plan.tasksUpTo answers order) o)
    (ho : Order (fun k => (answers k).plan_tasks) plan.plan_tasks order)
    (hserver : ∀ k ∈ order, exchanged server bd.target k = .ok (answers k))
    (hfuel : order.length < fuel)
    (hl : UCMultiFileList.create bd.target plan = .ok l)
    (hcounts : ∀ i, ∀ count ∈ counts i, count ≤ STANDARD_VECTOR_SIZE)
    (hrows : ∀ i, (counts i).sum ≤ 2 ^ 63)
    (hlengths : ∀ i task, (plan.tasksUpTo answers order)[i]? = some task →
      (counts i).sum = (T.rows task.path).length)
    {s : PlannedScan}
    (hrun : Relation.ReflTransGen (PlannedScan.Step server C F fuel) { file_list := l } s) :
    (s.query T (S.wanted calls) STANDARD_VECTOR_SIZE counts).Nodup ∧
    (∀ path pos, (path, pos) ∈ s.query T (S.wanted calls) STANDARD_VECTOR_SIZE counts →
      T.live (path, pos) ∧ ∃ row, (T.rows path)[pos]? = some row ∧
        ∀ filters ∈ calls, ∀ f ∈ filters, S.Keeps row f) ∧
    (s.ended → (∀ i < s.file_list.expanded_files.length, i ∈ s.readers.map Prod.fst) →
      ∀ path pos row, T.live (path, pos) → (T.rows path)[pos]? = some row →
        (∀ filters ∈ calls, ∀ f ∈ filters, S.Keeps row f) →
        (path, pos) ∈ s.query T (S.wanted calls) STANDARD_VECTOR_SIZE counts) := by
  obtain ⟨taken, rest, hinv⟩ := (PlannedScan.Inv.start hl ho).run hserver hfuel hrun
  obtain ⟨hnodup, hmem⟩ := hinv.mem_rows hcounts hrows
  refine ⟨?_, ?_, ?_⟩
  · refine hnodup.filterMap fun x y z hx hy => ?_
    obtain ⟨file, _, hfile, -, -, rfl⟩ := UCMultiFileList.keep_eq_some.1 hx
    obtain ⟨file', _, hfile', -, -, heq⟩ := UCMultiFileList.keep_eq_some.1 hy
    obtain ⟨hpath, hpos⟩ := Prod.mk.inj heq
    exact Prod.ext (hinv.index_inj hplans.once hfile hfile' hpath) hpos
  · intro path pos hx
    obtain ⟨⟨i, row⟩, hread, hkeep⟩ := List.mem_filterMap.1 hx
    obtain ⟨file, value, hfile, hvalue, hwanted, heq⟩ := UCMultiFileList.keep_eq_some.1 hkeep
    obtain ⟨rfl, rfl⟩ := Prod.mk.inj heq
    obtain ⟨task, htask, hpath⟩ := hinv.file_eq hfile
    obtain ⟨-, task', htask', hlt, hunmarked⟩ := (hmem i pos).1 hread
    obtain rfl : task = task' := Option.some.inj (htask.symm.trans htask')
    rw [hlengths i task htask] at hlt
    rw [hpath] at hvalue ⊢
    exact ⟨(hplans.deletes task (List.mem_of_getElem? htask) pos hlt).2 hunmarked, value, hvalue,
      SqlMeaning.wanted_iff.1 hwanted⟩
  · intro hended hall path pos row hlive hrow hk
    -- what was sent is TRUE on the row, so its data file is in the plan
    have hstart (row : NamedRow V) : S.Sends row bd := ⟨none, hbd, by simp [SqlMeaning.KeepsIrc]⟩
    obtain ⟨o, ho', hkeeps⟩ := S.sends_foldl_pushdownFilter hk (hstart row)
    obtain ⟨task, htask, rfl⟩ := List.mem_map.1 (hprunes o ho' path pos row hlive hrow hkeeps)
    obtain ⟨i, hi⟩ := List.mem_iff_getElem?.1 htask
    have hreader : i ∈ s.readers.map Prod.fst := by
      apply hall
      rw [(hinv.gains.file_deletes_length rfl rfl).1, ← hinv.exhausted hended]
      exact (List.getElem?_eq_some_iff.1 hi).1
    obtain ⟨file, hfile, hpath⟩ := hinv.file_of_reader hreader hi
    have hlt : pos < (T.rows task.path).length := (List.getElem?_eq_some_iff.1 hrow).1
    refine List.mem_filterMap.2 ⟨(i, pos), (hmem i pos).2 ⟨hreader, task, hi, ?_, ?_⟩, ?_⟩
    · rw [hlengths i task hi]
      exact hlt
    · exact (hplans.deletes task htask pos hlt).1 hlive
    · rw [UCMultiFileList.keep_eq_some]
      exact ⟨file, row, hfile, hpath ▸ hrow, SqlMeaning.wanted_iff.2 hk, by rw [hpath]⟩

end

/-! ### A file that is left out -/

/-- A text that begins like a null test is one. -/
theorem isNull_of_toJson {D : Type} [DoubleFormat D] {e : IrcExpr D} {term : String}
    (h : nullNode "is-null" term = e.toJson) : ∃ term', e = .isNull term' := by
  -- the first letter of the type tells
  have hletter := congrArg (fun s => s.toList[9]?) h
  cases e with
  | isNull term' => exact ⟨term', rfl⟩
  | comparison type term' value =>
    cases type <;> simp [IrcExpr.toJson, nullNode, comparisonNode, IrcComparison.text] at hletter
  | notNull term' => simp [IrcExpr.toJson, nullNode] at hletter
  | and left right => simp [IrcExpr.toJson, nullNode, binaryNode] at hletter
  | or left right => simp [IrcExpr.toJson, nullNode, binaryNode] at hletter

/-- `name IS NULL`; then the optimizer's second call, with nothing left. -/
def nullPushes : List (List (Expression WholeDouble)) :=
    [[.operator .isNull [.columnRef "name"]], []]

/-- Two data files, of which the second has no NULL. -/
def twoFiles : Snapshot ℤ where
  rows path := if path = "f0" then [fun _ => none, fun _ => some 1] else
    if path = "f1" then [fun _ => some 1] else []
  live x := x.1 = "f0" ∧ x.2 < 2 ∨ x.1 = "f1" ∧ x.2 < 1

/-- The plan leaves it out. -/
def firstFilePlan : UCScanPlanResult :=
  { status := .completed, file_scan_tasks := [⟨{ file_path := "f0" }, []⟩] }

/-- The bind data before any push. -/
def unfilteredScan : UCScanPlanBindData where
  catalog_name := "c"
  schema_name := "s"
  table_name := "t"
  storage_location := ""
  credentials := { endpoint := "http://uc", token := "" }
  scan_plan_endpoint := "http://irc"

/-- There is one task. -/
theorem firstFilePlan_task {task : CarriedTask}
    (h : task ∈ firstFilePlan.tasksUpTo chainedAnswers []) :
    task = (⟨{ file_path := "f0" }, []⟩, []) := by
  simpa [UCScanPlanResult.tasksUpTo, UCScanPlanResult.carried, firstFilePlan] using h

theorem twoFiles_plans : twoFiles.Plans arrayRoaring twoDeleteFiles
    (firstFilePlan.tasksUpTo chainedAnswers []) := by
  constructor
  · decide
  · intro task htask pos hpos
    obtain rfl := firstFilePlan_task htask
    have hlt : pos < 2 := by simpa [CarriedTask.path, twoFiles] using hpos
    simpa [CarriedTask.path, CarriedTask.Marked, twoFiles] using Nat.le_of_lt_succ hlt

theorem twoFiles_prunes {o : Option (IrcExpr WholeDouble)}
    (ho : (nullPushes.foldl pushdownFilter unfilteredScan).filter_json = filterText o) :
    twoFiles.Prunes wholeNumbers (firstFilePlan.tasksUpTo chainedAnswers []) o := by
  have htext : (nullPushes.foldl pushdownFilter unfilteredScan).filter_json =
      nullNode "is-null" (jsonQuote "name") := by decide +kernel
  rw [htext] at ho
  rcases o with _ | e
  · exact absurd ho (by decide +kernel)
  obtain ⟨term, rfl⟩ := isNull_of_toJson ho
  rintro path pos row (⟨rfl, -⟩ | ⟨rfl, hpos⟩) hrow hkeeps
  · decide
  · -- the row left out has no NULL
    obtain rfl : pos = 0 := by simpa using hpos
    obtain rfl : (fun _ => some 1) = row := by simpa [twoFiles] using hrow
    simpa [SqlMeaning.evalIrc] using hkeeps _ rfl

/-- The list made of the plan. -/
def firstFileList : UCMultiFileList where
  target := unfilteredScan.target
  expanded_files := [⟨"f0", none⟩]
  file_deletes := [[]]
  all_files_expanded := true

/-- The scan at its end, with a reader for the file. -/
def prunedScan : PlannedScan where
  file_list := firstFileList
  readers := [(0, none)]
  ended := true

theorem prunedScan_reached :
    Relation.ReflTransGen (PlannedScan.Step chainedServer arrayRoaring twoDeleteFiles 1)
      { file_list := firstFileList } prunedScan := by
  have hexpand : (firstFileList.expandNextPath 1).Exec (W := TaskServer chainedServer) () {}
      (.ok (some (.ok false), firstFileList)) {} := Prog.exec_ret.2 ⟨rfl, rfl⟩
  have hended : PlannedScan.Step chainedServer arrayRoaring twoDeleteFiles 1
      { file_list := firstFileList } { file_list := firstFileList, ended := true } :=
    .expand (s := { file_list := firstFileList }) hexpand
  have hbind : (firstFileList.finalizeBind arrayRoaring 0 (by decide) (by decide)).given
      twoDeleteFiles.answer = .ok none := rfl
  have hread : PlannedScan.Step chainedServer arrayRoaring twoDeleteFiles 1
      { file_list := firstFileList, ended := true } prunedScan :=
    .bind (s := { file_list := firstFileList, ended := true }) _ _ (by simp) hbind
  exact (Relation.ReflTransGen.single hended).tail hread

/-- The row with a NULL comes out. -/
theorem planned_query_is_exact_pruned :
    ("f0", 0) ∈ prunedScan.query twoFiles (wholeNumbers.wanted nullPushes) 2048 (fun _ => [2]) := by
  have hlengths : ∀ (i : ℕ) (task : CarriedTask),
      (firstFilePlan.tasksUpTo chainedAnswers [])[i]? = some task →
        [2].sum = (twoFiles.rows task.path).length := by
    intro i task htask
    obtain rfl := firstFilePlan_task (List.mem_of_getElem? htask)
    rfl
  have h :=
    planned_query_is_exact (S := wholeNumbers) twoFiles 2048 (fun _ => [2]) rfl twoFiles_plans
    (fun o => twoFiles_prunes) .nil (by simp) (by decide) rfl (by simp) (by simp) (fun _ =>
      hlengths _)
    prunedScan_reached
  exact h.2.2 rfl (by decide) "f0" 0 (fun _ => none) (.inl ⟨rfl, by decide⟩) rfl
    (SqlMeaning.wanted_iff.1 (by decide))

end UnityCatalog
