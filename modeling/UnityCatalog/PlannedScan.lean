import UnityCatalog.FallbackScan
import UnityCatalog.YyjsonText
import Mathlib.Data.List.Perm.Basic

/-!
# A planned scan against the Delta log

A planned scan reads the planned files with parquet alone: the columns of the first file, in that
file's order, are the ones the statement's positions index, and the other files are matched to them
by name. Reading through the log takes each reported column from each file by name, and null where
the file was written before the column was added. `planned_reads_iff` says when the two agree.
-/

namespace UnityCatalog

open Effectful Yyjson

/-! ## Data files -/

/-- A data file: its columns, in file order, and the rows that no delete marks, each by position. -/
structure DataFile (V : Type) where
  columns : List ColumnDefinition
  rows : List (ℕ → V)

/-- Where a file has a column of this name. -/
def locate (columns : List ColumnDefinition) (b : Option ColumnDefinition) : Option ℕ :=
  b.bind fun b => columns.findIdx? fun a => identifier a.name == identifier b.name

/-- The rows of files, when a position means the column of that name among `columns`: null where the
file has none. A virtual column is left out. -/
def readAs {V : Type} (columns : List ColumnDefinition) (files : List (DataFile V))
    (input : TableFunctionInitInput) : List (List (Option V)) :=
  files.flatMap fun f => f.rows.map fun row => input.output.map fun
    | .column i => (locate f.columns columns[i]?).map row
    | _ => none

/-- A file has the column asked for: one of the first file's, by position. -/
def hasColumn (first columns : List ColumnDefinition) : ColumnId → Bool
  | .column i => (locate columns first[i]?).isSome
  | _ => true

/-- `parquet_scan`, as far as the extension relies on it: it binds the columns of the first file,
`column_ids` are positions among these, and every file must have the columns asked for. -/
def parquetScan {V : Type} (files : List (DataFile V)) (input : TableFunctionInitInput) :
    Except Exception (List (List (Option V))) :=
  match files with
  | [] => throw (invalidInputException "no files to read")
  | first :: _ =>
    if files.all fun f => input.column_ids.all (hasColumn first.columns f.columns) then
      pure (readAs first.columns files input)
    else throw (invalidInputException "schema mismatch in the planned files")

/-- The scan returns these rows, in some order, or raises an error. -/
def SameRows {V : Type} (rows : List (List (Option V))) :
    Except Exception (List (List (Option V))) → Prop
  | .error _ => True
  | .ok out => out.Perm rows

/-- Some file lacks a column asked for. -/
def Lacking (first : List ColumnDefinition) (schemas : List (List ColumnDefinition))
    (input : TableFunctionInitInput) : Prop :=
  ∃ columns ∈ schemas, ∃ i, ColumnId.column i ∈ input.column_ids ∧ locate columns first[i]? = none

/-- Every position put out is of one name, in the first file and in the report. -/
def NamedAlike (first reported : List ColumnDefinition) (input : TableFunctionInitInput) : Prop :=
  ∀ i, ColumnId.column i ∈ input.output →
    ∃ a b, first[i]? = some a ∧ reported[i]? = some b ∧ identifier a.name = identifier b.name

/-! ## Where the two reads agree -/

/-- A column is found by its name alone, its case aside. -/
theorem locate_congr {columns : List ColumnDefinition} {a b : ColumnDefinition}
    (h : identifier a.name = identifier b.name) : locate columns (some a) =
      locate columns (some b) := by
  simp only [locate, Option.bind_some, h]

/-- A column that is found at a position has its name there. -/
theorem locate_eq_some {columns : List ColumnDefinition} {b : Option ColumnDefinition} {p : ℕ}
    (h : locate columns b = some p) :
    ∃ a b', b = some b' ∧ columns[p]? = some a ∧ identifier a.name = identifier b'.name := by
  cases b with
  | none => cases h
  | some b' =>
    obtain ⟨hp, hname, -⟩ := List.findIdx?_eq_some_iff_getElem.1 h
    exact ⟨columns[p], b', rfl, List.getElem?_eq_getElem hp, beq_iff_eq.1 hname⟩

/-- What a scan gives out is among what it reads. -/
theorem output_subset {input : TableFunctionInitInput} {id : ColumnId} (h : id ∈ input.output) :
    id ∈ input.column_ids := by
  rw [TableFunctionInitInput.output] at h
  split at h
  · exact h
  · obtain ⟨k, -, hk⟩ := List.mem_filterMap.1 h
    exact List.mem_of_getElem? hk

/-- Columns of one name read alike. -/
theorem readAs_congr {V : Type} {first reported : List ColumnDefinition} {files : List (DataFile V)}
    {input : TableFunctionInitInput} (h : NamedAlike first reported input) :
    readAs first files input = readAs reported files input := by
  apply List.flatMap_congr
  intro f _
  apply List.map_congr_left
  intro row _
  apply List.map_congr_left
  intro id hid
  cases id with
  | column i =>
    obtain ⟨a, b, ha, hb, hname⟩ := h i hid
    simp only [ha, hb, locate_congr hname]
  | _ => rfl

/-- The planned files, by path. -/
def dataFiles {V : Type} (schema : String → List ColumnDefinition) (rows : String → List (ℕ → V))
    (paths : List String) : List (DataFile V) :=
  paths.map fun path => ⟨schema path, rows path⟩

section

variable {V : Type} {schema : String → List ColumnDefinition} {rows : String → List (ℕ → V)}
variable {path : String} {paths : List String} {input : TableFunctionInitInput}

/-- A scan that asks for a column no file's schema has is refused. -/
theorem parquetScan_lacking
    (h : Lacking (schema path) ((path :: paths).map schema) input) :
    ∃ e, parquetScan (dataFiles schema rows (path :: paths)) input = .error e := by
  obtain ⟨columns, hcolumns, i, hi, hlocate⟩ := h
  obtain ⟨q, hq, rfl⟩ := List.mem_map.1 hcolumns
  refine ⟨invalidInputException "schema mismatch in the planned files", if_neg ?_⟩
  intro hall
  have hfile := List.all_eq_true.1 hall ⟨schema q, rows q⟩ (List.mem_map.2 ⟨q, hq, rfl⟩)
  have hcolumn : (locate (schema q) (schema path)[i]?).isSome = true :=
    List.all_eq_true.1 hfile _ hi
  rw [hlocate] at hcolumn
  cases hcolumn

/-- Any other scan reads each file by the names of the first file's schema. -/
theorem parquetScan_found
    (h : ¬ Lacking (schema path) ((path :: paths).map schema) input) :
    parquetScan (dataFiles schema rows (path :: paths)) input =
      .ok (readAs (schema path) (dataFiles schema rows (path :: paths)) input) := by
  apply if_pos
  apply List.all_eq_true.2
  intro f hf
  obtain ⟨q, hq, rfl⟩ := List.mem_map.1 hf
  apply List.all_eq_true.2
  intro id hid
  cases id with
  | column i =>
    by_contra hnone
    refine h ⟨schema q, List.mem_map.2 ⟨q, hq, rfl⟩, i, hid, ?_⟩
    exact Option.not_isSome_iff_eq_none.1 hnone
  | _ => rfl

/-- Only the file at `path` has a row, which holds each position at that position. -/
def probe (path q : String) : List (ℕ → ℕ) := if q = path then [id] else []

/-- Rows that differ from file to file and from place to place: with them a statement about all
contents can be read off. -/
theorem mem_probe {q : String} {row : ℕ → ℕ} : row ∈ probe path q ↔ q = path ∧ row = id := by
  rw [probe]
  split <;> simp_all

/-- The planned files deliver the row that only the first one has, so a position means one
column. -/
theorem namedAlike_of_perm {reported : List ColumnDefinition}
    (hfound : ¬ Lacking (schema path) ((path :: paths).map schema) input)
    (h : (readAs (schema path) (dataFiles schema (probe path)
        (path :: paths)) input).Perm
      (readAs reported (dataFiles schema (probe path)
        (path :: paths)) input)) :
    NamedAlike (schema path) reported input := by
  have hmem : (input.output.map fun
      | .column i => (locate (schema path) (schema path)[i]?).map (id : ℕ → ℕ)
      | _ => none) ∈ readAs (schema path) (dataFiles schema
        (probe path) (path :: paths)) input := by
    refine List.mem_flatMap.2 ⟨_, List.mem_map.2 ⟨path, List.mem_cons_self, rfl⟩, ?_⟩
    exact List.mem_map.2 ⟨id, mem_probe.2 ⟨rfl, rfl⟩, rfl⟩
  obtain ⟨f, hf, hrow⟩ := List.mem_flatMap.1 (h.mem_iff.1 hmem)
  obtain ⟨q, -, rfl⟩ := List.mem_map.1 hf
  obtain ⟨row, hr, heq⟩ := List.mem_map.1 hrow
  obtain ⟨rfl, rfl⟩ := mem_probe.1 hr
  intro i hi
  have hcol : (locate (schema q) reported[i]?).map (id : ℕ → ℕ) =
      (locate (schema q) (schema q)[i]?).map id := List.map_inj_left.1 heq (.column i) hi
  rw [Option.map_id, id, id] at hcol
  cases hp : locate (schema q) (schema q)[i]? with
  | none => exact absurd ⟨schema q, List.mem_cons_self, i, output_subset hi, hp⟩ hfound
  | some p =>
    obtain ⟨a, b, hb, ha, hab⟩ := locate_eq_some hp
    obtain ⟨a', b', hb', ha', hab'⟩ := locate_eq_some (hcol.trans hp)
    obtain rfl : a = a' := Option.some.inj (ha.symm.trans ha')
    exact ⟨b, b', hb, hb', hab.symm.trans hab'⟩

/-- Planned files read as the log reads them, whatever rows they hold, exactly where there are none,
one lacks a column asked for, or the first one's columns are named as the report's are. -/
theorem parquetScan_sameRows_iff {reported : List ColumnDefinition} {paths : List String} :
    (∀ (V : Type) (rows : String → List (ℕ → V)),
      SameRows (readAs reported (dataFiles schema rows paths) input)
        (parquetScan (dataFiles schema rows paths) input)) ↔
      ∀ path ∈ paths.head?, Lacking (schema path) (paths.map schema) input ∨
        NamedAlike (schema path) reported input := by
  cases paths with
  | nil =>
    refine iff_of_true ?_ nofun
    intro V rows
    exact trivial
  | cons path paths =>
    simp only [List.head?_cons, Option.mem_def, Option.some.injEq, forall_eq']
    by_cases hl : Lacking (schema path) ((path :: paths).map schema) input
    · refine iff_of_true ?_ (.inl hl)
      intro V rows
      obtain ⟨e, he⟩ : ∃ e, parquetScan (dataFiles schema rows (path :: paths)) input = .error e :=
        parquetScan_lacking hl
      rw [he]
      trivial
    · constructor
      · intro h
        have hperm := h ℕ (probe path)
        rw [parquetScan_found hl] at hperm
        exact .inr (namedAlike_of_perm hl hperm)
      · rintro (h | h)
        · exact absurd h hl
        · intro V rows
          rw [parquetScan_found hl, readAs_congr h]
          exact List.Perm.refl _

/-- Columns that are only ever added at the end read as the log reads them: a position beyond the
first file's columns raises an error. -/
theorem parquetScan_sameRows_of_appended {reported : List ColumnDefinition} {paths : List String}
    (h : ∀ path ∈ paths, schema path <+: reported) (rows : String → List (ℕ → V)) :
    SameRows (readAs reported (dataFiles schema rows paths) input)
      (parquetScan (dataFiles schema rows paths) input) := by
  refine parquetScan_sameRows_iff.2 ?_ V rows
  intro path hpath
  have hmem : path ∈ paths := List.mem_of_mem_head? hpath
  by_cases hl : Lacking (schema path) (paths.map schema) input
  · exact .inl hl
  · refine .inr ?_
    intro i hi
    cases ha : (schema path)[i]? with
    | none =>
      refine absurd ⟨schema path, List.mem_map.2 ⟨path, hmem, rfl⟩, i, output_subset hi, ?_⟩ hl
      rw [ha]
      rfl
    | some a =>
      obtain ⟨added, hreported⟩ := h path hmem
      refine ⟨a, a, rfl, ?_, rfl⟩
      rw [← hreported, List.getElem?_append_left (List.getElem?_eq_some_iff.1 ha).1, ha]

/-- The order of the files is the order of their rows. -/
theorem readAs_perm {columns : List ColumnDefinition} {paths paths' : List String}
    (h : paths.Perm paths') : (readAs columns (dataFiles schema rows paths) input).Perm
      (readAs columns (dataFiles schema rows paths') input) :=
  (h.map _).flatMap_right _

/-- Results are compared as bags of rows. -/
theorem SameRows.perm {rows rows' : List (List (Option V))}
    {r : Except Exception (List (List (Option V)))} (h : rows.Perm rows') :
    SameRows rows r ↔ SameRows rows' r := by
  cases r with
  | error e => exact Iff.rfl
  | ok out => exact ⟨fun hr => hr.trans h, fun hr => hr.trans h.symm⟩

end

/-! ## Planned scans -/

/-- The schemas a table comes to have without its files being rewritten: columns are added, at any
place, and reordered. -/
inductive Evolves (s : List ColumnDefinition) : List ColumnDefinition → Prop where
  | refl : Evolves s s
  | add {t u : List ColumnDefinition} {c : ColumnDefinition} : Evolves s (t ++ u) →
      (∀ a ∈ t ++ u, identifier a.name ≠ identifier c.name) → Evolves s (t ++ c :: u)
  | reorder {t u : List ColumnDefinition} : Evolves s t → t.Perm u → Evolves s u

/-- **A planned scan returns the rows the log has**, whatever the files hold, exactly where the plan
lists no file, a planned file lacks a column asked for, so that the scan raises an error, or the
first planned file has, at every position put out, the column reported there. The plan lists the
live files `live`; `delivered` is the order in which a file list delivers them. -/
theorem planned_reads_iff {W : World Client Exception} {c : W.Ctx} {s s' : W.State}
    {bd : UCScanPlanBindData} {input : TableFunctionInitInput} {gstate : UCScanPlanGlobalState}
    {files : UCMultiFileList} {delivered : UCMultiFileList → List String} {live : List String}
    {schema : String → List ColumnDefinition} {reported : List ColumnDefinition}
    (h : (ucScanPlanInitGlobal bd input).Exec c s (.ok gstate) s')
    (hplanned : gstate.inner = .parquet files) (hlive : (delivered files).Perm live) :
    (∃ plan : UCScanPlanResult, plan.status = .completed ∧
      UCMultiFileList.create bd.target plan = .ok files) ∧
    ((∀ (V : Type) (rows : String → List (ℕ → V)),
      SameRows (readAs reported (dataFiles schema rows live) input)
        (parquetScan (dataFiles schema rows (delivered files)) gstate.input)) ↔
      ∀ first ∈ (delivered files).head?,
        Lacking (schema first) ((delivered files).map schema) input ∨
          NamedAlike (schema first) reported input) := by
  rcases initGlobal_scan h with ⟨plan, files', hdone, hfiles, rfl⟩ | ⟨table, rfl, -⟩
  · obtain rfl := InnerScan.parquet.inj hplanned
    refine ⟨⟨plan, hdone, hfiles⟩, ?_⟩
    rw [← parquetScan_sameRows_iff]
    constructor
    · exact fun hrows V rows => (SameRows.perm (readAs_perm hlive)).2 (hrows V rows)
    · exact fun hrows V rows => (SameRows.perm (readAs_perm hlive)).1 (hrows V rows)
  · cases hplanned

/-! ### Reordered columns

A table of columns `a` and `b`, with one file, is reordered to `b` and `a`, and gets a second
one. -/

/-- The table, as UC reports it now. -/
def reorderedTable : TableInformation where
  catalog_name := "uc"
  read_only := false
  credentials := { endpoint := "http://uc", token := "", use_irc_scan_plan := true }
  schema_name := "s"
  table_data :=
    { table_id := "id", name := "t", catalog_name := "c", schema_name := "s"
      storage_location := "file:///t"
      columns := [{ name := "b", type_text := "int" }, { name := "a", type_text := "int" }] }
  reported := some ⟨"t", [⟨"b", .integer⟩, ⟨"a", .integer⟩]⟩

/-- Each file has the columns of its time. -/
def reorderedSchema (path : String) : List ColumnDefinition :=
  if path = "f1" then [⟨"a", .integer⟩, ⟨"b", .integer⟩] else [⟨"b", .integer⟩, ⟨"a", .integer⟩]

/-- The completed plan. -/
def reorderedPlan : String :=
  String.ofList ("\x7b\"status\":\"completed\",\"file-scan-tasks\":[".toList ++
    "\x7b\"data-file\":\x7b\"file-path\":\"f1\"\x7d\x7d,".toList ++
    "\x7b\"data-file\":\x7b\"file-path\":\"f2\"\x7d\x7d]\x7d".toList)

/-- What it says. -/
def reorderedRoot : Val :=
  .obj [("status", .str "completed"), ("file-scan-tasks", .arr
    [.obj [("data-file", .obj [("file-path", .str "f1")])],
      .obj [("data-file", .obj [("file-path", .str "f2")])]])]

/-- What the surroundings answer. -/
def reorderedAnswer (s : Unit) (op : Op) : Except Exception op.Ans × Unit :=
  match op with
  | .ensureHttpfs => (.ok (), s)
  | .issue _ => (.ok (), s)
  | .answer => (.ok ⟨200, true, "", [], reorderedPlan⟩, s)
  | .scanPlanGate _ => (.ok true, s)
  | .bindParquet _ => (.ok (), s)
  | .initGlobal => (.ok (), s)
  | _ => (.error (internalException "not there"), s)

/-- The surroundings. -/
abbrev ReorderedWorld : World Client Exception := Prog.det reorderedAnswer

/-- What `GetScanFunction` binds. -/
def reorderedScan : UCScanPlanBindData where
  catalog_name := "c"
  schema_name := "s"
  table_name := "t"
  storage_location := "file:///t"
  credentials := reorderedTable.credentials
  scan_plan_endpoint := reorderedTable.credentials.ircEndpoint
  uc_catalog := true
  table := some reorderedTable
  lookup_info := some none

/-- `SELECT b`. -/
def reorderedInput : TableFunctionInitInput := ⟨[.column 0], []⟩

/-- The planned files. -/
def reorderedFiles : UCMultiFileList where
  target := reorderedScan.target
  expanded_files := [⟨"f1", none⟩, ⟨"f2", none⟩]
  file_deletes := [[], []]
  all_files_expanded := true

/-- The paths of a list without tokens. -/
def listed (files : UCMultiFileList) : List String := files.expanded_files.map OpenFileInfo.path

/-- What the plan decodes to. -/
def reorderedResult : UCScanPlanResult where
  status := .completed
  file_scan_tasks := [⟨{ file_path := "f1" }, []⟩, ⟨{ file_path := "f2" }, []⟩]

theorem reorderedPlan_parse : parseScanPlanResponse reorderedPlan = .ok reorderedResult := by
  have hread : read reorderedPlan = some reorderedRoot := read_ofList (by decide +kernel)
  unfold parseScanPlanResponse
  rw [hread]
  rfl

theorem reordered_request :
    (makeRequestResp reorderedScan.target.planUrl reorderedScan.target.credentials.token
      (planBody reorderedScan.filter_json) statusInvalid).Exec (W := ReorderedWorld) () ()
      (.ok ⟨200, true, "", [], reorderedPlan⟩) () :=
  Prog.exec_det.2 rfl

theorem reordered_initGlobal : (ucScanPlanInitGlobal reorderedScan reorderedInput).Exec
    (W := ReorderedWorld) () () (.ok ⟨.parquet reorderedFiles, reorderedInput⟩) () :=
  exec_initGlobal reordered_request reorderedPlan_parse rfl (Prog.exec_det.2 rfl)

theorem reordered_evolves :
    ∀ path ∈ listed reorderedFiles, Evolves (reorderedSchema path) (reorderedSchema "f2") := by
  have hswap : Evolves (reorderedSchema "f1") (reorderedSchema "f2") :=
    .reorder .refl (List.Perm.swap _ _ _)
  intro path hpath
  have hcases : path = "f1" ∨ path = "f2" := by simpa [listed, reorderedFiles] using hpath
  rcases hcases with rfl | rfl
  · exact hswap
  · exact .refl

/-- `SELECT b` returns the first file's `a` for the rows of both files. -/
theorem planned_misreads :
    reorderedTable.scanPlanCanRead = true ∧
      (∀ path ∈ listed reorderedFiles, Evolves (reorderedSchema path) (reorderedSchema "f2")) ∧
      ∃ (entry : UCTableEntry) (bd : UCScanPlanBindData) (gstate : UCScanPlanGlobalState),
        (reorderedTable.getVersion none).Exec (W := ReorderedWorld) () () (.ok entry) () ∧
        entry.columns = reorderedSchema "f2" ∧
        (reorderedTable.getScanFunction none).Exec (W := ReorderedWorld) () () (.ok (.plan bd)) () ∧
        (ucScanPlanInitGlobal bd reorderedInput).Exec (W := ReorderedWorld) () () (.ok gstate) () ∧
        gstate.inner = .parquet reorderedFiles ∧
        ¬ ∀ (V : Type) (rows : String → List (ℕ → V)),
          SameRows (readAs entry.columns (dataFiles reorderedSchema rows (listed reorderedFiles))
              reorderedInput)
            (parquetScan (dataFiles reorderedSchema rows (listed reorderedFiles))
              gstate.input) := by
  refine ⟨by decide, reordered_evolves, ⟨"t", reorderedSchema "f2"⟩, reorderedScan, _,
    Prog.exec_det.2 rfl, rfl, Prog.exec_det.2 rfl, reordered_initGlobal, rfl, ?_⟩
  intro hrows
  have hperm : [[some 0]].Perm [[some 1]] := hrows ℕ (probe "f1")
  simp at hperm

theorem planned_reads_iff_reordered :
    (∀ (V : Type) (rows : String → List (ℕ → V)),
      SameRows (readAs (reorderedSchema "f2") (dataFiles reorderedSchema rows ["f1", "f2"])
          reorderedInput)
        (parquetScan (dataFiles reorderedSchema rows (listed reorderedFiles)) reorderedInput)) ↔
      ∀ first ∈ (listed reorderedFiles).head?,
        Lacking (reorderedSchema first) ((listed reorderedFiles).map reorderedSchema)
            reorderedInput ∨
          NamedAlike (reorderedSchema first) (reorderedSchema "f2") reorderedInput :=
  have hlive : (listed reorderedFiles).Perm ["f1", "f2"] := List.Perm.refl _
  (planned_reads_iff reordered_initGlobal rfl hlive).2

end UnityCatalog
