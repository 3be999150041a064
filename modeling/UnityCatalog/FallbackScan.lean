import UnityCatalog.InternalNames
import UnityCatalog.ScanFunction

/-!
# The Delta scan behind a failed plan

A statement whose scan was to be planned is bound to the columns UC reports. When the plan fails,
the positions it asks for are handed to the Delta scan, which reads them as positions in the log's
own column list. `fallback_reads_iff` says when that is the same.
-/

namespace UnityCatalog

open Effectful

/-! ## What a Delta scan reads -/

/-- Two definitions are of the same column: name and type. -/
def ColumnDefinition.Same (a b : ColumnDefinition) : Prop :=
  identifier a.name = identifier b.name ∧ a.type = b.type

/-- The Delta scan, as far as the extension relies on it: `column_ids` are positions in the log's
own column list, of which `contents` says what each holds. A virtual column holds nothing of the
log. -/
def DeltaTable.scan {V : Type} (table : DeltaTable) (input : TableFunctionInitInput)
    (contents : ℕ → V) : Except Exception (List (Option V)) :=
  let inRange : ColumnId → Bool
    | .column i => i < table.columns.length
    | _ => true
  if input.column_ids.all inRange then
    pure (input.output.map fun
      | .column i => some (contents i)
      | _ => none)
  else throw (internalException "column id out of range")

/-- Some position is beyond the log's columns. -/
def DeltaTable.Beyond (table : DeltaTable) (input : TableFunctionInitInput) : Prop :=
  ∃ i, ColumnId.column i ∈ input.column_ids ∧ table.columns.length ≤ i

/-- Every position put out is of one column, in the log and in the entry. -/
def DeltaTable.Aligned (table : DeltaTable) (entry : UCTableEntry)
    (input : TableFunctionInitInput) : Prop :=
  ∀ i b, ColumnId.column i ∈ input.output → entry.columns[i]? = some b →
    ∃ a, table.columns[i]? = some a ∧ a.Same b

/-- Each column put out is the log's column of the name and type that the entry's column has at the
position asked for, or the scan raises an error. -/
def ReadsBound {V : Type} (entry : UCTableEntry) (table : DeltaTable)
    (input : TableFunctionInitInput) (contents : ℕ → V) : Except Exception (List (Option V)) → Prop
  | .error _ => True
  | .ok out => ∀ (k i : ℕ) (b : ColumnDefinition),
      input.output[k]? = some (.column i) → entry.columns[i]? = some b →
      ∃ (j : ℕ) (a : ColumnDefinition), table.columns[j]? = some a ∧ a.Same b ∧
        out[k]? = some (some (contents j))

/-- A projection that asks for a column the log does not have is refused. -/
theorem DeltaTable.scan_beyond {V : Type} {table : DeltaTable} {input : TableFunctionInitInput}
    (contents : ℕ → V) (h : table.Beyond input) : ∃ e, table.scan input contents = .error e := by
  obtain ⟨i, hi, hlen⟩ := h
  refine ⟨internalException "column id out of range", ?_⟩
  rw [DeltaTable.scan, if_neg]
  · rfl
  · intro hall
    have hlt := List.all_eq_true.1 hall _ hi
    exact absurd (of_decide_eq_true hlt) (Nat.not_lt.2 hlen)

/-- Any other projection is read from the log's columns by position: the name that was bound is not
looked at. -/
theorem DeltaTable.scan_within {V : Type} {table : DeltaTable} {input : TableFunctionInitInput}
    (contents : ℕ → V) (h : ¬ table.Beyond input) :
    ∃ out, table.scan input contents = .ok out ∧
      ∀ k i : ℕ, input.output[k]? = some (.column i) → out[k]? = some (some (contents i)) := by
  rw [DeltaTable.scan, if_pos]
  · refine ⟨_, rfl, ?_⟩
    intro k i hk
    rw [List.getElem?_map, hk]
    rfl
  · apply List.all_eq_true.2
    intro id hid
    cases id with
    | column i =>
      apply decide_eq_true
      by_contra hlt
      exact h ⟨i, hid, Nat.not_lt.1 hlt⟩
    | _ => rfl

/-- A scan reads what was bound, whatever the log holds, exactly where a position is beyond the
log's columns or all are aligned. -/
theorem DeltaTable.readsBound_iff {table : DeltaTable} {entry : UCTableEntry}
    {input : TableFunctionInitInput} :
    (∀ (V : Type) (contents : ℕ → V), ReadsBound entry table input contents
      (table.scan input contents)) ↔ table.Beyond input ∨ table.Aligned entry input := by
  by_cases hbeyond : table.Beyond input
  · refine iff_of_true ?_ (.inl hbeyond)
    intro V contents
    obtain ⟨e, he⟩ := DeltaTable.scan_beyond contents hbeyond
    rw [he]
    trivial
  · constructor
    · intro h
      refine .inr ?_
      intro i b hi hb
      obtain ⟨k, hk⟩ := List.mem_iff_getElem?.1 hi
      -- each column of the log holds its own position
      have hpos := h ℕ id
      obtain ⟨out, hout, hcols⟩ := DeltaTable.scan_within (id : ℕ → ℕ) hbeyond
      rw [hout] at hpos
      obtain ⟨j, a, ha, hsame, hk'⟩ := hpos k i b hk hb
      rw [hcols k i hk] at hk'
      obtain rfl : i = j := Option.some.inj (Option.some.inj hk')
      exact ⟨a, ha, hsame⟩
    · rintro (h | h)
      · exact absurd h hbeyond
      · intro V contents
        obtain ⟨out, hout, hcols⟩ := DeltaTable.scan_within contents hbeyond
        rw [hout]
        intro k i b hk hb
        obtain ⟨a, ha, hsame⟩ := h i b (List.mem_of_getElem? hk) hb
        exact ⟨i, a, ha, hsame, hcols k i hk⟩

/-! ## The fallback -/

section

variable {W : World Client Exception} {c : W.Ctx} {s s' : W.State}

/-- In `W` the Delta log holds the columns `log`. -/
def LogHolds (W : World Client Exception) (log : List ColumnDefinition) : Prop :=
  ∀ c s db at_clause ch (table : DeltaTable) s',
    W.answer c s (.lookupEntry db at_clause) ch = some (.ok (some table), s') → table.columns = log

variable {log : List ColumnDefinition} {t : TableInformation} {at_clause : Option BoundAtClause}

/-- The Delta table got through an attach has the log's columns, whatever the catalog reported. -/
theorem deltaTable_columns (hlog : LogHolds W log) {table : DeltaTable}
    (h : (t.deltaTable at_clause).Exec c s (.ok (some table)) s') : table.columns = log := by
  simp only [TableInformation.deltaTable, Prog.bind_eq, Prog.exec_bind] at h
  rcases h with ⟨-, s₁, -, ⟨-, s₂, -, ⟨db, s₃, -, h⟩ | ⟨e, -, he⟩⟩ | ⟨e, -, he⟩⟩ | ⟨e, -, he⟩
  · obtain ⟨ch, ha⟩ := Prog.exec_perform.1 h
    exact hlog _ _ _ _ _ _ _ ha
  · cases he
  · cases he
  · cases he

/-- A Delta scan that is built reads the log's columns. -/
theorem buildDeltaScan_columns (hlog : LogHolds W log) {table : DeltaTable}
    (h : (t.buildDeltaScan at_clause).Exec c s (.ok table) s') : table.columns = log := by
  simp only [TableInformation.buildDeltaScan, Prog.bind_eq, Prog.exec_bind] at h
  rcases h with ⟨found, s₁, hd, h⟩ | ⟨e, -, he⟩
  · cases found with
    | none => cases h.1
    | some table' =>
      obtain ⟨h, -⟩ := h
      obtain rfl := Except.ok.inj h
      exact deltaTable_columns hlog hd
  · cases he

/-- An inner scan is handed on with the input it was started with, and nothing in between looks at
it. -/
theorem adoptInnerScan_eq {inner : InnerScan} {input : TableFunctionInitInput}
    {gstate : UCScanPlanGlobalState} (h : (adoptInnerScan inner input).Exec c s (.ok gstate) s') :
    gstate = ⟨inner, input⟩ := by
  simp only [adoptInnerScan, Prog.bind_eq, Prog.exec_bind] at h
  rcases h with ⟨-, s₁, -, h, -⟩ | ⟨e, -, he⟩
  · exact Except.ok.inj h
  · cases he

/-- After a failed plan the scan reads a Delta table with the projection it was given, and that
table has the log's columns. -/
theorem fallback_scan {bd : UCScanPlanBindData} {e : Exception} {input : TableFunctionInitInput}
    {gstate : UCScanPlanGlobalState} (h : (bd.fallback e input).Exec c s (.ok gstate) s') :
    ∃ table, gstate = ⟨.delta table, input⟩ ∧ ∀ log, LogHolds W log → table.columns = log := by
  rw [UCScanPlanBindData.fallback] at h
  split at h
  · split at h
    · simp only [Prog.bind_eq, Prog.exec_bind] at h
      rcases h with ⟨table, s₁, hb, h⟩ | ⟨e, -, he⟩
      · exact ⟨table, adoptInnerScan_eq h, fun log hlog => buildDeltaScan_columns hlog hb⟩
      · cases he
    · cases h.1
  · cases h.1

/-- After a plan that was answered the scan reads the plan's files. -/
theorem planned_scan {bd : UCScanPlanBindData} {plan : UCScanPlanResult}
    {input : TableFunctionInitInput} {gstate : UCScanPlanGlobalState}
    (h : (bd.planned plan input).Exec c s (.ok gstate) s') :
    ∃ files, UCMultiFileList.create bd.target plan = .ok files ∧
      gstate = ⟨.parquet files, input⟩ := by
  simp only [UCScanPlanBindData.planned, Prog.bind_eq, Prog.exec_bind, Prog.exec_ofExcept] at h
  rcases h with ⟨-, s₁, -, ⟨files, s₂, ⟨hf, -⟩, ⟨-, s₃, -, h⟩ | ⟨e, -, he⟩⟩ | ⟨e, -, he⟩⟩ | ⟨e,
    -, he⟩
  · exact ⟨files, hf.symm, adoptInnerScan_eq h⟩
  · cases he
  · cases he
  · cases he

/-- **What an execution adopts**: the planned files of a completed plan, or the log. -/
theorem initGlobal_scan {bd : UCScanPlanBindData} {input : TableFunctionInitInput}
    {gstate : UCScanPlanGlobalState}
    (h : (ucScanPlanInitGlobal bd input).Exec c s (.ok gstate) s') :
    (∃ plan files, plan.status = .completed ∧ UCMultiFileList.create bd.target plan = .ok files ∧
      gstate = ⟨.parquet files, input⟩) ∨
    ∃ table, gstate = ⟨.delta table, input⟩ ∧ ∀ log, LogHolds W log → table.columns = log := by
  simp only [ucScanPlanInitGlobal_eq, Prog.bind_eq, Prog.exec_bind, Prog.exec_attempt] at h
  rcases h with ⟨x, s₁, ⟨y, hy, hplan⟩, h⟩ | ⟨e, ⟨y, hy, -⟩, -⟩
  · obtain rfl := Except.ok.inj hy
    cases x with
    | error e =>
      dsimp only at h
      split at h
      · cases h.1
      · refine .inr ?_
        split at h
        · simp only [Prog.exec_bind] at h
          rcases h with ⟨-, s₂, -, h⟩ | ⟨e', -, he⟩
          · exact fallback_scan h
          · cases he
        · exact fallback_scan h
    | ok plan =>
      have hdone : plan.status = .completed := by
        simp only [UCScanPlanBindData.completedPlan, Prog.bind_eq, Prog.exec_bind] at hplan
        rcases hplan with ⟨p, s₂, -, hp⟩ | ⟨e, -, he⟩
        · split at hp
          · rename_i hst
            obtain ⟨hp, -⟩ := hp
            obtain rfl := Except.ok.inj hp
            exact hst
          · cases hp.1
        · cases he
      refine .inl ⟨plan, ?_⟩
      dsimp only at h
      split at h
      · simp only [Prog.exec_bind] at h
        rcases h with ⟨-, s₂, -, h⟩ | ⟨e', -, he⟩
        · obtain ⟨files, hf, hg⟩ := planned_scan h
          exact ⟨files, hdone, hf, hg⟩
        · cases he
      · obtain ⟨files, hf, hg⟩ := planned_scan h
        exact ⟨files, hdone, hf, hg⟩
  · cases hy

/-- **The Delta fallback reads what the statement was bound to** exactly where a position asked for
is beyond the log's columns, so that the scan raises an error, or every position put out is of one
column in the log and in the entry. -/
theorem fallback_reads_iff {bd : UCScanPlanBindData} {entry : UCTableEntry}
    {input : TableFunctionInitInput} {gstate : UCScanPlanGlobalState} {table : DeltaTable}
    (hlog : LogHolds W log) (h : (ucScanPlanInitGlobal bd input).Exec c s (.ok gstate) s')
    (hdelta : gstate.inner = .delta table) :
    (∀ (V : Type) (contents : ℕ → V), ReadsBound entry ⟨log⟩ gstate.input contents
      (table.scan gstate.input contents)) ↔
      DeltaTable.Beyond ⟨log⟩ input ∨ DeltaTable.Aligned ⟨log⟩ entry input := by
  rcases initGlobal_scan h with ⟨plan, files, -, -, rfl⟩ | ⟨table', rfl, htable⟩
  · cases hdelta
  · obtain rfl := InnerScan.delta.inj hdelta
    obtain rfl := htable log hlog
    exact DeltaTable.readsBound_iff

end

/-! ### Two columns the other way round

UC reports `a` and `b`, the log holds `b` and `a`. Planning is tried, and the server refuses it. -/

/-- The table. -/
def swappedTable : TableInformation where
  catalog_name := "uc"
  read_only := false
  credentials := { endpoint := "http://uc", token := "", use_irc_scan_plan := true }
  schema_name := "s"
  table_data :=
    { table_id := "id", name := "t", catalog_name := "c", schema_name := "s"
      storage_location := "file:///t" }
  reported := some ⟨"t", [⟨"a", .integer⟩, ⟨"b", .integer⟩]⟩

/-- The columns of the log. -/
def swappedLog : List ColumnDefinition := [⟨"b", .integer⟩, ⟨"a", .integer⟩]

/-- What the surroundings answer. -/
def swappedAnswer (s : Unit) (op : Op) : Except Exception op.Ans × Unit :=
  match op with
  | .ensureHttpfs => (.ok (), s)
  | .issue _ => (.ok (), s)
  | .answer => (.ok ⟨500, false, "", [], ""⟩, s)
  | .scanPlanGate _ => (.ok true, s)
  | .lockAttach => (.ok (), s)
  | .unlockAttach => (.ok (), s)
  | .isDirty => (.ok false, s)
  | .attached => (.ok (some 0), s)
  | .tryGetTransaction _ => (.ok false, s)
  | .lookupEntry _ _ => (.ok (some ⟨swappedLog⟩), s)
  | .initGlobal => (.ok (), s)
  | _ => (.error (internalException "not there"), s)

/-- The surroundings. -/
abbrev SwappedWorld : World Client Exception := Prog.det swappedAnswer

/-- What `GetScanFunction` binds. -/
def swappedScan : UCScanPlanBindData where
  catalog_name := "c"
  schema_name := "s"
  table_name := "t"
  storage_location := "file:///t"
  credentials := swappedTable.credentials
  scan_plan_endpoint := swappedTable.credentials.ircEndpoint
  uc_catalog := true
  table := some swappedTable
  lookup_info := some none

/-- `SELECT a`, bound to the report. -/
def swappedInput : TableFunctionInitInput := ⟨[.column 0], []⟩

theorem swapped_logHolds : LogHolds SwappedWorld swappedLog := by
  intro c s db at_clause ch table s' h
  have htable : (some ⟨swappedLog⟩ : Option DeltaTable) = some table :=
    Except.ok.inj (congrArg Prod.fst (Option.some.inj h))
  rw [← Option.some.inj htable]

theorem swapped_getVersion : (swappedTable.getVersion none).Exec (W := SwappedWorld) () ()
    (.ok ⟨"t", [⟨"a", .integer⟩, ⟨"b", .integer⟩]⟩) () :=
  Prog.exec_det.2 rfl

theorem swapped_getScanFunction : (swappedTable.getScanFunction none).Exec (W := SwappedWorld) () ()
    (.ok (.plan swappedScan)) () :=
  Prog.exec_det.2 rfl

theorem swapped_initGlobal : (ucScanPlanInitGlobal swappedScan swappedInput).Exec
    (W := SwappedWorld) () () (.ok ⟨.delta ⟨swappedLog⟩, swappedInput⟩) () :=
  Prog.exec_det.2 rfl

/-- `SELECT a` reads the log's `b`. -/
theorem fallback_misreads :
    ∃ (entry : UCTableEntry) (bd : UCScanPlanBindData) (gstate : UCScanPlanGlobalState)
      (table : DeltaTable),
      (swappedTable.getVersion none).Exec (W := SwappedWorld) () () (.ok entry) () ∧
        (swappedTable.getScanFunction none).Exec (W := SwappedWorld) () () (.ok (.plan bd)) () ∧
        (ucScanPlanInitGlobal bd swappedInput).Exec (W := SwappedWorld) () () (.ok gstate) () ∧
        LogHolds SwappedWorld swappedLog ∧ gstate.inner = .delta table ∧
        ¬ ∀ (V : Type) (contents : ℕ → V), ReadsBound entry ⟨swappedLog⟩ gstate.input contents
          (table.scan gstate.input contents) := by
  refine ⟨_, _, _, _, swapped_getVersion, swapped_getScanFunction, swapped_initGlobal,
    swapped_logHolds, rfl, ?_⟩
  intro hreads
  obtain ⟨j, a, ha, ⟨hname, -⟩, hout⟩ := hreads ℕ id 0 0 ⟨"a", .integer⟩ rfl rfl
  obtain rfl : 0 = j := Option.some.inj (Option.some.inj hout)
  obtain rfl : (⟨"b", .integer⟩ : ColumnDefinition) = a := Option.some.inj ha
  exact absurd hname (by decide)

theorem fallback_reads_iff_swapped :
    (∀ (V : Type) (contents : ℕ → V),
      ReadsBound ⟨"t", swappedLog⟩ ⟨swappedLog⟩ swappedInput contents
      (DeltaTable.scan ⟨swappedLog⟩ swappedInput contents)) ↔
      DeltaTable.Beyond ⟨swappedLog⟩ swappedInput ∨
        DeltaTable.Aligned ⟨swappedLog⟩ ⟨"t", swappedLog⟩ swappedInput :=
  fallback_reads_iff swapped_logHolds swapped_initGlobal rfl

end UnityCatalog
