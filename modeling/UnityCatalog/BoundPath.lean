import UnityCatalog.ScanFunction

/-!
# The path a statement was bound for

A statement is bound twice over: `GetVersion` picks the columns, UC's report or the Delta log's, and
`GetScanFunction` picks what reads the table, a planned scan or the Delta scan. Both ask the latch,
one after the other. `readAsBound_iff` says for which answers the two picks fit.
-/

namespace UnityCatalog

open Effectful

/-! ## What the latch lets through -/

/-- Whether the latch lets a scan be planned. -/
def ScanPlanGate.allows (g : ScanPlanGate) (now : ℤ) : Bool :=
  !(decide (g.scan_plan_state = .unavailable) &&
    decide (now - g.scan_plan_unavailable_since < scanPlanReProbe))

namespace TableInformation

/-- Whether a scan of the table is planned, with the latch as it is. -/
def plansAt (t : TableInformation) (g : ScanPlanGate) (now : ℤ) : Bool :=
  t.scanPlanCanRead && (t.credentials.use_irc_scan_plan && g.allows now)

/-! ## Where an entry comes from -/

/-- The scan fits the columns: reported columns are read by a planned scan, or there is no log they
could differ from, and columns of the log are read through it. -/
def ReadAsBound (t : TableInformation) : Source → BoundScan → Prop
  | .report, scan => (∃ bind_data, scan = .plan bind_data) ∨
    t.table_data.data_source_format ≠ "DELTA"
  | .noSchema, _ => True
  | .log, scan => ∃ table, scan = .delta table

end TableInformation

/-! ## Statements -/

/-- A world with a latch and a steady clock, and a table whose log does or does not hold a schema.
The rest of the session, UC and the storage answer as they like, and other queries may mark the
latch during any operation. -/
structure Latched where
  world : World Client Exception
  gate : world.State → ScanPlanGate
  now : world.State → ℤ
  /-- whether the table's log holds a schema -/
  schema : Bool
  /-- the latch is locked -/
  latch : ∀ c s f ch x s', world.answer c s (.scanPlanGate f) ch = some (x, s') →
    x = .ok (f (gate s) (now s)).1
  /-- the Delta extension finds a table where the log holds a schema -/
  lookup : ∀ c s db at_clause ch table s',
    world.answer c s (.lookupEntry db at_clause) ch = some (.ok table, s') → table.isSome = schema
  /-- a transaction keeps what it found in the log -/
  kept : ∀ c s key ch entry s',
    world.answer c s (.getTableEntry key) ch = some (.ok (some entry), s') → schema = true

namespace Latched

variable {L : Latched} {c : L.world.Ctx} {s s' s₁ s₂ s₃ : L.world.State} {t : TableInformation}

theorem exec_shouldTryScanPlan {credentials : UCCredentials} {b : Bool}
    (h : (shouldTryScanPlan credentials).Exec c s (.ok b) s') :
    b = (credentials.use_irc_scan_plan && (L.gate s).allows (L.now s)) := by
  rw [shouldTryScanPlan] at h
  by_cases hopt : credentials.use_irc_scan_plan
  · rw [if_pos hopt, scanPlanGate, Prog.exec_perform] at h
    obtain ⟨ch, ha⟩ := h
    obtain rfl := Except.ok.inj (L.latch _ _ _ _ _ _ ha)
    rw [hopt, Bool.true_and, ScanPlanGate.allows]
    by_cases hstate : (L.gate s).scan_plan_state = .unavailable
    · by_cases hrecent : L.now s - (L.gate s).scan_plan_unavailable_since < scanPlanReProbe
      · simp [hstate, hrecent]
      · simp [hstate, hrecent]
    · simp [hstate]
  · rw [if_neg hopt] at h
    obtain ⟨hb, -⟩ := h
    simp [Except.ok.inj hb, hopt]

theorem exec_readsReport {b : Bool} (h : (t.readsReport none).Exec c s (.ok b) s') :
    b = (t.reported.isSome &&
      (t.plansAt (L.gate s) (L.now s) || t.table_data.data_source_format != "DELTA")) := by
  rw [TableInformation.readsReport] at h
  rw [TableInformation.plansAt]
  cases hr : t.reported with
  | none =>
    rw [hr] at h
    exact Except.ok.inj h.1
  | some reported =>
    rw [hr] at h
    by_cases hcan : t.scanPlanCanRead
    · simp only [Option.isNone_some, Option.isSome_none, Bool.or_self, Bool.false_eq_true, if_false,
        if_pos hcan] at h
      rcases Prog.exec_bind.1 h with ⟨planned, u, hp, hb, -⟩ | ⟨e, -, he⟩
      · rw [hcan, Except.ok.inj hb, exec_shouldTryScanPlan hp]
        simp
      · cases he
    · simp only [Option.isNone_some, Option.isSome_none, Bool.or_self, Bool.false_eq_true, if_false,
        if_neg hcan] at h
      simp [Except.ok.inj h.1, hcan]

theorem exec_plansScan {b : Bool} (h : (t.plansScan none).Exec c s (.ok b) s') :
    b = t.plansAt (L.gate s) (L.now s) := by
  rw [TableInformation.plansScan] at h
  rw [TableInformation.plansAt]
  by_cases hcan : t.scanPlanCanRead
  · rw [if_pos hcan] at h
    rcases Prog.exec_bind.1 h with ⟨planned, u, hp, hb, -⟩ | ⟨e, -, he⟩
    · rw [hcan, Except.ok.inj hb, exec_shouldTryScanPlan hp]
      simp
    · cases he
  · rw [if_neg hcan] at h
    simp [Except.ok.inj h.1, hcan]

theorem exec_entryFromDeltaLog {entry : Option UCTableEntry}
    (h : (t.entryFromDeltaLog none).Exec c s (.ok entry) s') : entry.isSome = L.schema := by
  rcases Prog.exec_bind.1 h with ⟨table, u, htable, hentry, -⟩ | ⟨e, -, he⟩
  · rcases Prog.exec_bind.1 htable with ⟨_, u₁, -, h⟩ | ⟨e, -, he⟩
    · rcases Prog.exec_bind.1 h with ⟨_, u₂, -, h⟩ | ⟨e, -, he⟩
      · rcases Prog.exec_bind.1 h with ⟨db, u₃, -, h⟩ | ⟨e, -, he⟩
        · rw [lookupEntry, Prog.exec_perform] at h
          obtain ⟨ch, ha⟩ := h
          rw [← L.lookup _ _ _ _ _ _ _ ha, Except.ok.inj hentry, Option.isSome_map]
        · cases he
      · cases he
    · cases he
  · cases he

/-- **Where the columns come from**, by what the latch lets through when `GetVersion` asks it. -/
theorem source_eq {source : TableInformation.Source} {entry : UCTableEntry}
    (hrun : (t.getVersionFrom none).Exec c s (.ok (source, entry)) s') :
    source =
      if t.reported.isSome &&
          (t.plansAt (L.gate s) (L.now s) || t.table_data.data_source_format != "DELTA")
            then .report
      else if L.schema then .log else .noSchema := by
  rcases Prog.exec_bind.1 hrun with ⟨_, u, hu, h⟩ | ⟨e, -, he⟩
  · obtain ⟨-, rfl⟩ := Prog.exec_ofExcept.1 hu
    clear hrun
    rcases Prog.exec_bind.1 h with ⟨report, u₁, hreport, h⟩ | ⟨e, -, he⟩
    · rw [← exec_readsReport hreport]
      cases report with
      | true =>
        rcases Prog.exec_bind.1 h with ⟨reported, u₂, -, he, -⟩ | ⟨e, -, he⟩
        · exact congrArg Prod.fst (Except.ok.inj he)
        · cases he
      | false =>
        rcases Prog.exec_bind.1 h with ⟨key, u₂, -, h⟩ | ⟨e, -, he⟩
        · rcases Prog.exec_bind.1 h with ⟨bound, u₃, hbound, h⟩ | ⟨e, -, he⟩
          · cases bound with
            | some bound =>
              rw [getTableEntry, Prog.exec_perform] at hbound
              obtain ⟨ch, ha⟩ := hbound
              rw [L.kept _ _ _ _ _ _ ha]
              exact congrArg Prod.fst (Except.ok.inj h.1)
            | none =>
              rcases Prog.exec_bind.1 h with ⟨found, u₄, hfound, h⟩ | ⟨e, -, he⟩
              · rw [← exec_entryFromDeltaLog hfound]
                cases found with
                | some found =>
                  rcases Prog.exec_bind.1 h with ⟨stored, u₅, -, he, -⟩ | ⟨e, -, he⟩
                  · exact congrArg Prod.fst (Except.ok.inj he)
                  · cases he
                | none =>
                  rcases Prog.exec_bind.1 h with ⟨reported, u₅, -, he, -⟩ | ⟨e, -, he⟩
                  · exact congrArg Prod.fst (Except.ok.inj he)
                  · cases he
              · cases he
          · cases he
        · cases he
    · cases he
  · cases he

/-- **What reads the table**, by what the latch lets through when `GetScanFunction` asks it. -/
theorem scan_of_plansAt {scan : BoundScan} (h : (t.getScanFunction none).Exec c s (.ok scan) s') :
    (t.plansAt (L.gate s) (L.now s) = true ∧ ∃ bind_data, scan = .plan bind_data) ∨
      t.plansAt (L.gate s) (L.now s) = false ∧ ∃ table, scan = .delta table := by
  rcases Prog.exec_bind.1 h with ⟨planned, u, hplanned, h⟩ | ⟨e, -, he⟩
  · rw [← exec_plansScan hplanned]
    cases planned with
    | true =>
      rcases Prog.exec_bind.1 h with ⟨_, u₁, -, hscan, -⟩ | ⟨e, -, he⟩
      · exact .inl ⟨rfl, _, Except.ok.inj hscan⟩
      · cases he
    | false =>
      rw [if_neg Bool.false_ne_true] at h
      split at h
      · cases h.1
      · rcases Prog.exec_bind.1 h with ⟨table, u₁, -, hscan, -⟩ | ⟨e, -, he⟩
        · exact .inr ⟨rfl, table, Except.ok.inj hscan⟩
        · cases he
  · cases he

/-- The latch answers the two calls alike, or lets only the second one through and there is no
schema in the log; where UC reported no columns, it lets the second one not through. -/
def AnswersFit (L : Latched) (t : TableInformation) (s s₂ : L.world.State) : Prop :=
  let first := t.plansAt (L.gate s) (L.now s)
  let second := t.plansAt (L.gate s₂) (L.now s₂)
  if t.reported.isSome then
    t.table_data.data_source_format = "DELTA" →
      first = second ∨ (first = false ∧ L.schema = false)
  else L.schema = true → second = false

/-- **A statement is read by the path it was bound for** exactly if the latch's two answers fit,
whatever other queries and the clock did to the latch in between. -/
theorem readAsBound_iff {source : TableInformation.Source} {entry : UCTableEntry} {scan : BoundScan}
    (hversion : (t.getVersionFrom none).Exec c s (.ok (source, entry)) s₁)
    (hscan : (t.getScanFunction none).Exec c s₂ (.ok scan) s₃) :
    t.ReadAsBound source scan ↔ L.AnswersFit t s s₂ := by
  have hsource := source_eq hversion
  rw [AnswersFit]
  generalize t.plansAt (L.gate s) (L.now s) = first at hsource
  have plan_or_delta : ∀ second, t.plansAt (L.gate s₂) (L.now s₂) = second →
      ((∃ bind_data, scan = .plan bind_data) ↔ second = true) ∧
        ((∃ table, scan = .delta table) ↔ second = false) := by
    rintro second rfl
    rcases scan_of_plansAt hscan with ⟨hp, bind_data, rfl⟩ | ⟨hp, table, rfl⟩
    · simp [hp]
    · simp [hp]
  generalize t.plansAt (L.gate s₂) (L.now s₂) = second at plan_or_delta
  obtain ⟨hplan, hdelta⟩ := plan_or_delta second rfl
  by_cases hformat : t.table_data.data_source_format = "DELTA"
  · cases hr : t.reported.isSome <;> cases first <;> cases hs : L.schema <;>
      simp_all [TableInformation.ReadAsBound]
  · cases hr : t.reported.isSome <;> cases hs : L.schema <;>
      simp_all [TableInformation.ReadAsBound]

end Latched

/-! ### A plan that fails in between -/

/-- A session with a table attached, whose log holds one column. -/
abbrev TwoQueries : World Client Exception where
  Ctx := ℕ
  State := ScanPlanGate × ℤ
  Choice := Unit
  answer _ s op _ :=
    match op with
    | .scanPlanGate f => some (.ok (f s.1 s.2).1, (f s.1 s.2).2, s.2)
    | .lockAttach | .unlockAttach => some (.ok (), s)
    | .attached => some (.ok (some 0), s)
    | .isDirty | .tryGetTransaction _ => some (.ok false, s)
    | .lookupEntry _ _ => some (.ok (some ⟨[⟨"b", .bigint⟩]⟩), s)
    | .getTableEntry _ => some (.ok none, s)
    | .setTableEntry _ entry => some (.ok entry, s)
    | _ => none

/-- Its latch. -/
def twoQueries : Latched where
  world := TwoQueries
  gate := Prod.fst
  now := Prod.snd
  schema := true
  latch _ _ _ _ _ _ h := (Prod.mk.inj (Option.some.inj h)).1.symm
  lookup _ _ _ _ _ _ _ h := by
    have hans := (Prod.mk.inj (Option.some.inj h)).1
    rw [← Except.ok.inj hans]
    rfl
  kept _ _ _ _ _ _ h := by
    have hans := (Prod.mk.inj (Option.some.inj h)).1
    cases Except.ok.inj hans

/-- A Delta table UC reports another column of. -/
def reportedTable : TableInformation where
  catalog_name := "uc"
  read_only := false
  credentials := { endpoint := "http://uc", token := "", use_irc_scan_plan := true }
  schema_name := "s"
  reported := some ⟨"t", [⟨"a", .varchar⟩]⟩
  table_data :=
    { table_id := "id", name := "t", catalog_name := "c", schema_name := "s"
      storage_location := "file:///t" }

theorem exec_getVersionFrom_planned : (reportedTable.getVersionFrom none).Exec (W := TwoQueries) 0
    ({}, 0) (.ok (.report, ⟨"t", [⟨"a", .varchar⟩]⟩)) ({}, 0) :=
  Prog.exec_of_follow [()] rfl

theorem exec_getScanFunction_unavailable : (reportedTable.getScanFunction none).Exec
    (W := TwoQueries) 0 (⟨.unavailable, 0⟩, 0) (.ok (.delta ⟨[⟨"b", .bigint⟩]⟩))
    (⟨.unavailable, 0⟩, 0) :=
  Prog.exec_of_follow (List.replicate 10 ()) rfl

/-- Between the two calls another query's plan fails: the reported column is read from the log. -/
theorem statement_read_by_other_path :
    ∃ (L : Latched) (c d : L.world.Ctx) (t : TableInformation) (s s₁ s₂ s₃ : L.world.State)
      (source : TableInformation.Source) (entry : UCTableEntry) (scan : BoundScan),
      (t.getVersionFrom none).Exec c s (.ok (source, entry)) s₁ ∧
        markScanPlanUnavailable.Exec d s₁ (.ok ()) s₂ ∧
          (t.getScanFunction none).Exec c s₂ (.ok scan) s₃ ∧ ¬ t.ReadAsBound source scan := by
  have hmark : markScanPlanUnavailable.Exec (W := TwoQueries) 1 ({}, 0) (.ok ())
      (⟨.unavailable, 0⟩, 0) := Prog.exec_of_follow [()] rfl
  refine ⟨twoQueries, (0 : ℕ), (1 : ℕ), reportedTable, _, _, _, _, _, _, _,
    exec_getVersionFrom_planned, hmark, exec_getScanFunction_unavailable, ?_⟩
  rintro (⟨bind_data, h⟩ | h)
  · cases h
  · exact h rfl

theorem exec_getScanFunction_planned : ∃ scan, (reportedTable.getScanFunction none).Exec
    (W := TwoQueries) 0 ({}, 0) (.ok scan) ({}, 0) :=
  ⟨_, Prog.exec_of_follow [()] rfl⟩

/-- With the latch left alone the statement is planned, as it was bound. -/
theorem statement_read_as_planned :
    ∃ scan, (reportedTable.getScanFunction none).Exec (W := TwoQueries) 0 ({},
      0) (.ok scan) ({}, 0) ∧
      reportedTable.ReadAsBound .report scan := by
  obtain ⟨scan, hscan⟩ := exec_getScanFunction_planned
  refine ⟨scan, hscan, ?_⟩
  have hiff := Latched.readAsBound_iff (L := twoQueries) exec_getVersionFrom_planned hscan
  exact hiff.2 fun _ => .inl rfl

end UnityCatalog
