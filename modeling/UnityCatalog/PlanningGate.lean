import UnityCatalog.EntryKeys
import UnityCatalog.ScanFunction

/-!
# When scan planning is tried

One latch a catalog, `ScanPlanGate`, decides whether a scan is planned. It decays **lazily**: a mark
that has aged is only forgotten when somebody asks, so what it holds depends on when it was asked.
`Called.answer` says that the answers do not: they follow from the history of calls alone. What
makes a mark is a scan; `ucScanPlanInitGlobal_marks` says which marks each outcome of one leaves
behind.
-/

namespace UnityCatalog

open Effectful

/-! ## Calls on the latch -/

/-- The functions that take `scan_plan_lock`. -/
inductive GateCall where
  | shouldTryScanPlan | markScanPlanAvailable | markScanPlanUnavailable
  deriving DecidableEq

/-- What a call runs. -/
def GateCall.run (credentials : UCCredentials) : GateCall → Run Unit
  | .shouldTryScanPlan => do
    let _ ← UnityCatalog.shouldTryScanPlan credentials
    return ()
  | .markScanPlanAvailable => UnityCatalog.markScanPlanAvailable
  | .markScanPlanUnavailable => UnityCatalog.markScanPlanUnavailable

/-- A latch and a steady clock: who asks is the time of asking. -/
abbrev SteadyGate : World Client Exception where
  Ctx := ℤ
  State := ScanPlanGate
  Choice := Unit
  answer now g op _ :=
    match op with
    | .scanPlanGate f => some (.ok (f g now).1, (f g now).2)
    | _ => none

/-- Calls with their times, the latest first, and what they leave the latch at. Its lock puts the
calls of all scans in one order, in which the clock does not go back. -/
inductive Called (credentials : UCCredentials) : List (GateCall × ℤ) → ScanPlanGate → Prop where
  /-- no call yet -/
  | start : Called credentials [] {}
  /-- one more call -/
  | call {calls : List (GateCall × ℤ)} {g g' : ScanPlanGate} {call : GateCall} {now : ℤ} :
    Called credentials calls g → (∀ x ∈ calls.head?, x.2 ≤ now) →
    (call.run credentials).Exec (W := SteadyGate) now g (.ok ()) g' →
    Called credentials ((call, now) :: calls) g'

/-! ## What follows from the history -/

/-- The latest mark and its time. -/
def latestMark (calls : List (GateCall × ℤ)) : Option (GateCall × ℤ) :=
  calls.find? fun x => x.1 ≠ .shouldTryScanPlan

/-- The rule: the catalog opted in, and the latest mark is no recent `Unavailable`. -/
def allowed (credentials : UCCredentials) (calls : List (GateCall × ℤ)) (now : ℤ) : Bool :=
  credentials.use_irc_scan_plan &&
    match latestMark calls with
    | some (.markScanPlanUnavailable, since) => !decide (now - since < scanPlanReProbe)
    | _ => true

/-- What the latch holds after a latest mark, last asked at `last`: an aged `Unavailable` is there
until somebody asks, and gone afterwards. -/
inductive Holds (last : Option ℤ) : Option (GateCall × ℤ) → ScanPlanGate → Prop where
  | unmarked {since : ℤ} : Holds last none ⟨.unknown, since⟩
  | available {t since : ℤ} : Holds last (some (.markScanPlanAvailable, t)) ⟨.available, since⟩
  | unavailable {t : ℤ} : Holds last (some (.markScanPlanUnavailable, t)) ⟨.unavailable, t⟩
  | aged {t since now : ℤ} : last = some now → scanPlanReProbe ≤ now - t →
    Holds last (some (.markScanPlanUnavailable, t)) ⟨.unknown, since⟩

@[simp] theorem latestMark_cons_shouldTryScanPlan (calls : List (GateCall × ℤ)) (now : ℤ) :
    latestMark ((.shouldTryScanPlan, now) :: calls) = latestMark calls := rfl

theorem exec_scanPlanGate {f : ScanPlanGate → ℤ → Bool × ScanPlanGate} {g g' : ScanPlanGate}
    {now : ℤ} {r : Except Exception Bool} :
    (scanPlanGate f).Exec (W := SteadyGate) now g r g' ↔ r = .ok (f g now).1 ∧
      g' = (f g now).2 := by
  rw [scanPlanGate, Prog.exec_perform]
  constructor
  · rintro ⟨_, h⟩
    obtain ⟨hr, hg⟩ := Prod.mk.inj (Option.some.inj h)
    exact ⟨hr.symm, hg.symm⟩
  · rintro ⟨rfl, rfl⟩
    exact ⟨(), rfl⟩

/-- `ShouldTryScanPlan` answers by the rule, and forgets at most an aged mark. -/
theorem Holds.shouldTryScanPlan {credentials : UCCredentials} {calls : List (GateCall × ℤ)}
    {g g' : ScanPlanGate} {now : ℤ} {r : Except Exception Bool}
    (h : Holds (calls.head?.map Prod.snd) (latestMark calls) g)
    (hnow : ∀ x ∈ calls.head?, x.2 ≤ now)
    (he : (shouldTryScanPlan credentials).Exec (W := SteadyGate) now g r g') :
    r = .ok (allowed credentials calls now) ∧ Holds (some now) (latestMark calls) g' := by
  -- a mark that had aged when the latch was last asked is older still now
  have aging : ∀ t last, calls.head?.map Prod.snd = some last → scanPlanReProbe ≤ last - t →
      scanPlanReProbe ≤ now - t := by
    intro t last hlast hle
    obtain ⟨x, hx, rfl⟩ := Option.map_eq_some_iff.1 hlast
    have := hnow x hx
    omega
  rw [UnityCatalog.shouldTryScanPlan] at he
  rw [allowed]
  generalize hmark : latestMark calls = mark at h
  by_cases hopt : credentials.use_irc_scan_plan
  · rw [if_pos hopt, exec_scanPlanGate] at he
    rw [hopt, Bool.true_and]
    cases h with
    | unmarked =>
      obtain ⟨rfl, rfl⟩ := he
      exact ⟨rfl, .unmarked⟩
    | available =>
      obtain ⟨rfl, rfl⟩ := he
      exact ⟨rfl, .available⟩
    | @unavailable t =>
      by_cases hrecent : now - t < scanPlanReProbe
      · simp only [if_pos hrecent] at he
        obtain ⟨rfl, rfl⟩ := he
        exact ⟨by simp [hrecent], .unavailable⟩
      · simp only [if_neg hrecent] at he
        obtain ⟨rfl, rfl⟩ := he
        exact ⟨by simp [hrecent], .aged rfl (by omega)⟩
    | @aged t since last hlast hle =>
      obtain ⟨rfl, rfl⟩ := he
      have hold := aging t last hlast hle
      refine ⟨?_, .aged rfl hold⟩
      have hrecent : ¬ now - t < scanPlanReProbe := by omega
      simp [hrecent]
  · rw [if_neg hopt] at he
    obtain ⟨rfl, rfl⟩ := he
    refine ⟨by simp [hopt], ?_⟩
    cases h with
    | unmarked => exact .unmarked
    | available => exact .available
    | unavailable => exact .unavailable
    | aged hlast hle => exact .aged rfl (aging _ _ hlast hle)

theorem exists_exec_shouldTryScanPlan (credentials : UCCredentials) (now : ℤ) (g : ScanPlanGate) :
    ∃ b g', (shouldTryScanPlan credentials).Exec (W := SteadyGate) now g (.ok b) g' := by
  rw [shouldTryScanPlan]
  split
  · exact ⟨_, _, exec_scanPlanGate.2 ⟨rfl, rfl⟩⟩
  · exact ⟨false, g, rfl, rfl⟩

/-- **Invariant**: the latch holds what the history says. -/
theorem Called.holds {credentials : UCCredentials} {calls : List (GateCall × ℤ)} {g : ScanPlanGate}
    (h : Called credentials calls g) : Holds (calls.head?.map Prod.snd) (latestMark calls) g := by
  induction h with
  | start => exact .unmarked
  | @call calls g g' call now _ hnow he ih =>
    cases call with
    | shouldTryScanPlan =>
      rcases Prog.exec_bind.1 he with ⟨a, g₁, he, -, rfl⟩ | ⟨e, -, h⟩
      · exact (ih.shouldTryScanPlan hnow he).2
      · cases h
    | markScanPlanAvailable =>
      rcases Prog.exec_bind.1 he with ⟨a, g₁, he, -, rfl⟩ | ⟨e, -, h⟩
      · obtain ⟨-, rfl⟩ := exec_scanPlanGate.1 he
        exact .available
      · cases h
    | markScanPlanUnavailable =>
      rcases Prog.exec_bind.1 he with ⟨a, g₁, he, -, rfl⟩ | ⟨e, -, h⟩
      · obtain ⟨-, rfl⟩ := exec_scanPlanGate.1 he
        exact .unavailable
      · cases h

/-- **The answers follow from the history of calls**, whenever the latch was asked before. -/
theorem Called.answer {credentials : UCCredentials} {calls : List (GateCall × ℤ)} {g : ScanPlanGate}
    {now : ℤ} (h : Called credentials calls g) (hnow : ∀ x ∈ calls.head?, x.2 ≤ now) :
    (∃ g', (shouldTryScanPlan credentials).Exec (W := SteadyGate) now g
      (.ok (allowed credentials calls now)) g') ∧
    ∀ r g', (shouldTryScanPlan credentials).Exec (W := SteadyGate) now g r g' →
      r = .ok (allowed credentials calls now) := by
  have hall : ∀ r g', (shouldTryScanPlan credentials).Exec (W := SteadyGate) now g r g' →
      r = .ok (allowed credentials calls now) :=
        fun r g' he => (h.holds.shouldTryScanPlan hnow he).1
  refine ⟨?_, hall⟩
  obtain ⟨b, g', he⟩ := exists_exec_shouldTryScanPlan credentials now g
  have hb := hall _ _ he
  exact ⟨g', hb ▸ he⟩

/-! ## What marks the latch -/

/-- Operations on the latch. -/
def Op.isGate : Op → Bool
  | .scanPlanGate _ => true
  | _ => false

/-- The operation of `MarkScanPlanAvailable` -/
def Op.markAvailable : Op :=
    .scanPlanGate fun g _ => (true, { g with scan_plan_state := .available })

/-- The operation of `MarkScanPlanUnavailable` -/
def Op.markUnavailable : Op := .scanPlanGate fun _ now => (true, ⟨.unavailable, now⟩)

/-- The marks an outcome of the `/plan` call is worth: none for an interrupt, `Available` for a plan
that is completed, `Unavailable` for everything else. -/
def UCScanPlanBindData.marks (bd : UCScanPlanBindData) : Except Exception UCScanPlanResult → List Op
  | .ok plan =>
    if bd.uc_catalog then
      if plan.status = .completed then [.markAvailable] else [.markUnavailable]
    else []
  | .error e => if e.type = .interrupt then [] else if bd.uc_catalog then [.markUnavailable] else []

/-! ### Operations that are none on the latch -/

/-- The operations of planning. -/
def Op.IsPlanning : Op → Prop
  | .ensureHttpfs | .issue _ | .answer | .interruptCheck | .sleepFor _ => True
  | _ => False

theorem uses_makeRequestResp {P : Op → Prop} {url token : String} {body : RequestBody}
    {tolerated : ℕ} (he : P .ensureHttpfs) (hi : ∀ req, P (.issue req)) (ha : P .answer) :
    (makeRequestResp url token body tolerated).Uses P := by
  refine (Prog.uses_perform he).bind fun _ => (Prog.uses_perform (hi _)).bind fun _ => ?_
  refine (Prog.uses_perform ha).bind fun resp => ?_
  split <;> trivial

theorem uses_abandon {α : Type} (t : ScanTarget) (plan_id : String) (e : Exception) :
    (abandon t plan_id e : Run α).Uses Op.IsPlanning := by
  have hcancel : (cancelPlan t plan_id).Uses Op.IsPlanning := by
    rw [cancelPlan]
    split
    · refine Prog.Uses.tryCatch ?_ fun _ => trivial
      exact (Prog.uses_perform trivial).bind fun _ => (Prog.uses_perform trivial).bind fun _ =>
        trivial
    · trivial
  exact hcancel.bind fun _ => trivial

theorem uses_sleepInChunks (sleep_ms slept : ℤ) :
    (sleepInChunks sleep_ms slept).Uses Op.IsPlanning := by
  fun_induction sleepInChunks sleep_ms slept with
  | case1 slept _ ih =>
    exact (Prog.uses_perform trivial).bind fun _ => (Prog.uses_perform trivial).bind fun _ => ih
  | case2 => trivial

theorem uses_pollLoop (t : ScanTarget) (result : UCScanPlanResult)
    (retry_after_ms backoff_ms elapsed_ms : ℤ) :
    (pollLoop t result retry_after_ms backoff_ms elapsed_ms).Uses Op.IsPlanning := by
  fun_induction pollLoop t result retry_after_ms backoff_ms elapsed_ms with
  | case1 => exact uses_abandon ..
  | case2 _ _ _ _ _ _ _ ih =>
    refine Prog.Uses.bind (Prog.Uses.tryCatch ?_ fun e => uses_abandon ..) fun next => ih ..
    refine (uses_sleepInChunks ..).bind fun _ => ?_
    refine (uses_makeRequestResp trivial (fun _ => trivial) trivial).bind fun resp => ?_
    exact (Prog.uses_ofExcept _).bind fun _ => trivial
  | case3 => trivial

theorem uses_planTableScan (t : ScanTarget) (filter_json : String) :
    (UCAPI.planTableScan t filter_json).Uses Op.IsPlanning := by
  refine (uses_makeRequestResp trivial (fun _ => trivial) trivial).bind fun resp => ?_
  exact (Prog.uses_ofExcept _).bind fun result => uses_pollLoop ..

/-! ### Operations of a Delta scan -/

namespace TableInformation

variable {t : TableInformation}

theorem DeltaStep.isGate {op : Op} (h : t.DeltaStep op) : op.isGate = false := by
  rcases h with h | h | ⟨db, at_clause, rfl⟩
  · cases op <;> first | rfl | exact h.elim
  · cases op <;> first | rfl | exact h.elim
  · rfl

theorem uses_buildDeltaScan (t : TableInformation) (lookup_info : Option BoundAtClause) :
    (t.buildDeltaScan lookup_info).Uses t.DeltaStep := by
  refine (t.uses_deltaTable lookup_info).bind fun delta_table => ?_
  cases delta_table <;> trivial

end TableInformation

/-! ### Marks on a trace -/

section

variable {W : World Client Exception} {c : W.Ctx} {s s' : W.State} {ops ops' : List Op}

/-- A program that leaves the latch alone adds no operation on it. -/
theorem filter_isGate_of_uses {α : Type} {p : Run α} {r : Except Exception α}
    (hp : p.Uses fun op : Op => op.isGate = false)
    (h : p.Exec (W := W.traced) c (s, ops) r (s', ops')) :
    ops'.filter Op.isGate = ops.filter Op.isGate := by
  obtain ⟨-, new, rfl, hnew⟩ := Prog.Exec.traced hp h
  have hnone : new.filter Op.isGate = [] := List.filter_eq_nil_iff.2 fun op hop => by
    simp [hnew op hop]
  rw [List.filter_append, hnone, List.append_nil]

/-- One operation on the latch. -/
theorem filter_isGate_scanPlanGate {f : ScanPlanGate → ℤ → Bool × ScanPlanGate}
    {r : Except Exception Bool}
    (h : (scanPlanGate f).Exec (W := W.traced) c (s, ops) r (s', ops')) :
    ops'.filter Op.isGate = ops.filter Op.isGate ++ [.scanPlanGate f] := by
  rw [scanPlanGate, Prog.exec_perform] at h
  obtain ⟨ch, ha⟩ := h
  obtain ⟨-, rfl⟩ := Prog.answer_traced ha
  rw [List.filter_append]
  rfl

/-- A mark, and then what leaves the latch alone. -/
theorem filter_isGate_mark {α : Type} {f : ScanPlanGate → ℤ → Bool × ScanPlanGate}
    {uc_catalog : Bool}
    {p : Run α} {r : Except Exception α} (hp : p.Uses fun op : Op => op.isGate = false)
    (h : (if uc_catalog then ((scanPlanGate f).bind fun _ => .ret ()).bind fun _ => p
      else p : Run α).Exec (W := W.traced) c (s, ops) r (s', ops')) :
    ops'.filter Op.isGate =
      ops.filter Op.isGate ++ if uc_catalog then [.scanPlanGate f] else [] := by
  cases uc_catalog with
  | false =>
    rw [if_neg Bool.false_ne_true, List.append_nil]
    exact filter_isGate_of_uses hp h
  | true =>
    rw [if_pos rfl]
    rw [if_pos rfl, Prog.bind_assoc] at h
    rcases Prog.exec_bind.1 h with ⟨a, ⟨s₁, ops₁⟩, hg, hp'⟩ | ⟨e, hg, -⟩
    · rw [filter_isGate_of_uses hp hp', filter_isGate_scanPlanGate hg]
    · exact filter_isGate_scanPlanGate hg

/-! ### The marks of a scan -/

variable {bd : UCScanPlanBindData} {input : TableFunctionInitInput}

theorem uses_fallback (e : Exception) :
    (bd.fallback e input).Uses fun op : Op => op.isGate = false := by
  rw [UCScanPlanBindData.fallback]
  split
  · split
    · refine Prog.Uses.bind ?_ fun delta => (Prog.uses_perform (by rfl)).bind fun _ => trivial
      exact (TableInformation.uses_buildDeltaScan ..).mono fun _ h => h.isGate
    · trivial
  · trivial

theorem uses_registerSecrets (i : ℕ) (creds : List (String × List (String × String))) :
    (bd.registerSecrets i creds).Uses fun op : Op => op.isGate = false := by
  induction creds generalizing i with
  | nil => trivial
  | cons cred rest ih => exact (Prog.uses_perform (by rfl)).bind fun _ => ih (i + 1)

theorem uses_planned (plan : UCScanPlanResult) :
    (bd.planned plan input).Uses fun op : Op => op.isGate = false := by
  refine (uses_registerSecrets ..).bind fun _ => (Prog.uses_ofExcept _).bind fun files => ?_
  refine (Prog.uses_perform (by rfl)).bind fun _ => ?_
  exact (Prog.uses_perform (by rfl)).bind fun _ => trivial

theorem uses_completedPlan : bd.completedPlan.Uses fun op : Op => op.isGate = false := by
  refine ((uses_planTableScan ..).mono fun op hop => ?_).bind fun plan => ?_
  · cases op <;> first | rfl | exact hop.elim
  · split <;> trivial

/-- What `completedPlan` makes of the `/plan` call. -/
theorem exec_completedPlan {x : Except Exception UCScanPlanResult} :
    bd.completedPlan.Exec c s x s' ↔
      ∃ y, (UCAPI.planTableScan bd.target bd.filter_json).Exec c s y s' ∧
        x = y.bind fun plan =>
          if plan.status = .completed then .ok plan else .error (bd.notCompleted plan) := by
  rw [UCScanPlanBindData.completedPlan, Prog.bind_eq, Prog.exec_bind]
  constructor
  · rintro (⟨plan, s₁, hp, h⟩ | ⟨e, hp, rfl⟩)
    · by_cases hdone : plan.status = .completed
      · rw [if_pos hdone] at h
        obtain ⟨rfl, rfl⟩ := h
        exact ⟨.ok plan, hp, (if_pos hdone).symm⟩
      · rw [if_neg hdone] at h
        obtain ⟨rfl, rfl⟩ := h
        exact ⟨.ok plan, hp, (if_neg hdone).symm⟩
    · exact ⟨.error e, hp, rfl⟩
  · rintro ⟨y, hp, rfl⟩
    cases y with
    | error e => exact .inr ⟨e, hp, rfl⟩
    | ok plan =>
      refine .inl ⟨plan, s', hp, ?_⟩
      by_cases hdone : plan.status = .completed
      · rw [if_pos hdone]
        exact ⟨if_pos hdone, rfl⟩
      · rw [if_neg hdone]
        exact ⟨if_neg hdone, rfl⟩

/-- **A scan leaves on the latch the mark its `/plan` call is worth**, and no other, however it
ends. -/
theorem ucScanPlanInitGlobal_marks {r : Except Exception UCScanPlanGlobalState}
    (h : (ucScanPlanInitGlobal bd input).Exec (W := W.traced) c (s, []) r (s', ops)) :
    ∃ x s₁, (UCAPI.planTableScan bd.target bd.filter_json).Exec (W := W) c s x s₁ ∧
      ops.filter Op.isGate = bd.marks x := by
  rw [ucScanPlanInitGlobal_eq] at h
  rcases Prog.exec_bind.1 h with ⟨x, ⟨s₁, ops₁⟩, hx, h⟩ | ⟨e, hx, -⟩
  · obtain ⟨x, hxx, hx⟩ := Prog.exec_attempt.1 hx
    obtain rfl := Except.ok.inj hxx
    have hops : ops₁.filter Op.isGate = [] := filter_isGate_of_uses uses_completedPlan hx
    obtain ⟨y, hy, rfl⟩ := exec_completedPlan.1 (Prog.Exec.traced uses_completedPlan hx).1
    refine ⟨y, s₁, hy, ?_⟩
    -- what is thrown is marked unless it is an interrupt, whether the call threw it or its status
    -- did
    have thrown : ∀ e : Exception, e.type ≠ .interrupt →
        (if e.type = .interrupt then throw e
          else do
            if bd.uc_catalog then markScanPlanUnavailable
            bd.fallback e input : Run UCScanPlanGlobalState).Exec (W := W.traced) c (s₁, ops₁) r
          (s', ops) →
        ops.filter Op.isGate = if bd.uc_catalog then [.markUnavailable] else [] := by
      intro e he h
      rw [if_neg he] at h
      have hmarks := filter_isGate_mark (uses_fallback e) h
      rwa [hops, List.nil_append] at hmarks
    cases y with
    | error e =>
      rw [UCScanPlanBindData.marks]
      by_cases he : e.type = .interrupt
      · rw [if_pos he]
        have h : (Prog.throw e : Run UCScanPlanGlobalState).Exec (W := W.traced) c (s₁, ops₁) r
            (s', ops) := by
          simpa [Except.bind, he] using h
        obtain ⟨-, hs⟩ := h
        obtain ⟨rfl, rfl⟩ := Prod.mk.inj hs
        exact hops
      · rw [if_neg he]
        exact thrown e he h
    | ok plan =>
      rw [UCScanPlanBindData.marks]
      by_cases hdone : plan.status = .completed
      · simp only [Except.bind, if_pos hdone] at h ⊢
        have hmarks := filter_isGate_mark (uses_planned plan) h
        rwa [hops, List.nil_append] at hmarks
      · simp only [Except.bind, if_neg hdone] at h ⊢
        exact thrown (bd.notCompleted plan) (by nofun) h
  · obtain ⟨x, hxx, -⟩ := Prog.exec_attempt.1 hx
    cases hxx

end

/-- **Planning is off exactly after a failure.** Whatever was called before and when, the latch lets
a scan be planned by the rule; and what a scan leaves on the latch is the mark its `/plan` call is
worth. -/
theorem planning_off_after_failure :
    (∀ (credentials : UCCredentials) (calls : List (GateCall × ℤ)) (g : ScanPlanGate) (now : ℤ),
      Called credentials calls g → (∀ x ∈ calls.head?, x.2 ≤ now) →
        (∃ g', (shouldTryScanPlan credentials).Exec (W := SteadyGate) now g
          (.ok (allowed credentials calls now)) g') ∧
        ∀ r g', (shouldTryScanPlan credentials).Exec (W := SteadyGate) now g r g' →
          r = .ok (allowed credentials calls now)) ∧
    ∀ (W : World Client Exception) (c : W.Ctx) (s s' : W.State) (ops : List Op)
      (bd : UCScanPlanBindData) (input : TableFunctionInitInput)
      (r : Except Exception UCScanPlanGlobalState),
      (ucScanPlanInitGlobal bd input).Exec (W := W.traced) c (s, []) r (s', ops) →
        ∃ x s₁, (UCAPI.planTableScan bd.target bd.filter_json).Exec (W := W) c s x s₁ ∧
          ops.filter Op.isGate = bd.marks x :=
  ⟨fun _ _ _ _ h hnow => h.answer hnow, fun _ _ _ _ _ _ _ _ h => ucScanPlanInitGlobal_marks h⟩

/-- A catalog that can be reached for nothing: only its latch works. -/
abbrev unreachable : World Client Exception :=
  Prog.det (σ := Unit) fun _ op =>
    match op with
    | .scanPlanGate f => (.ok (f {} 0).1, ())
    | _ => (.error (ioException "Could not connect"), ())

/-- A scan of a table that has no Delta fallback. -/
def unreachableScan : UCScanPlanBindData where
  catalog_name := "c"
  schema_name := "s"
  table_name := "t"
  storage_location := "s3://t"
  credentials := { endpoint := "http://uc", token := "", use_irc_scan_plan := true }
  scan_plan_endpoint := "http://irc"
  uc_catalog := true

/-- Ten minutes after a failed plan the catalog is left alone, a scan that fails there being one. -/
theorem planning_off_ten_minutes :
    (∃ g', (shouldTryScanPlan unreachableScan.credentials).Exec (W := SteadyGate) 600000000000
      ⟨.unavailable, 0⟩ (.ok false) g') ∧
    ∃ x s₁, (UCAPI.planTableScan unreachableScan.target "").Exec (W := unreachable) () () x s₁ ∧
      [Op.markUnavailable] = unreachableScan.marks x := by
  have hcalled : Called unreachableScan.credentials [(.markScanPlanUnavailable, 0)]
      ⟨.unavailable, 0⟩ := by
    refine .call .start nofun ?_
    exact Prog.exec_bind.2 (.inl ⟨true, _, exec_scanPlanGate.2 ⟨rfl, rfl⟩, rfl, rfl⟩)
  refine ⟨(planning_off_after_failure.1 _ _ _ 600000000000 hcalled (by simp)).1, ?_⟩
  have hrun : (ucScanPlanInitGlobal unreachableScan ⟨[], []⟩).Exec (W := unreachable.traced) ()
      ((), []) (.error (unreachableScan.noFallback (ioException "Could not connect")))
      ((), [.ensureHttpfs, .markUnavailable]) :=
    Prog.exec_of_follow [(), ()] rfl
  exact planning_off_after_failure.2 unreachable () () () _ _ _ _ hrun

end UnityCatalog
