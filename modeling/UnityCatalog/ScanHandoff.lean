import UnityCatalog.LockOrder
import UnityCatalog.ScanFunction

/-!
# Handing a file list to parquet

The function that makes parquet's multi-file reader is told nothing but which table function it is
for, so `UCScanPlanInitGlobal` hands it the plan's files through a thread-local variable. It is set
before parquet is looked up and bound, the factory moves it out while parquet binds, and a bind that
throws resets it; a lookup that throws leaves it set.

`every_scan_gets_its_own_files` is about any number of threads that start planned scans, any of
whose steps may throw.
-/

namespace UnityCatalog

open Effectful

/-! ## The variable -/

/-- What is performed on the thread's variable, and what DuckDB does in between. -/
inductive HandoffOp where
  /-- assign `tl_uc_file_list` -/
  | set (files : UCMultiFileList)
  /-- `std::move(tl_uc_file_list)` -/
  | take
  /-- `tl_uc_file_list.reset()` -/
  | reset
  /-- a `D_ASSERT` that does not hold -/
  | assertionFails
  /-- look up `parquet_scan` -/
  | parquetFunction
  /-- parquet's bind, up to its reader -/
  | bindBegins (path : String)
  /-- the rest of it -/
  | bindEnds

/-- What these answer. -/
abbrev HandoffOp.Ans : HandoffOp → Type
  | .take => Option UCMultiFileList
  | _ => Unit

/-- The operations of starting a scan. -/
abbrev HandoffClient : Signature := Client.sum ⟨HandoffOp, HandoffOp.Ans⟩

/-- Part of starting a scan. -/
abbrev HandoffRun : Type → Type := Prog HandoffClient Exception

/-- One of the operations above. -/
def handoff (op : HandoffOp) : HandoffRun op.Ans := Prog.perform (F := HandoffClient) (.inr op)

/-- `UCMultiFileReaderFactory`: the list that the reader gets. -/
def ucMultiFileReaderFactory : HandoffRun UCMultiFileList := do
  let files ← handoff .take
  match files with
  | some files => return files
  | none => do
    handoff .assertionFails
    throw (internalException "Assertion triggered: tl_uc_file_list")

/-- `parquet_fn.bind`: the list of the reader it binds to. -/
def parquetBind (scan_path : String) : HandoffRun UCMultiFileList := do
  handoff (.bindBegins scan_path)
  let files ← ucMultiFileReaderFactory
  handoff .bindEnds
  return files

/-- The scan of a completed plan, as `planned`, with parquet's bind in its steps. -/
def UCScanPlanBindData.plannedThrough (bd : UCScanPlanBindData) (plan : UCScanPlanResult)
    (input : TableFunctionInitInput) : HandoffRun UCScanPlanGlobalState := do
  (bd.registerSecrets 0 plan.storage_credentials).left
  let files ← Prog.ofExcept (UCMultiFileList.create bd.target plan)
  handoff (.set files)
  -- outside the try block
  handoff .parquetFunction
  let bound ← tryCatch
    (parquetBind (if bd.storage_location = "" then "uc://scan_plan" else bd.storage_location))
    fun e => do
      handoff .reset
      throw e
  (adoptInnerScan (.parquet bound) input).left

/-! ## Threads -/

/-- A planned scan to start. -/
structure PlannedStart where
  bind_data : UCScanPlanBindData
  plan : UCScanPlanResult
  input : TableFunctionInitInput

/-- What else there is: answers, which may be errors, to everything but the variable. -/
structure ScanHost where
  Choice : Type
  answer : ℕ → (op : HandoffClient.Op) → Choice → Option (Except Exception (HandoffClient.Ans op))

/-- The threads' variables, and the scans that were started. -/
structure HandoffState where
  tl_uc_file_list : ℕ → Option UCMultiFileList := fun _ => none
  assertion_failed : Bool := false
  started : List (PlannedStart × UCScanPlanGlobalState) := []

/-- Write a thread's variable. -/
def HandoffState.write (s : HandoffState) (thread : ℕ) (files : Option UCMultiFileList) :
    HandoffState :=
  { s with tl_uc_file_list := Function.update s.tl_uc_file_list thread files }

/-- Answers. -/
def handoffAnswer (H : ScanHost) (thread : ℕ) (s : HandoffState) :
    (op : HandoffClient.Op) → H.Choice →
    Option (Except Exception (HandoffClient.Ans op) × HandoffState)
  | .inr (.set files), _ => some (.ok (), s.write thread (some files))
  | .inr .take, _ => some (.ok (s.tl_uc_file_list thread), s.write thread none)
  | .inr .reset, _ => some (.ok (), s.write thread none)
  | .inr .assertionFails, _ => some (.ok (), { s with assertion_failed := true })
  | op, ch => (H.answer thread op ch).map fun x => (x, s)

/-- Threads that start planned scans, one after the other in each. -/
abbrev scanStarts (H : ScanHost) :
    Pool HandoffClient Exception (PlannedStart × UCScanPlanGlobalState) where
  Ctx := ℕ
  State := HandoffState
  Choice := H.Choice
  answer := handoffAnswer H
  Call := PlannedStart
  start s _ call := some
    ((call.bind_data.plannedThrough call.plan call.input).bind fun gstate => .ret (call, gstate), s)
  finish s _
    | .ok x => { s with started := s.started ++ [x] }
    | .error _ => s
  Env := Empty
  env _ e := e.elim
  init s := s = {}

/-- A scan reads the files of its own plan. -/
def OwnFiles (x : PlannedStart × UCScanPlanGlobalState) : Prop :=
  ∃ files, UCMultiFileList.create x.1.bind_data.target x.1.plan = .ok files ∧
    x.2 = ⟨.parquet files, x.1.input⟩

/-! ## Rely and guarantee -/

section

variable (H : ScanHost)

/-- No assertion has failed and every scan has its own files; a thread's variable is its own. -/
def handingOver : Outline (scanStarts H) where
  guard := ⟨fun _ _ _ _ => True, fun _ _ => True⟩
  inv s := s.assertion_failed = false ∧ ∀ x ∈ s.started, OwnFiles x
  rely c s s' := s'.tl_uc_file_list c = s.tl_uc_file_list c
  rely_refl _ _ := rfl
  rely_trans _ _ _ _ h h' := h'.trans h

variable {H} {c : ℕ} {s : HandoffState} {α : Type}

/-- An operation that is not about the variable. -/
def HostOp : HandoffClient.Op → Prop
  | .inl _ => True
  | .inr .parquetFunction => True
  | .inr (.bindBegins _) => True
  | .inr .bindEnds => True
  | .inr _ => False

/-- What the host does leaves the hand-over alone: the slots, what was started and the assertion. -/
theorem hostOp_answer {op : HandoffClient.Op} (hop : HostOp op) {ch : H.Choice}
    {x : Except Exception (HandoffClient.Ans op)} {s' : HandoffState}
    (h : handoffAnswer H c s op ch = some (x, s')) : s' = s := by
  have hhost : (H.answer c op ch).map (fun x => (x, s)) = some (x, s') := by
    rcases op with op | op
    · exact h
    · cases op <;> first | exact h | exact hop.elim
  obtain ⟨_, -, heq⟩ := Option.map_eq_some_iff.1 hhost
  exact (Prod.mk.inj heq).2.symm

@[simp] theorem HandoffState.write_self (s : HandoffState) (files : Option UCMultiFileList) :
    (s.write c files).tl_uc_file_list c = files := by
  simp [HandoffState.write]

@[simp] theorem HandoffState.write_other (s : HandoffState) (files : Option UCMultiFileList) {d : ℕ}
    (hd : d ≠ c) : (s.write c files).tl_uc_file_list d = s.tl_uc_file_list d := by
  simp [HandoffState.write, hd]

/-- No other thread changes a thread's slot, which is thread-local. -/
theorem stable_slot (files : Option UCMultiFileList) :
    (handingOver H).Stable c fun s => s.tl_uc_file_list c = files :=
  fun _ _ hrel _ _ h => Eq.trans hrel h

/-- What is not about the variable leaves it as it is. -/
theorem safe_host {p : HandoffRun α} (hp : p.Uses HostOp) {files : Option UCMultiFileList}
    (hs : (handingOver H).inv s) (h : s.tl_uc_file_list c = files) :
    (handingOver H).Safe c p (fun _ s => s.tl_uc_file_list c = files) s :=
  Outline.safe_of_uses hp (fun _ _ _ _ _ hop ha => hostOp_answer hop ha) (stable_slot files) hs h

/-- A program of host operations keeps the invariant, as it changes nothing in it. -/
theorem keeps_host {p : HandoffRun α} (hp : p.Uses HostOp) : (handingOver H).Keeps c p :=
  Outline.keeps_of_uses hp fun _ _ _ _ _ hop ha => hostOp_answer hop ha

/-- A host operation performed alone is one. -/
theorem uses_host (op : HandoffOp) (hop : HostOp (.inr op)) : (handoff op).Uses HostOp :=
  Prog.uses_perform hop

/-- A program of the catalog's is one of host operations. -/
theorem uses_host_left (p : Run α) : (p.left : HandoffRun α).Uses HostOp :=
  Prog.Uses.left p.uses_trivial

/-- An operation that writes the variable: the other threads' are as they were. -/
theorem safe_writes {op : HandoffOp} {files : Option UCMultiFileList} {R : op.Ans → Prop}
    (h : ∀ u : HandoffState, u.tl_uc_file_list c = s.tl_uc_file_list c → ∀ ch x u',
      handoffAnswer H c u (.inr op) ch = some (x, u') → (∃ a, x = .ok a ∧ R a) ∧
      u' = u.write c files) :
    (handingOver H).Safe c (handoff op)
      (fun x s => (∃ a, x = .ok a ∧ R a) ∧ s.tl_uc_file_list c = files) s := by
  refine Outline.safe_perform (fun x => (Outline.stable_const _).and (stable_slot files)) ?_
  intro u hrel hu ch x u' _ ha
  obtain ⟨hx, rfl⟩ := h u hrel ch x u' ha
  exact ⟨hu, fun d hd => HandoffState.write_other u files hd, hx, by simp⟩

/-- After the hand-over the slot has the files that were put there. -/
theorem safe_set (files : UCMultiFileList) :
    (handingOver H).Safe c (handoff (.set files))
      (fun x s => (∃ a, x = .ok a ∧ True) ∧ s.tl_uc_file_list c = some files) s := by
  refine safe_writes fun u _ ch x u' ha => ?_
  obtain ⟨rfl, rfl⟩ := Prod.mk.inj (Option.some.inj ha)
  exact ⟨⟨(), rfl, trivial⟩, rfl⟩

/-- After the reset it is empty again, also where the bind threw. -/
theorem safe_reset :
    (handingOver H).Safe c (handoff .reset)
      (fun x s => (∃ a, x = .ok a ∧ True) ∧ s.tl_uc_file_list c = none) s := by
  refine safe_writes fun u _ ch x u' ha => ?_
  obtain ⟨rfl, rfl⟩ := Prod.mk.inj (Option.some.inj ha)
  exact ⟨⟨(), rfl, trivial⟩, rfl⟩

/-- Taking gives what the slot had and leaves it empty. -/
theorem safe_take :
    (handingOver H).Safe c (handoff .take)
      (fun x u => (∃ a, x = .ok a ∧ a = s.tl_uc_file_list c) ∧ u.tl_uc_file_list c = none) s := by
  refine safe_writes fun u hu ch x u' ha => ?_
  obtain ⟨rfl, rfl⟩ := Prod.mk.inj (Option.some.inj ha)
  exact ⟨⟨_, rfl, hu⟩, rfl⟩

/-! ## Each step of a start -/

variable {files : UCMultiFileList}

/-- Returns nothing but this list. -/
def Only (files : UCMultiFileList) (x : Except Exception UCMultiFileList) : Prop :=
  ∀ bound, x = .ok bound → bound = files

/-- A bind that throws gives no files at all. -/
theorem only_error (e : Exception) : Only files (.error e) := fun _ h => by cases h

/-- With the variable set, the factory's assertion holds and the reader gets what it was set to. -/
theorem safe_ucMultiFileReaderFactory (hs : (handingOver H).inv s)
    (h : s.tl_uc_file_list c = some files) :
    (handingOver H).Safe c ucMultiFileReaderFactory (fun x _ => Only files x) s := by
  refine safe_take.bind hs (fun taken u hu htaken => ?_) fun e u _ htaken => ?_
  · obtain ⟨⟨_, heq, rfl⟩, -⟩ := htaken
    obtain rfl : taken = some files := (Except.ok.inj heq).trans h
    exact Outline.safe_ofExcept (x := .ok files) (Outline.stable_const _) hu fun _ hb =>
      (Except.ok.inj hb).symm
  · obtain ⟨⟨_, heq, -⟩, -⟩ := htaken
    cases heq

/-- The inner bind takes the files of its own thread's slot, and no others. -/
theorem safe_parquetBind (scan_path : String) (hs : (handingOver H).inv s)
    (h : s.tl_uc_file_list c = some files) :
    (handingOver H).Safe c (parquetBind scan_path) (fun x _ => Only files x) s := by
  have throws (e : Exception) (u : HandoffState) (hu : (handingOver H).inv u) :
      (handingOver H).Safe c (.throw e : HandoffRun UCMultiFileList) (fun x _ => Only files x) u :=
    Outline.safe_ofExcept (x := .error e) (Outline.stable_const _) hu (only_error e)
  -- a bind that throws before its reader leaves the variable set
  refine (safe_host (uses_host (.bindBegins scan_path) trivial) hs h).bind hs (fun _ u hu hset =>
    ?_) fun e u hu _ =>
    throws e u hu
  refine (safe_ucMultiFileReaderFactory hu hset).bind hu (fun bound v hv hbound =>
    ?_) fun e v hv _ =>
    throws e v hv
  refine (keeps_host (uses_host .bindEnds trivial) v hv).bind hv (fun _ w hw _ =>
    ?_) fun e w hw _ =>
    throws e w hw
  exact Outline.safe_ofExcept (x := .ok bound) (Outline.stable_const _) hw fun _ hb =>
    Except.ok.inj hb ▸ hbound bound rfl

/-- A bind that throws leaves the variable empty. -/
theorem safe_parquetBind_caught (scan_path : String) (hs : (handingOver H).inv s)
    (h : s.tl_uc_file_list c = some files) :
    (handingOver H).Safe c
      ((parquetBind scan_path).tryCatch fun e => (handoff .reset).bind fun _ => .throw e)
      (fun x _ => Only files x) s := by
  refine (safe_parquetBind scan_path hs h).tryCatch hs (fun bound u hu hbound => ?_) fun e u hu _ =>
    ?_
  · exact Outline.safe_ofExcept (x := .ok bound) (Outline.stable_const _) hu hbound
  · refine safe_reset.bind hu (fun _ v hv _ => ?_) fun e' v hv _ => ?_
    · exact Outline.safe_ofExcept (x := .error e) (Outline.stable_const _) hv (only_error e)
    · exact Outline.safe_ofExcept (x := .error e') (Outline.stable_const _) hv (only_error e')

/-- What is handed on is the inner scan as it was bound. -/
theorem adoptInnerScan_returns (inner : InnerScan) (input : TableFunctionInitInput) :
    ((adoptInnerScan inner input).left : HandoffRun UCScanPlanGlobalState).Returns
      fun gstate => gstate = ⟨inner, input⟩ := by
  intro x
  cases x with
  | ok a => exact rfl
  | error e => exact trivial

/-- A start, whatever throws on the way. -/
theorem safe_plannedThrough (start : PlannedStart) (hs : (handingOver H).inv s) :
    (handingOver H).Safe c (start.bind_data.plannedThrough start.plan start.input)
      (fun r _ => ∀ gstate, r = .ok gstate → OwnFiles (start, gstate)) s := by
  have throws (e : Exception) (u : HandoffState) (hu : (handingOver H).inv u) :
      (handingOver H).Safe c (.throw e : HandoffRun UCScanPlanGlobalState)
        (fun r _ => ∀ gstate, r = .ok gstate → OwnFiles (start, gstate)) u :=
    Outline.safe_ofExcept (x := .error e) (Outline.stable_const _) hu fun _ h => by cases h
  refine (keeps_host (uses_host_left _) s hs).bind hs (fun _ s₁ hs₁ _ => ?_) fun e u hu _ =>
    throws e u hu
  rcases hfiles : UCMultiFileList.create start.bind_data.target start.plan with e | files
  · exact throws e s₁ hs₁
  refine (safe_set files).bind hs₁ (fun _ s₂ hs₂ hset => ?_) fun e u hu _ => throws e u hu
  -- a lookup that throws leaves the variable set for whatever the thread does next
  refine (safe_host (uses_host .parquetFunction trivial) hs₂ hset.2).bind hs₂ (fun _ s₃ hs₃ hset₃ =>
    ?_)
    fun e u hu _ => throws e u hu
  refine (safe_parquetBind_caught _ hs₃ hset₃).bind hs₃ (fun bound s₄ hs₄ hbound =>
    ?_) fun e u hu _ =>
    throws e u hu
  obtain rfl := hbound bound rfl
  have hadopt :=
    (keeps_host (H := H) (c := c) (uses_host_left (adoptInnerScan (.parquet bound) start.input))
    s₄ hs₄).returns (adoptInnerScan_returns (.parquet bound) start.input)
  exact hadopt.mono fun r u h gstate hr => ⟨bound, hfiles, h.1 gstate hr⟩

end

/-- **Every scan gets its own files.** Whatever threads start planned scans, in whatever order, and
whichever of their steps throw: the factory's assertion never fails, and each scan that is started
reads the files of the plan it was started with. -/
theorem every_scan_gets_its_own_files (H : ScanHost) {cfg : (scanStarts H).Config}
    (h : (scanStarts H).system.Reachable cfg) :
    cfg.state.assertion_failed = false ∧ ∀ x ∈ cfg.state.started, OwnFiles x := by
  have hunguarded : (handingOver H).Unguarded := ⟨fun _ _ _ _ => trivial, fun _ _ => trivial⟩
  refine (Outline.sound (O := handingOver H)
    (Q := fun _ r _ => ∀ x, r = .ok x → OwnFiles x) ?_ ?_ ?_ ?_ (hunguarded.reachable h)).1
  · rintro _ rfl
    exact ⟨rfl, by simp⟩
  · rintro s c start p s' hs hstart
    obtain ⟨rfl, rfl⟩ := Prod.mk.inj (Option.some.inj hstart)
    refine ⟨hs, fun d _ => rfl,
      (safe_plannedThrough start hs).bind hs (fun gstate u hu hown => ?_) ?_⟩
    · refine Outline.safe_ofExcept (x := .ok (start, gstate)) (Outline.stable_const _) hu ?_
      intro x hx
      obtain rfl := Except.ok.inj hx
      exact hown gstate rfl
    · exact fun e u hu _ =>
        Outline.safe_ofExcept (x := .error e) (Outline.stable_const _) hu fun _ hx => by cases hx
  · rintro s c (e | x) hs hown
    · exact ⟨hs, fun d _ => rfl⟩
    · refine ⟨⟨hs.1, fun y hy => ?_⟩, fun d _ => rfl⟩
      rcases List.mem_append.1 hy with hy | hy
      · exact hs.2 y hy
      · obtain rfl := List.mem_singleton.1 hy
        exact hown y rfl
  · rintro s e
    exact e.elim

/-! ### Two threads -/

/-- A host whose lookups of `parquet_scan` succeed or throw, as picked. -/
def pickedHost : ScanHost where
  Choice := Bool
  answer
    | _, .inl .initGlobal, _ => some (.ok ())
    | _, .inr .parquetFunction, true => some (.ok ())
    | _, .inr .parquetFunction, false => some (.error (ioException "parquet_scan is not there"))
    | _, .inr (.bindBegins _), _ => some (.ok ())
    | _, .inr .bindEnds, _ => some (.ok ())
    | _, _, _ => none

/-- A planned scan whose plan is one token. -/
def tokenStart (table_name : String) : PlannedStart where
  bind_data := { catalog_name := "c", schema_name := "s", table_name, storage_location := "",
                 credentials := { endpoint := "", token := "" }, scan_plan_endpoint := "" }
  plan := { plan_tasks := [table_name] }
  input := { column_ids := [] }

/-- Thread 0 leaves a list behind where its lookup throws; then it and thread 1 start a scan each,
one step after the other. -/
def twoStarts : List (scanStarts pickedHost).Label :=
  [.start 0 (tokenStart "stale"), .op 0 true, .op 0 false, .finish 0,
    .start 0 (tokenStart "t"), .start 1 (tokenStart "u")] ++
  (List.replicate 6 [.op 0 true, .op 1 true]).flatten ++ [.finish 1, .finish 0]

theorem every_scan_gets_its_own_files_twoStarts : ∃ cfg : (scanStarts pickedHost).Config,
    cfg.state.started.map (fun x => x.1.bind_data.table_name) = ["u", "t"] ∧
      cfg.state.assertion_failed = false ∧ ∀ x ∈ cfg.state.started, OwnFiles x := by
  have h : ((scanStarts pickedHost).replay (fun _ _ => true) twoStarts ⟨{}, fun _ => none⟩).map
      (fun cfg : (scanStarts pickedHost).Config =>
        cfg.state.started.map fun x => x.1.bind_data.table_name) = some ["u", "t"] := by
    decide +kernel
  obtain ⟨cfg, hcfg, hstarted⟩ := Option.map_eq_some_iff.1 h
  have hreach : (scanStarts pickedHost).system.Reachable cfg :=
    ⟨_, ⟨rfl, rfl⟩, Pool.run_of_replay (fun _ _ _ => trivial) hcfg⟩
  exact ⟨cfg, hstarted, every_scan_gets_its_own_files pickedHost hreach⟩

end UnityCatalog
