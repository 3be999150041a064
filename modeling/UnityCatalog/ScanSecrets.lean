import UnityCatalog.LongestPrefix
import UnityCatalog.PlanningGate
import UnityCatalog.YyjsonText

/-!
# The secrets of a plan

`UCScanPlanInitGlobal` registers each of a plan's storage credentials as a temporary secret, named
by the table and the credential's place in the list, and nothing ever removes one. DuckDB takes the
secret whose scope is the longest prefix of a file's path. `carriesOwnKeys_iff` says when, after a
plan is registered, the secret taken for a file under the plan's prefixes is the plan's: when no
secret that it does not replace lies under one of its prefixes.
-/

namespace UnityCatalog

open Effectful Yyjson

/-! ## The secret manager -/

/-- `SecretManager::CreateSecret`: a secret of the same name is replaced. -/
def replaceSecret (secrets : List CreateSecretInput) (input : CreateSecretInput) :
    List CreateSecretInput :=
  input :: secrets.filter fun secret => identifier secret.name != identifier input.name

/-- A world with a secret manager. Everything else is as it likes. -/
structure SecretKeeping where
  world : World Client Exception
  /-- the S3 secrets there are -/
  secrets : world.State → List CreateSecretInput
  /-- a secret that is created is there and no other of its name -/
  create : ∀ c s input ch x s', world.answer c s (.createSecret input) ch = some (x, s') →
    (x = .ok () ∧ secrets s' = replaceSecret (secrets s) input) ∨
      (∃ e, x = .error e) ∧ secrets s' = secrets s
  /-- nothing else makes or removes secrets -/
  other : ∀ c s op ch x s', (∀ input, op ≠ .createSecret input) →
    world.answer c s op ch = some (x, s') → secrets s' = secrets s

/-! ## Scopes and keys -/

/-- The keys of each scope. -/
def scopedKeys (secrets : List CreateSecretInput) : Set (List Char × List (String × String)) :=
  {e | ∃ secret ∈ secrets, e = (secret.scope.toList, secret.options)}

namespace UCScanPlanBindData

/-- The secrets of a plan's credentials, the first at place `i`. -/
def planSecrets (bd : UCScanPlanBindData) : ℕ → List (String × List (String × String)) →
    List CreateSecretInput
  | _, [] => []
  | i, (pre, cfg) :: rest => bd.storageSecret i pre cfg :: bd.planSecrets (i + 1) rest

variable (bd : UCScanPlanBindData)

/-- The keys of a plan's prefixes. -/
def planKeys (plan : UCScanPlanResult) : Set (List Char × List (String × String)) :=
  scopedKeys (bd.planSecrets 0 plan.storage_credentials)

/-- Every secret that may be taken for a file under the plan's prefixes carries the keys of the
plan's longest prefix of it. -/
def CarriesOwnKeys (plan : UCScanPlanResult) (secrets : List CreateSecretInput) : Prop :=
  ∀ path, LongestPrefix.Covered (bd.planKeys plan) path →
    ∀ e, LongestPrefix.Best (scopedKeys secrets) path e →
      LongestPrefix.Filed (bd.planKeys plan) path e.2

/-- The plan writes no secret of that name. -/
def Spares (plan : UCScanPlanResult) (secret : CreateSecretInput) : Prop :=
  ∀ own ∈ bd.planSecrets 0 plan.storage_credentials, identifier secret.name ≠ identifier own.name

/-- No secret that the plan does not replace lies under one of the plan's prefixes, unless with the
keys that the plan has there. -/
def NothingLeftUnder (plan : UCScanPlanResult) (secrets : List CreateSecretInput) : Prop :=
  ∀ secret ∈ secrets, bd.Spares plan secret →
    LongestPrefix.Covered (bd.planKeys plan) secret.scope.toList →
    LongestPrefix.Filed (bd.planKeys plan) secret.scope.toList secret.options

end UCScanPlanBindData

/-! ## What registering leaves -/

section

variable {bd : UCScanPlanBindData} {i j : ℕ}

theorem identifier_toString (n : ℕ) : identifier (toString n) = (toString n).toList := by
  rw [identifier]
  conv_rhs => rw [← List.map_id (toString n).toList]
  refine List.map_congr_left fun c hc => ?_
  have hdigit := isDigit_of_mem_toString hc
  have hle : c.val ≤ 57 := by
    rw [Char.isDigit, Bool.and_eq_true, decide_eq_true_eq, decide_eq_true_eq] at hdigit
    exact hdigit.2
  have hupper : ¬ (c.val ≥ 65 ∧ c.val ≤ 90) := by
    rw [UInt32.le_iff_toNat_le] at hle
    rintro ⟨hA, -⟩
    exact absurd (UInt32.le_iff_toNat_le.1 hA |>.trans hle) (by decide)
  exact dif_neg hupper

theorem storageSecret_name (pre : String) (cfg : List (String × String)) :
    (bd.storageSecret i pre cfg).name = "__internal_uc_scanplan__" ++ bd.catalog_name ++ "__" ++
      bd.schema_name ++ "__" ++ bd.table_name ++ "__" ++ toString i :=
  rfl

/-- Places give different names. -/
theorem name_inj {pre pre' : String} {cfg cfg' : List (String × String)}
    (h : identifier (bd.storageSecret i pre cfg).name =
      identifier (bd.storageSecret j pre' cfg').name) : i = j := by
  rw [storageSecret_name, storageSecret_name, identifier_append, identifier_append _ (toString j)]
    at h
  have htail := List.append_cancel_left h
  rw [identifier_toString, identifier_toString] at htail
  exact toString_nat_inj htail

theorem mem_planSecrets {creds : List (String × List (String × String))}
    {secret : CreateSecretInput} (h : secret ∈ bd.planSecrets i creds) :
    ∃ j, i ≤ j ∧ ∃ pre cfg, secret = bd.storageSecret j pre cfg := by
  induction creds generalizing i with
  | nil => cases h
  | cons cred creds ih =>
    rw [UCScanPlanBindData.planSecrets] at h
    rcases List.mem_cons.1 h with rfl | h
    · exact ⟨i, le_rfl, _, _, rfl⟩
    · obtain ⟨j, hj, hsecret⟩ := ih h
      exact ⟨j, by omega, hsecret⟩

variable {S : SecretKeeping} {c : S.world.Ctx} {s s' : S.world.State}

/-- **What registering a plan leaves**: the plan's secrets, and those before that it does not
replace. -/
theorem exec_registerSecrets {creds : List (String × List (String × String))}
    (h : (bd.registerSecrets i creds).Exec c s (.ok ()) s') (secret : CreateSecretInput) :
    secret ∈ S.secrets s' ↔ secret ∈ bd.planSecrets i creds ∨
      secret ∈ S.secrets s ∧
        ∀ own ∈ bd.planSecrets i creds, identifier secret.name ≠ identifier own.name := by
  induction creds generalizing i s with
  | nil =>
    obtain ⟨-, rfl⟩ := h
    simp [UCScanPlanBindData.planSecrets]
  | cons cred creds ih =>
    obtain ⟨pre, cfg⟩ := cred
    rw [UCScanPlanBindData.registerSecrets] at h
    rcases Prog.exec_bind.1 h with ⟨u, s₁, hcreate, h⟩ | ⟨e, -, he⟩
    · obtain ⟨ch, ha⟩ := Prog.exec_perform.1 hcreate
      rcases S.create _ _ _ _ _ _ ha with ⟨-, hs₁⟩ | ⟨⟨e, he⟩, -⟩
      · rw [ih h, hs₁, UCScanPlanBindData.planSecrets, replaceSecret, List.mem_cons, List.mem_cons,
          List.forall_mem_cons, List.mem_filter, bne_iff_ne]
        -- a later place has another name
        have hlater : ∀ own ∈ bd.planSecrets (i + 1) creds,
            identifier (bd.storageSecret i pre cfg).name ≠ identifier own.name := by
          intro own hown hname
          obtain ⟨j, hj, pre', cfg', rfl⟩ := mem_planSecrets hown
          have := name_inj hname
          omega
        constructor
        · rintro (hmem | ⟨rfl | ⟨hmem, hne⟩, hspared⟩)
          · exact .inl (.inr hmem)
          · exact .inl (.inl rfl)
          · exact .inr ⟨hmem, hne, hspared⟩
        · rintro ((rfl | hmem) | ⟨hmem, hne, hspared⟩)
          · exact .inr ⟨.inl rfl, hlater⟩
          · exact .inl hmem
          · exact .inr ⟨.inr ⟨hmem, hne⟩, hspared⟩
      · cases he
    · cases he

/-- **A registered plan's files are read with its keys** exactly if nothing else was left under its
prefixes. -/
theorem carriesOwnKeys_iff_of_registered {plan : UCScanPlanResult}
    (h : (bd.registerSecrets 0 plan.storage_credentials).Exec c s (.ok ()) s') :
    bd.CarriesOwnKeys plan (S.secrets s') ↔ bd.NothingLeftUnder plan (S.secrets s) := by
  have hsplit : scopedKeys (S.secrets s') = bd.planKeys plan ∪
      {e | ∃ secret ∈ S.secrets s, bd.Spares plan secret ∧
        e = (secret.scope.toList, secret.options)} := by
    ext e
    constructor
    · rintro ⟨secret, hmem, rfl⟩
      rcases (exec_registerSecrets h secret).1 hmem with hown | ⟨hmem, hspared⟩
      · exact .inl ⟨secret, hown, rfl⟩
      · exact .inr ⟨secret, hmem, hspared, rfl⟩
    · rintro (⟨secret, hown, rfl⟩ | ⟨secret, hmem, hspared, rfl⟩)
      · exact ⟨secret, (exec_registerSecrets h secret).2 (.inl hown), rfl⟩
      · exact ⟨secret, (exec_registerSecrets h secret).2 (.inr ⟨hmem, hspared⟩), rfl⟩
  rw [UCScanPlanBindData.CarriesOwnKeys, hsplit]
  refine LongestPrefix.agrees_iff.trans ?_
  constructor
  · intro hall secret hmem hspared hcovered
    exact hall _ ⟨secret, hmem, hspared, rfl⟩ hcovered
  · rintro hall e ⟨secret, hmem, hspared, rfl⟩ hcovered
    exact hall secret hmem hspared hcovered

end

/-! ## Scans -/

variable {S : SecretKeeping} {c : S.world.Ctx} {s s' : S.world.State} {bd : UCScanPlanBindData}
  {input : TableFunctionInitInput}

/-- What makes no secret keeps the secrets. -/
theorem secrets_of_uses {α : Type} {p : Run α} {r : Except Exception α}
    (hp : p.Uses fun op : Op => ∀ input, op ≠ .createSecret input) (h : p.Exec c s r s') :
    S.secrets s' = S.secrets s := by
  refine Prog.Exec.frame (I := fun s₁ => S.secrets s₁ = S.secrets s) hp ?_ h rfl
  intro s₁ op ch x s₂ hop hs ha
  rw [S.other _ _ _ _ _ _ hop ha, hs]

theorem uses_markScanPlanAvailable :
    markScanPlanAvailable.Uses fun op : Op => ∀ input, op ≠ .createSecret input := by
  rw [markScanPlanAvailable]
  exact Prog.Uses.bind (Prog.uses_perform nofun) fun _ => trivial

/-- A scan that tells a plan has registered it, on the secrets there were. -/
theorem exec_ucScanPlanInitGlobalTelling {gstate : UCScanPlanGlobalState} {plan : UCScanPlanResult}
    (h : (ucScanPlanInitGlobalTelling bd input).Exec c s (.ok (gstate, some plan)) s') :
    ∃ s₁ s₂, S.secrets s₁ = S.secrets s ∧
      (bd.registerSecrets 0 plan.storage_credentials).Exec c s₁ (.ok ()) s₂ ∧
        S.secrets s' = S.secrets s₂ := by
  rw [ucScanPlanInitGlobalTelling] at h
  rcases Prog.exec_bind.1 h with ⟨x, s₀, hplan, h⟩ | ⟨e, -, he⟩
  · obtain ⟨x, hx, hplan⟩ := Prog.exec_attempt.1 hplan
    obtain rfl := Except.ok.inj hx
    have hs₀ : S.secrets s₀ = S.secrets s := by
      refine secrets_of_uses ?_ hplan
      refine ((uses_planTableScan ..).mono fun op hop => ?_).bind fun plan => ?_
      · rintro input rfl
        exact hop
      · split <;> trivial
    cases x with
    | error e =>
      -- the scan that is fallen back to tells no plan
      dsimp only at h
      split_ifs at h
      · cases h.1
      · rcases Prog.exec_bind.1 h with ⟨u, s₁, -, h⟩ | ⟨e, -, he⟩
        · rcases Prog.exec_bind.1 h with ⟨g, s₂, -, h⟩ | ⟨e, -, he⟩
          · cases h.1
          · cases he
        · cases he
      · rcases Prog.exec_bind.1 h with ⟨g, s₂, -, h⟩ | ⟨e, -, he⟩
        · cases h.1
        · cases he
    | ok plan' =>
      have hplanned : ∃ s₁, S.secrets s₁ = S.secrets s ∧
          ((bd.planned plan' input).bind fun gstate => .ret (gstate, some plan')).Exec c s₁
            (.ok (gstate, some plan)) s' := by
        dsimp only at h
        split_ifs at h
        · rcases Prog.exec_bind.1 h with ⟨u, s₁, hmark, h⟩ | ⟨e, -, he⟩
          · refine ⟨s₁, ?_, h⟩
            rw [← hs₀]
            exact secrets_of_uses uses_markScanPlanAvailable hmark
          · cases he
        · exact ⟨s₀, hs₀, h⟩
      obtain ⟨s₁, hs₁, h⟩ := hplanned
      rcases Prog.exec_bind.1 h with ⟨g, s₂, hplanned, hret⟩ | ⟨e, -, he⟩
      · obtain ⟨heq, rfl⟩ := hret
        obtain ⟨-, hplan'⟩ := Prod.mk.inj (Except.ok.inj heq)
        obtain rfl := Option.some.inj hplan'
        rcases Prog.exec_bind.1 hplanned with ⟨u, s₂, hregister, hrest⟩ | ⟨e, -, he⟩
        · refine ⟨s₁, s₂, hs₁, hregister, secrets_of_uses ?_ hrest⟩
          refine (Prog.uses_ofExcept _).bind fun files =>
            (Prog.uses_perform (by rintro _ ⟨⟩)).bind fun _ => ?_
          exact (Prog.uses_perform (by rintro _ ⟨⟩)).bind fun _ => trivial
        · cases he
      · cases he
  · cases he

/-! ## Sessions -/

/-- A plan that was registered: whose, on which secrets, and those after the scan was started. -/
structure Registered where
  bind_data : UCScanPlanBindData
  plan : UCScanPlanResult
  before : List CreateSecretInput
  after : List CreateSecretInput

/-- A session: one call after the other, any of which may fail, among them planned scans of any
tables. What it registered is listed in order. -/
inductive Session (S : SecretKeeping) : S.world.State → List Registered → S.world.State → Prop
  | start (s : S.world.State) : Session S s [] s
  /-- any other call, a bind that refreshes the table's credentials included -/
  | call {s s₁ s₂ : S.world.State} {history : List Registered} {α : Type} {p : Run α}
      {c : S.world.Ctx} {r : Except Exception α} : Session S s history s₁ → p.Exec c s₁ r s₂ →
      Session S s history s₂
  /-- the start of a scan that registers a plan -/
  | scan {s s₁ s₂ : S.world.State} {history : List Registered} {c : S.world.Ctx}
      {bd : UCScanPlanBindData} {input : TableFunctionInitInput} {gstate : UCScanPlanGlobalState}
      {plan : UCScanPlanResult} : Session S s history s₁ →
      (ucScanPlanInitGlobalTelling bd input).Exec c s₁ (.ok (gstate, some plan)) s₂ →
      Session S s (history ++ [⟨bd, plan, S.secrets s₁, S.secrets s₂⟩]) s₂

/-- **Whatever a session did before**, a plan's files are read with its own keys exactly if no
secret that it does not replace lies under one of its prefixes when it is registered. -/
theorem Session.carriesOwnKeys_iff {S : SecretKeeping} {s s' : S.world.State}
    {history : List Registered} (h : Session S s history s') :
    ∀ x ∈ history, x.bind_data.CarriesOwnKeys x.plan x.after ↔
      x.bind_data.NothingLeftUnder x.plan x.before := by
  induction h with
  | start => simp
  | call _ _ ih => exact ih
  | scan _ hscan ih =>
    intro x hx
    rcases List.mem_append.1 hx with hx | hx
    · exact ih x hx
    · obtain rfl := List.mem_singleton.1 hx
      obtain ⟨s₁, s₂, hbefore, hregister, hafter⟩ := exec_ucScanPlanInitGlobalTelling hscan
      rw [hafter, ← hbefore]
      exact carriesOwnKeys_iff_of_registered hregister

/-- A session whose catalog answers one plan after the other. -/
def plannedSession : SecretKeeping where
  world := Prog.det (σ := List CreateSecretInput × List String) fun s op =>
    match op with
    | .createSecret input => (.ok (), replaceSecret s.1 input, s.2)
    | .answer => (.ok ⟨200, true, "", [], s.2.headD ""⟩, s.1, s.2.tail)
    | .ensureHttpfs | .issue _ | .bindParquet _ | .initGlobal => (.ok (), s)
    | .scanPlanGate f => (.ok (f {} 0).1, s)
    | _ => (.error (ioException "not asked"), s)
  secrets s := s.1
  create c s input ch x s' h := by
    obtain ⟨rfl, rfl⟩ := Prod.mk.inj (Option.some.inj h)
    exact .inl ⟨rfl, rfl⟩
  other c s op ch x s' hop h := by
    obtain ⟨-, rfl⟩ := Prod.mk.inj (Option.some.inj h)
    cases op <;> first | rfl | exact absurd rfl (hop _)

/-- A table under `s3://b/t`. -/
def plannedTable : UCScanPlanBindData where
  catalog_name := "c"
  schema_name := "s"
  table_name := "t"
  storage_location := "s3://b/t"
  credentials := { endpoint := "http://uc", token := "" }
  scan_plan_endpoint := "http://irc"

/-- A plan with a credential for the table and one for a directory of it. -/
def twoPrefixes (key nested_key : String) : UCScanPlanResult where
  status := .completed
  storage_credentials := [("s3://b/t/", [("s3.access-key-id", key)]),
    ("s3://b/t/p/", [("s3.access-key-id", nested_key)])]

/-- A plan with a credential for the table. -/
def onePrefix : UCScanPlanResult where
  status := .completed
  storage_credentials := [("s3://b/t/", [("s3.access-key-id", "new")])]

/-- Their responses. -/
def twoPrefixesText (key nested_key : String) : String :=
  String.ofList ("\x7b\"status\":\"completed\",\"storage-credentials\":[".toList ++
    "\x7b\"prefix\":\"s3://b/t/\",\"config\":".toList ++
    "\x7b\"s3.access-key-id\":\"".toList ++ key.toList ++ "\"\x7d\x7d,".toList ++
    "\x7b\"prefix\":\"s3://b/t/p/\",\"config\":".toList ++
    "\x7b\"s3.access-key-id\":\"".toList ++ nested_key.toList ++ "\"\x7d\x7d]\x7d".toList)

@[inherit_doc twoPrefixesText]
def onePrefixText : String :=
  String.ofList ("\x7b\"status\":\"completed\",\"storage-credentials\":[".toList ++
    "\x7b\"prefix\":\"s3://b/t/\",\"config\":".toList ++
    "\x7b\"s3.access-key-id\":\"new\"\x7d\x7d]\x7d".toList)

/-- What the response to a plan with these keys says. -/
def plannedRoot (storage_credentials : List (String × List (String × String))) : Val :=
  .obj [("status", .str "completed"), ("storage-credentials", .arr (storage_credentials.map fun p =>
    .obj [("prefix", .str p.1), ("config", .obj (p.2.map fun key => (key.1, .str key.2)))]))]

theorem twoPrefixesText_parse :
    parseScanPlanResponse (twoPrefixesText "old" "older") = .ok (twoPrefixes "old" "older") := by
  have hread : read (twoPrefixesText "old" "older") =
      some (plannedRoot (twoPrefixes "old" "older").storage_credentials) :=
    read_ofList (by decide +kernel)
  unfold parseScanPlanResponse
  rw [hread]
  rfl

theorem renewedText_parse :
    parseScanPlanResponse (twoPrefixesText "new" "newer") = .ok (twoPrefixes "new" "newer") := by
  have hread : read (twoPrefixesText "new" "newer") =
      some (plannedRoot (twoPrefixes "new" "newer").storage_credentials) :=
    read_ofList (by decide +kernel)
  unfold parseScanPlanResponse
  rw [hread]
  rfl

theorem onePrefixText_parse : parseScanPlanResponse onePrefixText = .ok onePrefix := by
  have hread : read onePrefixText = some (plannedRoot onePrefix.storage_credentials) :=
    read_ofList (by decide +kernel)
  unfold parseScanPlanResponse
  rw [hread]
  rfl

/-- The catalog's next plan is registered. -/
theorem exec_plannedSession {secrets secrets' : List CreateSecretInput} {text : String}
    {texts : List String} {plan : UCScanPlanResult} {gstate : UCScanPlanGlobalState}
    (hparse : parseScanPlanResponse text = .ok plan) (hdone : plan.status = .completed)
    (hplanned : (plannedTable.planned plan ⟨[], []⟩).Exec (W := plannedSession.world) ()
      (secrets, texts) (.ok gstate) (secrets', texts)) :
    (ucScanPlanInitGlobalTelling plannedTable ⟨[], []⟩).Exec (W := plannedSession.world) ()
      (secrets, text :: texts) (.ok (gstate, some plan)) (secrets', texts) := by
  have hrequest : (makeRequestResp plannedTable.target.planUrl plannedTable.target.credentials.token
      (planBody plannedTable.filter_json) statusInvalid).Exec (W := plannedSession.world) ()
      (secrets, text :: texts) (.ok ⟨200, true, "", [], text⟩) (secrets, texts) :=
    Prog.exec_det.2 rfl
  have hcompleted := exec_completedPlan_of_parse hrequest hparse hdone
  refine Prog.exec_bind.2 (.inl ⟨.ok plan, _, Prog.exec_attempt.2 ⟨_, rfl, hcompleted⟩, ?_⟩)
  exact Prog.exec_bind.2 (.inl ⟨gstate, _, hplanned, rfl, rfl⟩)

/-- The secret of a prefix at a place. -/
def plannedSecret (i : ℕ) (pre key : String) : CreateSecretInput :=
  plannedTable.storageSecret i pre [("s3.access-key-id", key)]

/-- The secrets after a plan with two prefixes. -/
def afterTwo (secrets : List CreateSecretInput) (key nested_key : String) :
    List CreateSecretInput :=
  replaceSecret (replaceSecret secrets (plannedSecret 0 "s3://b/t/" key))
    (plannedSecret 1 "s3://b/t/p/" nested_key)

theorem exec_twoPrefixes (secrets : List CreateSecretInput) (texts : List String)
    (key nested_key : String) :
    ∃ gstate, (plannedTable.planned (twoPrefixes key nested_key) ⟨[], []⟩).Exec
      (W := plannedSession.world) () (secrets, texts) (.ok gstate)
      (afterTwo secrets key nested_key, texts) :=
  ⟨_, Prog.exec_det.2 rfl⟩

theorem exec_onePrefix (secrets : List CreateSecretInput) :
    ∃ gstate, (plannedTable.planned onePrefix ⟨[], []⟩).Exec (W := plannedSession.world) ()
      (secrets, []) (.ok gstate) (replaceSecret secrets (plannedSecret 0 "s3://b/t/" "new"), []) :=
  ⟨_, Prog.exec_det.2 rfl⟩

/-- The second prefix of the first plan outlives it. -/
theorem older_in_afterTwo :
    plannedSecret 1 "s3://b/t/p/" "older" ∈ afterTwo [] "old" "older" :=
  List.mem_cons_self

theorem spares_older : plannedTable.Spares onePrefix (plannedSecret 1 "s3://b/t/p/" "older") := by
  intro own hown
  obtain rfl := List.mem_singleton.1 hown
  intro hname
  exact absurd (name_inj hname) (by decide)

/-- A plan for the table with fewer prefixes than the plan before leaves that plan's last secret:
the files under its prefix are read with the earlier plan's keys. -/
theorem earlier_keys_are_chosen :
    ¬ ∀ (S : SecretKeeping) (s s' : S.world.State) (history : List Registered),
      Session S s history s' →
        ∀ x ∈ history, x.bind_data.CarriesOwnKeys x.plan x.after := by
  intro h
  obtain ⟨g₁, h₁⟩ := exec_twoPrefixes [] [onePrefixText] "old" "older"
  obtain ⟨g₂, h₂⟩ := exec_onePrefix (afterTwo [] "old" "older")
  have hrun := (Session.start (S := plannedSession)
    ([], [twoPrefixesText "old" "older", onePrefixText])).scan
      (exec_plannedSession twoPrefixesText_parse rfl h₁)
  have hrun := hrun.scan (exec_plannedSession onePrefixText_parse rfl h₂)
  have hlast := (hrun.carriesOwnKeys_iff _ (List.mem_append_right _ (List.mem_singleton_self _))).1
    (h _ _ _ _ hrun _ (List.mem_append_right _ (List.mem_singleton_self _)))
  have hcovered : LongestPrefix.Covered (plannedTable.planKeys onePrefix) "s3://b/t/p/".toList :=
    ⟨_, ⟨_, List.mem_singleton_self _, rfl⟩, by decide⟩
  obtain ⟨e, hbest, hkeys⟩ := hlast _ older_in_afterTwo spares_older hcovered
  obtain ⟨own, hown, rfl⟩ := hbest.mem
  obtain rfl := List.mem_singleton.1 hown
  exact absurd hkeys (by decide)

/-- A plan with the same prefixes replaces all secrets of the plan before. -/
theorem not_spares_renewed {secret : CreateSecretInput} (h : secret ∈ afterTwo [] "old" "older") :
    ¬ plannedTable.Spares (twoPrefixes "new" "newer") secret := by
  intro hspares
  rcases List.mem_cons.1 h with rfl | h
  · exact hspares (plannedSecret 1 "s3://b/t/p/" "newer")
      (List.mem_cons_of_mem _ List.mem_cons_self) rfl
  · rcases List.mem_cons.1 (List.mem_filter.1 h).1 with rfl | h
    · exact hspares (plannedSecret 0 "s3://b/t/" "new") List.mem_cons_self rfl
    · cases (List.mem_filter.1 h).1

/-- A second plan with the first one's prefixes is read with its own keys, though the first plan's
secrets were there when it was registered. -/
theorem renewed_plan_own_keys :
    ∃ s', Session plannedSession
        ([], [twoPrefixesText "old" "older", twoPrefixesText "new" "newer"])
        [⟨plannedTable, twoPrefixes "old" "older", [], afterTwo [] "old" "older"⟩,
          ⟨plannedTable, twoPrefixes "new" "newer", afterTwo [] "old" "older",
            afterTwo (afterTwo [] "old" "older") "new" "newer"⟩] s' ∧
      plannedTable.CarriesOwnKeys (twoPrefixes "new" "newer")
        (afterTwo (afterTwo [] "old" "older") "new" "newer") := by
  obtain ⟨g₁, h₁⟩ := exec_twoPrefixes [] [twoPrefixesText "new" "newer"] "old" "older"
  obtain ⟨g₂, h₂⟩ := exec_twoPrefixes (afterTwo [] "old" "older") [] "new" "newer"
  have hrun := (Session.start (S := plannedSession)
    ([], [twoPrefixesText "old" "older", twoPrefixesText "new" "newer"])).scan
      (exec_plannedSession twoPrefixesText_parse rfl h₁)
  have hrun := hrun.scan (exec_plannedSession renewedText_parse rfl h₂)
  let renewed : Registered := ⟨plannedTable, twoPrefixes "new" "newer", afterTwo [] "old" "older",
    afterTwo (afterTwo [] "old" "older") "new" "newer"⟩
  refine ⟨_, hrun, (hrun.carriesOwnKeys_iff renewed ?_).2 ?_⟩
  · exact List.mem_append_right _ (List.mem_singleton_self _)
  · exact fun secret hsecret hspares => absurd hspares (not_spares_renewed hsecret)

end UnityCatalog
