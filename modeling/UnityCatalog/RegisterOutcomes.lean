import UnityCatalog.TableSet

/-!
# What a create reports

A register request has many outcomes: it is accepted, it is refused, it is applied and then answered
with an error or not at all, and the HTTP layer may deliver it twice, so that the answer is the
second delivery's. `RegisterTable` settles an unclear outcome by loading the name. Here every
operation of a create may be answered anything; only what Unity Catalog says of the table is true,
and it does not drop the table in between. `RegisterCase.reports_iff` says when the create reports
what it holds.
-/

namespace UnityCatalog

open Effectful Yyjson

/-- The table Unity Catalog lists under the name. -/
structure UCEntry where
  id : String
  location : String
  deriving DecidableEq

/-- One create: the catalog it is made in and the statement. -/
structure RegisterCase where
  catalog : CreatingCatalog
  info : BoundCreateTableInfo

/-- What Unity Catalog has, and what the create was told. -/
structure OutcomeState where
  /-- what is listed under the name -/
  uc : Option UCEntry := none
  /-- the request whose answer the create waits for -/
  request : Option HttpRequest := none
  /-- the id the table was staged under -/
  staged : String := ""
  /-- the register request has had its outcome -/
  answered : Bool := false
  /-- which was the answer that the table exists already -/
  taken : Bool := false
  /-- since then a load of the name has failed, or said something else -/
  denied : Bool := false

/-- What may come of an operation: an answer, and what Unity Catalog lists by then. -/
structure OutcomeChoice where
  ans : (op : Op) → Except Exception op.Ans
  uc : Option UCEntry

/-- The response says that the table exists already. -/
def HttpResponse.saysTaken (resp : HttpResponse) : Bool :=
  resp.accepted 409 && match checkError (read resp.body) with
    | .ok error => error.isAlreadyExists
    | .error _ => false

namespace RegisterCase

variable (E : RegisterCase)

/-- The location the statement names. -/
def location : String := (E.info.location.getD none).getD ""

/-- Where the table is loaded. -/
def loadUrl : String :=
  tableUrl E.catalog.credentials E.catalog.catalog_name E.catalog.schema_name E.info.table_name

/-- Where it is registered. -/
def registerUrl : String :=
  schemaUrl E.catalog.credentials E.catalog.catalog_name E.catalog.schema_name ++ "/tables"

/-- Where it is staged. -/
def stagingUrl : String :=
  schemaUrl E.catalog.credentials E.catalog.catalog_name E.catalog.schema_name ++ "/staging-tables"

/-- What `LoadTable` makes of a response. -/
def loadOutcome (resp : HttpResponse) : Except Exception UCAPICommitsResult :=
  resp.decoded E.loadUrl
    (decodeLoadTable E.catalog.catalog_name E.catalog.schema_name E.info.table_name)

/-- What `CreateTable` makes of a response. -/
def registerOutcome (table : UCAPICommittedTable) (resp : HttpResponse) : Except Exception Unit :=
  resp.tableCreated E.catalog.catalog_name E.catalog.schema_name table E.registerUrl

/-- What `CreateStagingTable` makes of a response. -/
def stagingOutcome (resp : HttpResponse) : Except Exception UCAPIStagingTable :=
  (checkResponse E.stagingUrl 409 (.ok resp)).bind (decodeCreateStagingTable E.catalog.realText
    E.catalog.catalog_name E.catalog.schema_name E.info.table_name E.stagingUrl)

/-- What is loaded is this create's table: the one it was staged as, or the one at the location. -/
def claims (s : OutcomeState) (result : UCAPICommitsResult) : Bool :=
  match E.info.location with
  | some _ => comparableLocation result.location == comparableLocation E.location
  | none => result.table_uuid == s.staged

/-- What is listed is this create's table. -/
def isOurs (s : OutcomeState) (entry : UCEntry) : Bool :=
  match E.info.location with
  | some _ => comparableLocation entry.location == comparableLocation E.location
  | none => entry.id == s.staged

/-- Unity Catalog lists this create's table under the name. -/
def listsOurs (s : OutcomeState) : Bool := s.uc.any (E.isOurs s)

/-- What is not the create's table, or not said at all, denies it. -/
def deny (s : OutcomeState) : OutcomeState :=
  { s with request := none, denied := s.denied || s.answered }

/-- An answer to a load: it says that the table is the create's only if that is so. -/
def receiveLoad (s : OutcomeState) : Except Exception UCAPICommitsResult → Option OutcomeState
  | .ok result =>
    if E.claims s result then
      if E.listsOurs s then some { s with request := none } else none
    else some (deny s)
  | .error _ => some (deny s)

/-- The outcome of the register request: it says that the table is created only if that is so. A
connection that is dropped is no interrupt and no error of the catalog's own. -/
def receiveRegister (s : OutcomeState) (table : UCAPICommittedTable) :
    Except Exception HttpResponse → Option OutcomeState
  | .ok resp =>
    match E.registerOutcome table resp with
    | .ok _ =>
      if E.listsOurs s then some { s with request := none, answered := true } else none
    | .error _ =>
      some { s with request := none, answered := true, taken := resp.saysTaken }
  | .error e =>
    if e.type = .interrupt ∨ e.type = .catalog then none
    else some { s with request := none, answered := true }

/-- What a request's answer leaves behind. -/
def receive (s : OutcomeState) (req : HttpRequest) (x : Except Exception HttpResponse) :
    Option OutcomeState :=
  match req.body with
  | .stageTable _ =>
    match x.bind E.stagingOutcome with
    | .ok staging => some { s with request := none, staged := staging.table_id }
    | .error _ => some { s with request := none }
  | .registerTable table _ => E.receiveRegister s table x
  | _ =>
    if req.url = E.loadUrl then E.receiveLoad s (x.bind E.loadOutcome)
    else some { s with request := none }

/-- What an operation's answer leaves behind. The httpfs extension stays loaded, and the set's own
lock and flag do not fail. -/
def reply (s : OutcomeState) :
    (op : Op) → Except Exception op.Ans → Option (Except Exception op.Ans × OutcomeState)
  | .ensureHttpfs, x => some (if s.answered then .ok () else x, s)
  | .issue req, .ok a => some (.ok a, { s with request := some req })
  | .issue req, .error e =>
    some (.error e, if req.url = E.loadUrl then deny s else s)
  | .answer, x => s.request.bind fun req => (E.receive s req x).map fun s => (x, s)
  | .lockLoad, _ => some (.ok (), s)
  | .unlockLoad, _ => some (.ok (), s)
  | .setLoaded _, _ => some (.ok (), s)
  | _, x => some (x, s)

/-- One create, with anything that may come of its operations. -/
def outcomes : World Client Exception where
  Ctx := Unit
  State := OutcomeState
  Choice := OutcomeChoice
  answer _ s op ch :=
    if s.uc = none ∨ ch.uc = s.uc then E.reply { s with uc := ch.uc } op (ch.ans op) else none

/-- The create reports what Unity Catalog holds: if the register request had its outcome, Unity
Catalog lists the create's table, and no load of it said otherwise, it succeeds; and if it succeeds,
Unity Catalog lists the table. -/
def Reports (r : Except Exception Unit) (s : OutcomeState) : Prop :=
  (s.answered = true → E.listsOurs s = true → s.denied = false → r = .ok ()) ∧
    (r = .ok () → E.listsOurs s = true)

/-- The register request was answered that the table exists already, of the very table it had
created. -/
def Repeated (s : OutcomeState) : Prop :=
  s.taken = true ∧ E.listsOurs s = true ∧ s.denied = false

/-! ## What is not about the registration -/

/-- Nothing was staged or registered on the way; what is listed stays, and so does a denial. -/
structure Calm (s t : OutcomeState) : Prop where
  staged : t.staged = s.staged
  answered : t.answered = s.answered
  taken : t.taken = s.taken
  uc : s.uc = none ∨ t.uc = s.uc
  denied : s.denied = true → t.denied = true

/-- Nothing happens where nothing is done. -/
theorem Calm.refl (s : OutcomeState) : Calm s s := ⟨rfl, rfl, rfl, .inr rfl, id⟩

/-- Of two calm stretches, one after the other, the server has noticed nothing. -/
theorem Calm.trans {s t u : OutcomeState} (h : Calm s t) (h' : Calm t u) : Calm s u := by
  refine ⟨h'.staged.trans h.staged, h'.answered.trans h.answered, h'.taken.trans h.taken, ?_,
    fun hd => h'.denied (h.denied hd)⟩
  rcases h.uc with hn | heq
  · exact .inl hn
  · rcases h'.uc with hn | heq'
    · exact .inl (heq ▸ hn)
    · exact .inr (heq'.trans heq)

/-- To be denied stages and registers nothing. -/
theorem Calm.deny (s : OutcomeState) : Calm s (deny s) :=
  ⟨rfl, rfl, rfl, .inr rfl, fun h => by rw [RegisterCase.deny, h]; rfl⟩

/-- What the create's table is depends on its staging only. -/
theorem claims_congr {s t : OutcomeState} (h : t.staged = s.staged) (result : UCAPICommitsResult) :
    E.claims t result = E.claims s result := by
  rw [claims, claims, h]

/-- A table that is listed stays listed. -/
theorem Calm.listsOurs {s t : OutcomeState} (h : Calm s t) (hs : E.listsOurs s = true) :
    E.listsOurs t = true := by
  have hours : E.isOurs t = E.isOurs s := by
    funext entry
    rw [isOurs, isOurs, h.staged]
  rcases h.uc with hn | heq
  · rw [RegisterCase.listsOurs, hn] at hs
    cases hs
  · rw [RegisterCase.listsOurs, heq, hours]
    exact hs

end RegisterCase

/-- An operation that is no part of a request. -/
def Op.IsLocal : Op → Prop
  | .ensureHttpfs => False
  | .issue _ => False
  | .answer => False
  | _ => True

/-- Work on files does not reach the catalog. -/
theorem Op.OnFiles.isLocal {op : Op} (h : op.OnFiles) : op.IsLocal := by
  cases op <;> trivial

namespace RegisterCase

variable {E : RegisterCase} {s s' : OutcomeState}

/-- Where the environment has moved before it answers. -/
theorem calm_moved {uc : Option UCEntry} (h : s.uc = none ∨ uc = s.uc) : Calm s { s with uc } :=
  ⟨rfl, rfl, rfl, h, id⟩

/-- Which request is waited for is not about the registration. -/
theorem calm_request (req : Option HttpRequest) : Calm s { s with request := req } :=
  ⟨rfl, rfl, rfl, .inr rfl, id⟩

/-- Inversion for one operation. -/
theorem exec_op {op : Op} {r : Except Exception op.Ans}
    (h : (Prog.perform (F := Client) op).Exec (W := E.outcomes) () s r s') :
    ∃ uc x, (s.uc = none ∨ uc = s.uc) ∧ E.reply { s with uc } op x = some (r, s') := by
  obtain ⟨ch, hch⟩ := Prog.exec_perform.1 h
  simp only [outcomes] at hch
  split at hch
  · rename_i huc
    exact ⟨_, _, huc, hch⟩
  · cases hch

/-- What does not reach the catalog may be answered as it likes, and changes nothing there. -/
theorem reply_local {op : Op} (h : op.IsLocal) (x : Except Exception op.Ans) :
    ∃ y, E.reply s op x = some (y, s) := by
  cases op <;> first | exact ⟨_, rfl⟩ | exact absurd h not_false

/-- Operations that are no part of a request are not about the registration. -/
theorem calm_of_uses {α : Type} {p : Run α} {r : Except Exception α} (hp : p.Uses Op.IsLocal)
    (h : p.Exec (W := E.outcomes) () s r s') : Calm s s' := by
  refine Prog.Exec.frame (I := fun t : OutcomeState => Calm s t) hp ?_ h (Calm.refl s)
  intro t op ch x t' hop ht ha
  simp only [outcomes] at ha
  split at ha
  · rename_i huc
    obtain ⟨y, hy⟩ := reply_local (E := E) (s := { t with uc := ch.uc }) hop (ch.ans op)
    rw [hy] at ha
    obtain ⟨-, rfl⟩ := Prod.mk.inj (Option.some.inj ha)
    exact ht.trans (calm_moved huc)
  · cases ha

/-! ## Requests -/

/-- A request and what its caller makes of the response: it does not go out, or it is answered. -/
theorem exec_ask {α : Type} {req : HttpRequest} {f : HttpResponse → Except Exception α}
    {r : Except Exception α}
    (h : (ensureHttpfs.bind fun _ => (issue req).bind fun _ => answer.bind fun resp =>
      Prog.ofExcept (f resp)).Exec (W := E.outcomes) () s r s') :
    (∃ e, r = .error e ∧ Calm s s' ∧
      (s.answered = true → req.url = E.loadUrl → s'.denied = true)) ∨
    ∃ s₁ x, Calm s s₁ ∧ s₁.denied = s.denied ∧ E.receive s₁ req x = some s' ∧ r = x.bind f := by
  rcases Prog.exec_bind.1 h with ⟨_, s₁, h₁, h⟩ | ⟨e, h₁, rfl⟩
  · obtain ⟨uc₁, x₁, huc₁, hrep₁⟩ := exec_op h₁
    obtain ⟨-, rfl⟩ := Prod.mk.inj (Option.some.inj hrep₁)
    rcases Prog.exec_bind.1 h with ⟨_, s₂, h₂, h⟩ | ⟨e, h₂, rfl⟩
    · obtain ⟨uc₂, x₂, huc₂, hrep₂⟩ := exec_op h₂
      cases x₂ with
      | error e => cases (Prod.mk.inj (Option.some.inj hrep₂)).1
      | ok a =>
        obtain ⟨-, rfl⟩ := Prod.mk.inj (Option.some.inj hrep₂)
        -- the request is on the wire
        refine .inr ?_
        obtain ⟨y, h₃, rfl⟩ : ∃ y, answer.Exec (W := E.outcomes) ()
            { s with uc := uc₂, request := some req } y s' ∧ r = y.bind f := by
          rcases Prog.exec_bind.1 h with ⟨resp, s₃, h₃, h⟩ | ⟨e, h₃, rfl⟩
          · obtain ⟨rfl, rfl⟩ := Prog.exec_ofExcept.1 h
            exact ⟨.ok resp, h₃, rfl⟩
          · exact ⟨.error e, h₃, rfl⟩
        obtain ⟨uc₃, x₃, huc₃, hrep₃⟩ := exec_op h₃
        obtain ⟨s₄, hrec, heq⟩ := Option.map_eq_some_iff.1 hrep₃
        obtain ⟨rfl, rfl⟩ := Prod.mk.inj heq
        refine ⟨_, x₃, ?_, ?_, hrec, rfl⟩
        · exact (calm_moved huc₁).trans ((calm_moved huc₂).trans
            ((calm_request (some req)).trans (calm_moved huc₃)))
        · rfl
    · obtain ⟨uc₂, x₂, huc₂, hrep₂⟩ := exec_op h₂
      cases x₂ with
      | ok a => cases (Prod.mk.inj (Option.some.inj hrep₂)).1
      | error e =>
        obtain ⟨-, rfl⟩ := Prod.mk.inj (Option.some.inj hrep₂)
        refine .inl ⟨_, rfl, ?_, fun ha hurl => ?_⟩
        · refine (calm_moved huc₁).trans ((calm_moved huc₂).trans ?_)
          split
          · exact Calm.deny _
          · exact Calm.refl _
        · rw [if_pos hurl]
          show (s.denied || s.answered) = true
          rw [ha, Bool.or_true]
  · obtain ⟨uc₁, x₁, huc₁, hrep₁⟩ := exec_op h₁
    obtain ⟨hr, rfl⟩ := Prod.mk.inj (Option.some.inj hrep₁)
    refine .inl ⟨e, rfl, calm_moved huc₁, fun ha => ?_⟩
    rw [if_pos ha] at hr
    cases hr

/-- A request that neither stages nor registers is not about the registration. -/
theorem calm_receive {s₁ : OutcomeState} {req : HttpRequest} {x : Except Exception HttpResponse}
    (hbody : req.body.method = .get ∨ ∃ text, req.body = .text text)
    (h : E.receive s₁ req x = some s') : Calm s₁ s' := by
  have hother : (if req.url = E.loadUrl then E.receiveLoad s₁ (x.bind E.loadOutcome)
      else some { s₁ with request := none }) = some s' := by
    cases hb : req.body with
    | empty => rwa [receive, hb] at h
    | text t => rwa [receive, hb] at h
    | addCommit c => rwa [receive, hb] at h
    | registerTable table type =>
      rw [hb] at hbody
      rcases hbody with hm | ⟨t, ht⟩
      · cases hm
      · cases ht
    | stageTable name =>
      rw [hb] at hbody
      rcases hbody with hm | ⟨t, ht⟩
      · cases hm
      · cases ht
  split at hother
  · cases hx : x.bind E.loadOutcome with
    | error e =>
      rw [hx] at hother
      obtain rfl := Option.some.inj hother
      exact Calm.deny s₁
    | ok result =>
      rw [hx] at hother
      simp only [receiveLoad] at hother
      split at hother
      · split at hother
        · obtain rfl := Option.some.inj hother
          exact calm_request none
        · cases hother
      · obtain rfl := Option.some.inj hother
        exact Calm.deny s₁
  · obtain rfl := Option.some.inj hother
    exact calm_request none

/-- A program made of operations and requests that are not about the registration. -/
def Quiet (E : RegisterCase) {α : Type} (p : Run α) : Prop :=
  ∀ (s : OutcomeState) (r : Except Exception α) (s' : OutcomeState),
    p.Exec (W := E.outcomes) () s r s' → Calm s s'

section

variable {α β : Type}

/-- A program that does not reach the catalog is quiet. The induction is on the program. -/
theorem quiet_uses {p : Run α} (h : p.Uses Op.IsLocal) : E.Quiet p :=
  fun _ _ _ he => calm_of_uses h he

/-- One operation that does not reach the catalog is quiet. -/
theorem quiet_perform {op : Op} (h : op.IsLocal) : E.Quiet (Prog.perform (F := Client) op) :=
  quiet_uses (Prog.uses_perform h)

/-- Quiet programs one after the other are quiet. -/
theorem Quiet.bind {p : Run α} {f : α → Run β} (hp : E.Quiet p) (hf : ∀ a, E.Quiet (f a)) :
    E.Quiet (p.bind f) := by
  intro s r s' h
  rcases Prog.exec_bind.1 h with ⟨a, s₁, h₁, h₂⟩ | ⟨e, h₁, -⟩
  · exact (hp _ _ _ h₁).trans (hf a _ _ _ h₂)
  · exact hp _ _ _ h₁

/-- A quiet program with a quiet handler is quiet, after any error. -/
theorem Quiet.tryCatch {p : Run α} {f : Exception → Run α} (hp : E.Quiet p)
    (hf : ∀ e, E.Quiet (f e)) : E.Quiet (p.tryCatch f) := by
  intro s r s' h
  rcases Prog.exec_tryCatch.1 h with ⟨a, h₁, -⟩ | ⟨e, s₁, h₁, h₂⟩
  · exact hp _ _ _ h₁
  · exact (hp _ _ _ h₁).trans (hf e _ _ _ h₂)

/-- A question to the catalog is quiet: it is a GET, or a POST that is not the one which
registers. -/
theorem quiet_ask {req : HttpRequest} {f : HttpResponse → Except Exception α}
    (hbody : req.body.method = .get ∨ ∃ text, req.body = .text text) :
    E.Quiet (ensureHttpfs.bind fun _ => (issue req).bind fun _ => answer.bind fun resp =>
      Prog.ofExcept (f resp)) := by
  intro s r s' h
  rcases exec_ask h with ⟨e, -, hcalm, -⟩ | ⟨s₁, x, hcalm, -, hrec, -⟩
  · exact hcalm
  · exact hcalm.trans (calm_receive hbody hrec)

end

/-! ## The functions of a create -/

/-- Asking whether the name is there changes nothing. -/
theorem quiet_tableExists (catalog_name schema_name table_name : String)
    (credentials : UCCredentials) :
    E.Quiet (UCAPI.tableExists catalog_name schema_name table_name credentials) := by
  rw [UCAPI.tableExists_eq]
  exact quiet_ask (.inl rfl)

/-- Loading the name changes nothing. -/
theorem quiet_loadTable (catalog_name schema_name table_name : String)
    (credentials : UCCredentials) :
    E.Quiet (UCAPI.loadTable catalog_name schema_name table_name credentials) := by
  rw [UCAPI.loadTable_eq]
  exact quiet_ask (.inl rfl)

/-- An id is drawn without the catalog. -/
theorem quiet_randomUUID : E.Quiet randomUUID := quiet_perform trivial

/-- Options are set without the catalog. -/
theorem quiet_setOptions (options : List (String × String)) : E.Quiet (setOptions options) :=
  quiet_perform trivial

/-- Version 0 is written without the catalog. -/
theorem quiet_writeVersionZero (attach_info : AttachInfo) (table_name location : String) :
    E.Quiet (writeVersionZero attach_info table_name location) :=
  quiet_uses ((uses_writeVersionZero _ _ _).mono fun _ => Op.OnFiles.isLocal)

/-- Files are removed without the catalog. -/
theorem quiet_removeFiles (files : List String) : E.Quiet (removeFiles files) :=
  quiet_uses ((uses_removeFiles files).mono fun _ => Op.OnFiles.isLocal)

/-- The clean-up asks for the name and removes files. -/
theorem quiet_removeUnregisteredVersionZero (t : UCTableSet) (table_name location : String) :
    E.Quiet (removeUnregisteredVersionZero t table_name location) := by
  refine Quiet.tryCatch ?_ fun _ => quiet_uses trivial
  refine Quiet.bind ?_ fun listed => ?_
  · refine (quiet_tableExists _ _ _ _).bind fun found => ?_
    split
    · exact (quiet_loadTable _ _ _ _).bind fun loaded => quiet_uses trivial
    · exact quiet_uses trivial
  · split
    · exact quiet_uses trivial
    · exact Quiet.bind (quiet_perform trivial) fun files => quiet_removeFiles files

/-- The staging keys become a secret, with no request. -/
theorem quiet_stageCredentials (t : UCTableSet) (staging : UCAPIStagingTable) :
    E.Quiet (stageCredentials t staging) := by
  rw [stageCredentials]
  split
  · exact quiet_uses trivial
  · refine Quiet.bind ?_ fun credentials => quiet_perform trivial
    rw [UCAPI.getStagingTableCredentials, Prog.bind_eq, makeRequest_decode_eq]
    exact quiet_ask (.inl rfl)

/-- What a load leaves behind: a table claimed is listed, and anything else is a denial. -/
def Loaded (E : RegisterCase) (s : OutcomeState) : Except Exception UCAPICommitsResult → Prop
  | .ok result => if E.claims s result then E.listsOurs s = true
    else s.answered = true → s.denied = true
  | .error _ => s.answered = true → s.denied = true

/-- Where the registration was answered, what is not the create's table denies it. -/
theorem deny_denied (h : s.answered = true) : (deny s).denied = true := by
  rw [deny, h, Bool.or_true]

/-- A `LoadTable` of the name registers nothing, and says that the table is the create's only where
it is. -/
theorem exec_loadTable {r : Except Exception UCAPICommitsResult}
    (h : (UCAPI.loadTable E.catalog.catalog_name E.catalog.schema_name E.info.table_name
      E.catalog.credentials).Exec (W := E.outcomes) () s r s') : Calm s s' ∧ E.Loaded s' r := by
  rw [UCAPI.loadTable_eq] at h
  rcases exec_ask h with ⟨e, rfl, hcalm, hden⟩ | ⟨s₁, x, hcalm, -, hrec, rfl⟩
  · exact ⟨hcalm, fun ha => hden (hcalm.answered ▸ ha) rfl⟩
  · refine ⟨hcalm.trans (calm_receive (.inl rfl) hrec), ?_⟩
    have hrec : (if E.loadUrl = E.loadUrl then E.receiveLoad s₁ (x.bind E.loadOutcome) else
        some { s₁ with request := none }) = some s' := hrec
    rw [if_pos rfl] at hrec
    show E.Loaded s' (x.bind E.loadOutcome)
    cases hx : x.bind E.loadOutcome with
    | error e =>
      rw [hx] at hrec
      obtain rfl := Option.some.inj hrec
      exact fun ha => deny_denied ha
    | ok result =>
      rw [hx] at hrec
      simp only [receiveLoad] at hrec
      split at hrec
      · rename_i hclaims
        split at hrec
        · rename_i hours
          obtain rfl := Option.some.inj hrec
          show if E.claims s₁ result then _ else _
          rw [if_pos hclaims]
          exact hours
        · cases hrec
      · rename_i hclaims
        obtain rfl := Option.some.inj hrec
        show if E.claims s₁ result then _ else _
        rw [if_neg hclaims]
        exact fun ha => deny_denied ha

/-- What `CreateTable` throws for a response is no interrupt, and it is an error of the catalog's
own just where the response says that the table exists already. -/
theorem registerOutcome_error {table : UCAPICommittedTable} {resp : HttpResponse} {e : Exception}
    (h : E.registerOutcome table resp = .error e) :
    e.type ≠ .interrupt ∧ (e.type = .catalog ↔ resp.saysTaken = true) := by
  rw [registerOutcome, HttpResponse.tableCreated, checkResponse] at h
  rw [HttpResponse.saysTaken]
  split at h
  · rename_i haccepted
    rw [haccepted, Bool.true_and]
    simp only [Except.bind, decodeCreateTable] at h
    cases hc : checkError (read resp.body) with
    | error e' =>
      rw [hc] at h
      obtain rfl := Except.error.inj h
      obtain ⟨field, rfl⟩ := checkError_error hc
      exact ⟨by rintro ⟨⟩, by rintro ⟨⟩, by rintro ⟨⟩⟩
    | ok error =>
      rw [hc] at h
      simp only [bind, Except.bind] at h
      by_cases hhas : error.hasError = true
      · rw [if_pos hhas] at h
        by_cases hexists : error.isAlreadyExists = true
        · rw [if_pos hexists] at h
          obtain rfl := Except.error.inj h
          exact ⟨by rintro ⟨⟩, fun _ => hexists, fun _ => rfl⟩
        · rw [if_neg hexists] at h
          obtain rfl := Except.error.inj h
          exact ⟨by rintro ⟨⟩, by rintro ⟨⟩, fun h' => absurd h' hexists⟩
      · rw [if_neg hhas] at h
        have hcode : error.error_code = "" := by simpa [UCAPIError.hasError] using hhas
        have hexists : error.isAlreadyExists = false := by
          rw [UCAPIError.isAlreadyExists, hcode]
          rfl
        simp only [hexists]
        split at h
        · cases h
          exact ⟨by rintro ⟨⟩, by rintro ⟨⟩, by rintro ⟨⟩⟩
        · cases h
  · rename_i haccepted
    obtain rfl := Except.error.inj h
    rw [Bool.not_eq_true] at haccepted
    rw [haccepted]
    exact ⟨by rintro ⟨⟩, by rintro ⟨⟩, by rintro ⟨⟩⟩

/-- What the register call leaves behind. -/
def Registered (E : RegisterCase) (s : OutcomeState) : Except Exception Unit → Prop
  | .ok _ => E.listsOurs s = true ∧ s.taken = false
  | .error e => s.answered = false ∧ s.taken = false ∨
    s.answered = true ∧ e.type ≠ .interrupt ∧ (e.type = .catalog ↔ s.taken = true)

/-- The registering POST is taken or not, and its answer is one of those a server may give to it. -/
theorem exec_createTable {committed : UCAPICommittedTable} {table_type : String}
    {r : Except Exception Unit} (ha : s.answered = false) (ht : s.taken = false)
    (h : (UCAPI.createTable E.catalog.catalog_name E.catalog.schema_name committed table_type
      E.catalog.credentials).Exec (W := E.outcomes) () s r s') :
    s'.staged = s.staged ∧ E.Registered s' r := by
  rw [UCAPI.createTable_eq] at h
  rcases Prog.exec_bind.1 h with ⟨_, s₀, hw, hask⟩ | ⟨e, hw, rfl⟩
  · obtain ⟨-, rfl⟩ := Prog.exec_ofExcept.1 hw
    rcases exec_ask hask with ⟨e, rfl, hcalm, -⟩ | ⟨s₁, x, hcalm, -, hrec, rfl⟩
    · exact ⟨hcalm.staged, .inl ⟨hcalm.answered.trans ha, hcalm.taken.trans ht⟩⟩
    · have hrec : E.receiveRegister s₁ committed x = some s' := hrec
      rw [← hcalm.staged]
      cases x with
      | error e =>
        simp only [receiveRegister] at hrec
        split at hrec
        · cases hrec
        · rename_i htype
          obtain rfl := Option.some.inj hrec
          obtain ⟨hint, hcat⟩ := not_or.1 htype
          refine ⟨rfl, .inr ⟨rfl, hint, fun h => absurd h hcat, fun h => ?_⟩⟩
          rw [hcalm.taken.trans ht] at h
          cases h
      | ok resp =>
        show s'.staged = s₁.staged ∧ E.Registered s' (E.registerOutcome committed resp)
        simp only [receiveRegister] at hrec
        cases hx : E.registerOutcome committed resp with
        | ok _ =>
          rw [hx] at hrec
          simp only at hrec
          split at hrec
          · rename_i hours
            obtain rfl := Option.some.inj hrec
            exact ⟨rfl, hours, hcalm.taken.trans ht⟩
          · cases hrec
        | error e =>
          rw [hx] at hrec
          obtain rfl := Option.some.inj hrec
          exact ⟨rfl, .inr ⟨rfl, registerOutcome_error hx⟩⟩
  · obtain ⟨-, rfl⟩ := Prog.exec_ofExcept.1 hw
    exact ⟨rfl, .inl ⟨ha, ht⟩⟩

/-- How a registration can end: created, or with an error where its outcome was not ours to know, or
was denied, or was that the table exists already. -/
def Settles (E : RegisterCase) (r : Except Exception Unit) (s : OutcomeState) : Prop :=
  (r = .ok () ∧ E.listsOurs s = true ∧ s.taken = false) ∨
    ∃ e, r = .error e ∧ (s.answered = false ∧ s.taken = false ∨ s.denied = true ∨
      s.answered = true ∧ s.taken = true)

/-- What a program has settled stays so while nothing happens. -/
theorem Settles.calm {r : Except Exception Unit} (h : E.Settles r s) (hc : Calm s s') :
    E.Settles r s' := by
  rcases h with ⟨hr, hours, ht⟩ | ⟨e, hr, ⟨ha, ht⟩ | hd | ⟨ha, ht⟩⟩
  · exact .inl ⟨hr, hc.listsOurs E hours, hc.taken.trans ht⟩
  · exact .inr ⟨e, hr, .inl ⟨hc.answered.trans ha, hc.taken.trans ht⟩⟩
  · exact .inr ⟨e, hr, .inr (.inl (hc.denied hd))⟩
  · exact .inr ⟨e, hr, .inr (.inr ⟨hc.answered.trans ha, hc.taken.trans ht⟩)⟩

/-- **What a settled create reports.** -/
theorem Settles.reports {r : Except Exception Unit} (h : E.Settles r s) :
    E.Reports r s ↔ ¬ E.Repeated s := by
  rcases h with ⟨rfl, hours, ht⟩ | ⟨e, rfl, hend⟩
  · refine iff_of_true ⟨fun _ _ _ => rfl, fun _ => hours⟩ fun hrep => ?_
    rw [Repeated, ht] at hrep
    cases hrep.1
  · rcases hend with ⟨ha, ht⟩ | hd | ⟨ha, ht⟩
    · refine iff_of_true ⟨fun h => ?_, nofun⟩ fun hrep => ?_
      · rw [ha] at h
        cases h
      · rw [Repeated, ht] at hrep
        cases hrep.1
    · refine iff_of_true ⟨fun _ _ h => ?_, nofun⟩ fun hrep => ?_
      · rw [hd] at h
        cases h
      · rw [Repeated, hd] at hrep
        cases hrep.2.2
    · -- the one answer that is not looked behind
      refine ⟨fun hrep h => ?_, fun hrep => ⟨fun _ hours hd => absurd ⟨ht, hours, hd⟩ hrep, nofun⟩⟩
      exact nomatch hrep.1 ha h.2.1 h.2.2

/-- The load that settles an unclear outcome. -/
theorem exec_recovery {is_ours : UCAPICommitsResult → Bool} {r : Except Exception Bool}
    (hclaims : ∀ result, is_ours result = E.claims s result)
    (h : (((UCAPI.loadTable E.catalog.catalog_name E.catalog.schema_name E.info.table_name
      E.catalog.credentials).bind fun loaded => .ret (is_ours loaded)).tryCatch fun _ =>
        .ret false).Exec
      (W := E.outcomes) () s r s') :
    ∃ b, r = .ok b ∧ Calm s s' ∧
      if b then E.listsOurs s' = true else s'.answered = true → s'.denied = true := by
  rcases Prog.exec_tryCatch.1 h with ⟨b, hbody, rfl⟩ | ⟨e, s₁, hbody, rfl, rfl⟩
  · rcases Prog.exec_bind.1 hbody with ⟨result, s₁, hload, hb, rfl⟩ | ⟨e, -, hb⟩
    · obtain rfl := Except.ok.inj hb
      obtain ⟨hcalm, hloaded⟩ := exec_loadTable hload
      refine ⟨_, rfl, hcalm, ?_⟩
      rw [hclaims result, ← E.claims_congr hcalm.staged result]
      exact hloaded
    · cases hb
  · rcases Prog.exec_bind.1 hbody with ⟨result, s₂, -, hb, -⟩ | ⟨e', hload, -⟩
    · cases hb
    · obtain ⟨hcalm, hloaded⟩ := exec_loadTable hload
      exact ⟨false, rfl, hcalm, hloaded⟩

/-- Registering ends as `Settles` has it, in each of its ways out: answered, rethrown, or found to
be ours. -/
theorem exec_registerTable {committed : UCAPICommittedTable} {table_type : String}
    {is_ours : UCAPICommitsResult → Bool} {r : Except Exception Unit}
    (hname : committed.name = E.info.table_name)
    (hclaims : ∀ result, is_ours result = E.claims s result)
    (ha : s.answered = false) (ht : s.taken = false)
    (h : (registerTable E.catalog.toUCTableSet committed table_type is_ours).Exec (W := E.outcomes)
      () s r s') : E.Settles r s' := by
  rw [registerTable, Prog.tryCatch_eq', hname] at h
  rcases Prog.exec_tryCatch.1 h with ⟨a, hcreate, rfl⟩ | ⟨e, s₁, hcreate, hhandler⟩
  · exact .inl ⟨rfl, (exec_createTable ha ht hcreate).2⟩
  · obtain ⟨hstaged, hreg⟩ := exec_createTable ha ht hcreate
    by_cases htype : e.type = .interrupt ∨ e.type = .catalog
    · rw [if_pos htype] at hhandler
      obtain ⟨rfl, rfl⟩ := hhandler
      refine .inr ⟨e, rfl, ?_⟩
      rcases hreg with hno | ⟨ha', hint, hcat⟩
      · exact .inl hno
      · exact .inr (.inr ⟨ha', hcat.1 (htype.resolve_left hint)⟩)
    · rw [if_neg htype] at hhandler
      have ht' : s₁.taken = false := by
        rcases hreg with hno | ⟨-, -, hcat⟩
        · exact hno.2
        · exact Bool.eq_false_iff.2 fun h => htype (.inr (hcat.2 h))
      -- the name is loaded, to see whose table it is
      have hclaims' : ∀ result, is_ours result = E.claims s₁ result := by
        intro result
        exact (hclaims result).trans (E.claims_congr hstaged result).symm
      rcases Prog.exec_bind.1 hhandler with ⟨b, s₂, hrec, hthen⟩ | ⟨e', hrec, -⟩
      · obtain ⟨b', hb', hcalm, hb⟩ := exec_recovery hclaims' hrec
        obtain rfl := Except.ok.inj hb'
        cases b with
        | true =>
          obtain ⟨rfl, rfl⟩ := hthen
          exact .inl ⟨rfl, hb, hcalm.taken.trans ht'⟩
        | false =>
          obtain ⟨rfl, rfl⟩ := hthen
          refine .inr ⟨e, rfl, ?_⟩
          by_cases ha' : OutcomeState.answered s' = true
          · exact .inr (.inl (hb ha'))
          · exact .inl ⟨Bool.eq_false_iff.2 ha', hcalm.taken.trans ht'⟩
      · obtain ⟨b', hb', -⟩ := exec_recovery hclaims' hrec
        cases hb'

/-! ## The create -/

/-- Nothing has come of a register request yet. -/
def Fresh (s : OutcomeState) : Prop := s.answered = false ∧ s.taken = false

/-- Before anything was sent it stays so while nothing happens. -/
theorem Fresh.calm (h : Fresh s) (hc : Calm s s') : Fresh s' :=
  ⟨hc.answered.trans h.1, hc.taken.trans h.2⟩

/-- An error before anything was sent settles it: no table was taken. -/
theorem Fresh.settles (h : Fresh s) (e : Exception) : E.Settles (.error e) s :=
  .inr ⟨e, rfl, .inl h⟩

/-- Staging registers nothing, and tells the id the table will have. -/
theorem exec_createStagingTable {r : Except Exception UCAPIStagingTable} (hs : Fresh s)
    (h : (UCAPI.createStagingTable E.catalog.realText E.catalog.catalog_name E.catalog.schema_name
      E.info.table_name E.catalog.credentials).Exec (W := E.outcomes) () s r s') :
    Fresh s' ∧ ∀ staging, r = .ok staging → s'.staged = staging.table_id := by
  rw [UCAPI.createStagingTable, Prog.bind_eq, makeRequestResp_bind_eq] at h
  rcases exec_ask h with ⟨e, rfl, hcalm, -⟩ | ⟨s₁, x, hcalm, -, hrec, rfl⟩
  · exact ⟨hs.calm hcalm, nofun⟩
  · have hrec : (match x.bind E.stagingOutcome with
        | .ok staging => some { s₁ with request := none, staged := staging.table_id }
        | .error _ => some { s₁ with request := none }) = some s' := hrec
    show Fresh s' ∧ ∀ staging, x.bind E.stagingOutcome = .ok staging → s'.staged = staging.table_id
    cases hx : x.bind E.stagingOutcome with
    | error e =>
      rw [hx] at hrec
      obtain rfl := Option.some.inj hrec
      exact ⟨⟨hcalm.answered.trans hs.1, hcalm.taken.trans hs.2⟩, nofun⟩
    | ok staging =>
      rw [hx] at hrec
      obtain rfl := Option.some.inj hrec
      refine ⟨⟨hcalm.answered.trans hs.1, hcalm.taken.trans hs.2⟩, ?_⟩
      rintro _ ⟨⟩
      rfl

/-- How the create ends before it marks the set: settled, and it goes on only where it succeeded. -/
def Marks (E : RegisterCase) (r : Except Exception Bool) (s : OutcomeState) : Prop :=
  ∃ r', E.Settles r' s ∧ r = r'.map fun _ => true

/-- Before anything was sent there is nothing to mark. -/
theorem Fresh.marks (h : Fresh s) (e : Exception) : E.Marks (.error e) s :=
  ⟨.error e, h.settles e, rfl⟩

/-- A registration, after which the create returns or throws what came of it. -/
theorem exec_registered {p : Run Unit} {handler : Exception → Run Bool} {r : Except Exception Bool}
    (hp : ∀ r s', p.Exec (W := E.outcomes) () s r s' → E.Settles r s')
    (hh : ∀ e s r s', (handler e).Exec (W := E.outcomes) () s r s' → r = .error e ∧ Calm s s')
    (h : ((p.bind fun _ => .ret true).tryCatch handler).Exec (W := E.outcomes) () s r s') :
    E.Marks r s' := by
  rcases Prog.exec_tryCatch.1 h with ⟨b, hbody, rfl⟩ | ⟨e, s₁, hbody, hhandler⟩
  · rcases Prog.exec_bind.1 hbody with ⟨_, s₁, hreg, hb, rfl⟩ | ⟨e, -, hb⟩
    · obtain rfl := Except.ok.inj hb
      exact ⟨_, hp _ _ hreg, rfl⟩
    · cases hb
  · obtain ⟨rfl, hcalm⟩ := hh _ _ _ _ hhandler
    rcases Prog.exec_bind.1 hbody with ⟨_, s₂, -, hb, -⟩ | ⟨e', hreg, he⟩
    · cases hb
    · obtain rfl := Except.error.inj he
      exact ⟨_, (hp _ _ hreg).calm hcalm, rfl⟩

/-- The cleanup does not throw. -/
theorem exec_cleanup {t : UCTableSet} {table_name place : String} {e : Exception}
    {r : Except Exception Bool}
    (h : ((removeUnregisteredVersionZero t table_name place).bind fun _ => .throw e).Exec
      (W := E.outcomes) () s r s') : r = .error e ∧ Calm s s' := by
  rcases Prog.exec_bind.1 h with ⟨_, s₁, hclean, hthrow⟩ | ⟨e', hclean, rfl⟩
  · obtain ⟨rfl, rfl⟩ := hthrow
    exact ⟨rfl, quiet_removeUnregisteredVersionZero _ _ _ _ _ _ hclean⟩
  · rcases Prog.exec_tryCatch.1 hclean with ⟨_, -, hr⟩ | ⟨e'', s₁, -, hret⟩
    · cases hr
    · cases hret.1

/-- An external create ends as its registering does, with the clean-up after a failure. -/
theorem exec_createExternal {location : Option String} {r : Except Exception Bool}
    (hloc : E.info.location = some location) (hconflict : E.info.on_conflict ≠ .ignore)
    (hs : Fresh s)
    (h : (E.catalog.toUCTableSet.createExternal
      ⟨E.info.table_name, E.info.on_conflict, location⟩).Exec (W := E.outcomes) () s r s') :
    E.Marks r s' := by
  rw [UCTableSet.createExternal] at h
  split at h
  · obtain ⟨rfl, rfl⟩ := h
    exact hs.marks _
  · rcases Prog.exec_bind.1 h with ⟨place, s₀, hplace, hfind⟩ | ⟨e, hplace, rfl⟩
    · obtain ⟨hplaced, rfl⟩ := Prog.exec_ofExcept.1 hplace
      have hlocation : E.location = place := by
        rw [RegisterCase.location, hloc, show location = some place from
          externalLocation_ok hplaced.symm]
        rfl
      rcases Prog.exec_bind.1 hfind with ⟨found, s₁, hfound, hcreate⟩ | ⟨e, hfound, rfl⟩
      · have hs₁ := hs.calm (quiet_tableExists _ _ _ _ _ _ _ hfound)
        cases found with
        | true =>
          rw [if_pos rfl] at hcreate
          obtain ⟨rfl, rfl⟩ := hcreate
          exact hs₁.marks _
        | false =>
          rw [if_neg Bool.false_ne_true] at hcreate
          rcases Prog.exec_bind.1 hcreate with ⟨uuid, s₂, huuid, hwrite⟩ | ⟨e, huuid, rfl⟩
          · have hs₂ := hs₁.calm (quiet_randomUUID _ _ _ huuid)
            rcases Prog.exec_bind.1 hwrite with ⟨committed, s₃, hzero, hreg⟩ | ⟨e, hzero, rfl⟩
            · have hs₃ := hs₂.calm (quiet_writeVersionZero _ _ _ _ _ _ hzero)
              refine exec_registered (fun r s' hr => ?_) (fun e s r s' hr => ?_) hreg
              · refine exec_registerTable (hzero.returns (writeVersionZero_returns _ _ _)) ?_ hs₃.1
                  hs₃.2 hr
                intro result
                simp only [RegisterCase.claims, hloc, hlocation]
              · rw [if_neg (fun h => hconflict h.2.1)] at hr
                exact exec_cleanup hr
            · exact (hs₂.calm (quiet_writeVersionZero _ _ _ _ _ _ hzero)).marks _
          · exact (hs₁.calm (quiet_randomUUID _ _ _ huuid)).marks _
      · exact (hs.calm (quiet_tableExists _ _ _ _ _ _ _ hfound)).marks _
    · obtain ⟨-, rfl⟩ := Prog.exec_ofExcept.1 hplace
      exact hs.marks _

/-- A managed create ends as its registering does once the table is staged. -/
theorem exec_createStaged {staging : UCAPIStagingTable} {r : Except Exception Bool}
    (hloc : E.info.location = none) (hconflict : E.info.on_conflict ≠ .ignore) (hs : Fresh s)
    (hstaged : s.staged = staging.table_id)
    (h : (E.catalog.createStaged E.info staging).Exec (W := E.outcomes) () s r s') :
    E.Marks r s' := by
  rcases Prog.exec_bind.1 h with ⟨_, s₁, hcred, hset⟩ | ⟨e, hcred, rfl⟩
  · have hc₁ := quiet_stageCredentials _ _ _ _ _ hcred
    rcases Prog.exec_bind.1 hset with ⟨_, s₂, hopt, hwrite⟩ | ⟨e, hopt, rfl⟩
    · have hc₂ := hc₁.trans (quiet_setOptions _ _ _ _ hopt)
      rcases Prog.exec_bind.1 hwrite with ⟨committed, s₃, hzero, hreg⟩ | ⟨e, hzero, rfl⟩
      · have hc₃ := hc₂.trans (quiet_writeVersionZero _ _ _ _ _ _ hzero)
        have hs₃ := hs.calm hc₃
        refine exec_registered (fun r s' hr => ?_) (fun e s r s' hr => ?_) hreg
        · refine exec_registerTable (hzero.returns (writeVersionZero_returns _ _ _)) ?_ hs₃.1
            hs₃.2 hr
          intro result
          simp only [RegisterCase.claims, hloc, hc₃.staged, hstaged]
        · rw [if_neg (fun h => hconflict h.2.1)] at hr
          obtain ⟨rfl, rfl⟩ := hr
          exact ⟨rfl, Calm.refl _⟩
      · exact (hs.calm (hc₂.trans (quiet_writeVersionZero _ _ _ _ _ _ hzero))).marks _
    · exact (hs.calm (hc₁.trans (quiet_setOptions _ _ _ _ hopt))).marks _
  · exact (hs.calm (quiet_stageCredentials _ _ _ _ _ hcred)).marks _

/-- A managed create, its staging in front. -/
theorem exec_createManaged {r : Except Exception Bool} (hloc : E.info.location = none)
    (hconflict : E.info.on_conflict ≠ .ignore) (hs : Fresh s)
    (h : (E.catalog.createManaged E.info).Exec (W := E.outcomes) () s r s') : E.Marks r s' := by
  have staged : ∀ {r : Except Exception (Option UCAPIStagingTable)} {s₁ : OutcomeState},
      (E.catalog.stage E.info).Exec (W := E.outcomes) () s r s₁ →
      Fresh s₁ ∧ ∀ o, r = .ok o → ∃ staging, o = some staging ∧ s₁.staged = staging.table_id := by
    intro r s₁ h
    rcases Prog.exec_tryCatch.1 h with ⟨o, hbody, rfl⟩ | ⟨e, s₂, hbody, hhandler⟩
    · rcases Prog.exec_bind.1 hbody with ⟨staging, s₂, hstage, ho, rfl⟩ | ⟨e, -, ho⟩
      · obtain rfl := Except.ok.inj ho
        obtain ⟨hs₁, hid⟩ := exec_createStagingTable hs hstage
        refine ⟨hs₁, ?_⟩
        rintro _ ⟨⟩
        exact ⟨staging, rfl, hid staging rfl⟩
      · cases ho
    · rw [if_neg (fun h => hconflict h.2.1)] at hhandler
      obtain ⟨rfl, rfl⟩ := hhandler
      rcases Prog.exec_bind.1 hbody with ⟨_, s₃, -, ho, -⟩ | ⟨e', hstage, -⟩
      · cases ho
      · exact ⟨(exec_createStagingTable hs hstage).1, nofun⟩
  rcases Prog.exec_bind.1 h with ⟨o, s₁, hstage, hcreate⟩ | ⟨e, hstage, rfl⟩
  · obtain ⟨hs₁, hid⟩ := staged hstage
    obtain ⟨staging, rfl, hstaged⟩ := hid o rfl
    exact exec_createStaged hloc hconflict hs₁ hstaged hcreate
  · exact (staged hstage).1.marks _

/-- The set's own lock and flag. -/
def MarksSet (op : Op) : Prop := op = .lockLoad ∨ op = .unlockLoad ∨ op = .setLoaded false

/-- What marks the set is answered, and changes only the mark. -/
theorem exec_marksSet {op : Op} {r : Except Exception op.Ans} (hop : MarksSet op)
    (h : (Prog.perform (F := Client) op).Exec (W := E.outcomes) () s r s') :
    (∃ a, r = .ok a) ∧ Calm s s' := by
  obtain ⟨uc, x, huc, hrep⟩ := exec_op h
  rcases hop with rfl | rfl | rfl
  all_goals
    obtain ⟨rfl, rfl⟩ := Prod.mk.inj (Option.some.inj hrep)
    exact ⟨⟨_, rfl⟩, calm_moved huc⟩

/-- The set is marked, and nothing else happens. -/
theorem exec_markNeedsReload {r : Except Exception Unit}
    (h : markNeedsReload.Exec (W := E.outcomes) () s r s') : r = .ok () ∧ Calm s s' := by
  have hset : ∀ {r : Except Exception Unit} {s s' : OutcomeState},
      ((setLoaded false).tryCatch fun e => unlockLoad.bind fun _ => .throw e).Exec
        (W := E.outcomes) () s r s' → (∃ a, r = .ok a) ∧ Calm s s' := by
    intro r s s' h
    rcases Prog.exec_tryCatch.1 h with ⟨a, hset, rfl⟩ | ⟨e, s₃, hset, -⟩
    · exact exec_marksSet (.inr (.inr rfl)) hset
    · obtain ⟨⟨_, he⟩, -⟩ := exec_marksSet (.inr (.inr rfl)) hset
      cases he
  rcases Prog.exec_bind.1 h with ⟨_, s₁, hlock, hbody⟩ | ⟨e, hlock, rfl⟩
  · have hc₁ := (exec_marksSet (.inl rfl) hlock).2
    rcases Prog.exec_bind.1 hbody with ⟨a, s₂, hmark, hrest⟩ | ⟨e, hmark, rfl⟩
    · have hc₂ := (hset hmark).2
      rcases Prog.exec_bind.1 hrest with ⟨_, s₃, hunlock, hr, rfl⟩ | ⟨e, hunlock, rfl⟩
      · exact ⟨hr, hc₁.trans (hc₂.trans (exec_marksSet (.inr (.inl rfl)) hunlock).2)⟩
      · obtain ⟨⟨_, he⟩, -⟩ := exec_marksSet (.inr (.inl rfl)) hunlock
        cases he
    · obtain ⟨⟨_, he⟩, -⟩ := hset hmark
      cases he
  · obtain ⟨⟨_, he⟩, -⟩ := exec_marksSet (.inl rfl) hlock
    cases he

/-- **A create ends settled.** -/
theorem exec_createTable_settles {r : Except Exception Unit}
    (hconflict : E.info.on_conflict ≠ .ignore) (hs : Fresh s)
    (h : (E.catalog.createTable E.info).Exec (W := E.outcomes) () s r s') : E.Settles r s' := by
  have unmarked : ∀ {r : Except Exception Bool} {s₁ : OutcomeState},
      (E.catalog.createTableUnmarked E.info).Exec (W := E.outcomes) () s r s₁ → E.Marks r s₁ := by
    intro r s₁ h
    rw [CreatingCatalog.createTableUnmarked] at h
    cases hloc : E.info.location with
    | some location =>
      rw [hloc] at h
      exact exec_createExternal hloc hconflict hs h
    | none =>
      rw [hloc] at h
      simp only at h
      split at h
      · obtain ⟨rfl, rfl⟩ := h
        exact hs.marks _
      · exact exec_createManaged hloc hconflict hs h
  rcases Prog.exec_bind.1 h with ⟨b, s₁, hcreate, hmark⟩ | ⟨e, hcreate, rfl⟩
  · obtain ⟨r', hr', hb⟩ := unmarked hcreate
    cases r' with
    | error e => cases hb
    | ok _ =>
      obtain rfl := Except.ok.inj hb
      obtain ⟨rfl, hcalm⟩ := exec_markNeedsReload hmark
      exact hr'.calm hcalm
  · obtain ⟨r', hr', hb⟩ := unmarked hcreate
    cases r' with
    | error e' =>
      obtain rfl := Except.error.inj hb
      exact hr'
    | ok _ => cases hb

/-- **When a create reports what Unity Catalog holds.** Of every run without IF NOT EXISTS: it does
just where the register request is not answered that the table exists already while Unity Catalog
lists the create's own table and no load of it says otherwise. -/
theorem reports_iff (hconflict : E.info.on_conflict ≠ .ignore) {listed : Option UCEntry}
    {r : Except Exception Unit}
    (h : (E.catalog.schemaCreateTable E.info).Exec (W := E.outcomes) () { uc := listed } r s') :
    E.Reports r s' ↔ ¬ E.Repeated s' := by
  refine Settles.reports ?_
  have hs : Fresh { uc := listed } := ⟨rfl, rfl⟩
  rw [CreatingCatalog.schemaCreateTable] at h
  split at h
  · obtain ⟨rfl, rfl⟩ := h
    exact hs.settles _
  · exact exec_createTable_settles hconflict hs h

/-! ### Two outcomes -/

/-- A managed table `t`, created without IF NOT EXISTS. -/
def exampleCase : RegisterCase where
  catalog :=
    { catalog_name := "c", schema_name := "s", read_only := false
      credentials := { endpoint := "http://uc", token := "" }, attached_name := "uc" }
  info := { table_name := "t", on_conflict := .error }

/-- An operation goes well; a request is answered so, and a file says so. -/
def exampleAnswer (resp : HttpResponse) (text : String) (uc : Option UCEntry) : OutcomeChoice where
  ans
    | .answer => .ok resp
    | .readText _ => .ok text
    | .ensureHttpfs => .ok ()
    | .issue _ => .ok ()
    | .setOptions _ => .ok ()
    | .attachDatabase _ => .ok 0
    | .deltaCreateTable _ => .ok ()
    | .openRead _ => .ok 0
    | .detachDatabase _ => .ok ()
    | _ => .error (ioException "")
  uc := uc

/-- Unity Catalog stages the table, and version 0 is written and read back. -/
def exampleStaged : List OutcomeChoice :=
  let staging : HttpResponse := ⟨200, true, "", [],
    "\x7b\"table-id\":\"aa\",\"location\":\"file:///d\"\x7d"⟩
  let text := "\x7b\"commitInfo\":\x7b\"timestamp\":1\x7d\x7d\n" ++
    "\x7b\"metaData\":\x7b\"schemaString\":\"\x7b\x7d\"\x7d\x7d"
  List.replicate 9 (exampleAnswer staging text none)

/-- The request is registered, and the create goes on as it is answered. -/
def exampleRegistered (resp : HttpResponse) : List OutcomeChoice :=
  exampleStaged ++ List.replicate 6 (exampleAnswer resp "" (some ⟨"aa", "file:///d"⟩))

/-- The answer to a second delivery. -/
def alreadyExists : HttpResponse := ⟨409, false, "", [],
  "\x7b\"error\":\x7b\"message\":\"Table already exists: t\"," ++
    "\"type\":\"AlreadyExistsException\"\x7d\x7d"⟩

/-- What the run shows: whether it succeeded, whether the table is listed, and what was said. -/
def exampleShows (o : Except Exception Unit × OutcomeState) : List Bool :=
  [o.1.isOk, exampleCase.listsOurs o.2, o.2.answered, o.2.taken, o.2.denied]

/-- The request is accepted. -/
theorem reports_iff_accepted : ∃ r s',
    (exampleCase.catalog.schemaCreateTable exampleCase.info).Exec (W := exampleCase.outcomes) ()
      { uc := none } r s' ∧ exampleShows (r, s') = [true, true, true, false, false] ∧
    (exampleCase.Reports r s' ↔ ¬ exampleCase.Repeated s') := by
  have h : ((exampleCase.catalog.schemaCreateTable exampleCase.info).follow
      (W := exampleCase.outcomes) () (exampleRegistered ⟨200, true, "", [], ""⟩)
      ({ uc := none } : OutcomeState)).map exampleShows =
        some [true, true, true, false, false] := by
    decide +kernel
  obtain ⟨⟨r, s'⟩, hrun, hshows⟩ := Option.map_eq_some_iff.1 h
  have hexec := Prog.exec_of_follow _ hrun
  exact ⟨r, s', hexec, hshows, reports_iff (by decide) hexec⟩

/-- The request is delivered twice, and the second delivery is answered: the create fails, though
the table it staged is listed. -/
theorem repeated_is_not_reported : ¬ ∀ r s',
    (exampleCase.catalog.schemaCreateTable exampleCase.info).Exec (W := exampleCase.outcomes) ()
      { uc := none } r s' → exampleCase.Reports r s' := by
  intro hall
  have h : ((exampleCase.catalog.schemaCreateTable exampleCase.info).follow
      (W := exampleCase.outcomes) () (exampleRegistered alreadyExists)
      ({ uc := none } : OutcomeState)).map exampleShows =
        some [false, true, true, true, false] := by
    decide +kernel
  obtain ⟨⟨r, s'⟩, hrun, hshows⟩ := Option.map_eq_some_iff.1 h
  simp only [exampleShows, List.cons.injEq] at hshows
  obtain ⟨hok, hours, ha, -, hd, -⟩ := hshows
  have hr := (hall r s' (Prog.exec_of_follow _ hrun)).1 ha hours hd
  subst hr
  cases hok

end RegisterCase

end UnityCatalog
