import UnityCatalog.Footprints

/-!
# An attached catalog under many threads

The calls DuckDB makes on an attached catalog, each in a thread of its own, interleaved operation by
operation, with what a thread waits for at a mutex that another one holds. In every interleaving:

* no thread waits for ever: the threads waiting for each other's mutexes wait, at the end of the
  chain, for one that can go on, and every mutex is held by a thread that is still running
  (`no_deadlock`);
* every request goes below the catalog's endpoints with the catalog's token
  (`requests_keep_to_scope`);
* a read-only catalog changes nothing, but for what it lets the Delta extension do
  (`read_only_changes_nothing`).

That a mutex is waited for is all that is assumed of it, and of everything else only that it comes
to an end: it may answer anything, throw, and change what it likes.
-/

namespace UnityCatalog

open Effectful

/-! ## The functions of the catalog -/

/-- A function of the catalog that keeps to the scope, and takes only mutexes below level `n`. -/
abbrev CatalogRun.Orderly {α : Type} (s : Scope) (n : ℕ) (p : CatalogRun α) : Prop :=
  Prog.Orderly (catalogWithin s) catalogLocks CatalogLock.level n p

section

variable {s : Scope} {n : ℕ} {α : Type}

/-- What runs at one place of the catalog keeps the order among all: a place's locks have the levels
they have there. -/
theorem orderly_run {place : Place} {p : Run α} (hp : UnityCatalog.Run.Orderly s place n p) :
    CatalogRun.Orderly s n (place.run p) :=
  Prog.Orderly.left (Prog.Orderly.on hp)

/-- An operation of the catalog's own that takes no lock may stand anywhere. -/
theorem orderly_own {op : CatalogOp} (h : op.Within s) (huse : op.lockUse = .none) :
    CatalogRun.Orderly s n (own op) :=
  Prog.orderly_perform h huse

/-- The lock of the schema set is the highest: everything below it may be done while it is held. -/
theorem orderly_withSchemas {p : CatalogRun α} (hp : CatalogRun.Orderly s 4 p) :
    CatalogRun.Orderly s 5 (withSchemas p) :=
  Prog.orderly_bracket (l := CatalogLock.schemas) ⟨trivial, trivial⟩ rfl rfl
    (by simp [CatalogLock.level]) fun _ => hp

/-- Under the lock of a schema's entries only a table's own locks are taken. -/
theorem orderly_withEntries {schema : ℕ} {p : CatalogRun α} (hp : CatalogRun.Orderly s 2 p) :
    CatalogRun.Orderly s 3 (withEntries schema p) :=
  Prog.orderly_bracket (l := CatalogLock.entries schema) ⟨trivial, trivial⟩ rfl rfl
    (by simp [CatalogLock.level]) fun _ => hp

/-- Under the lock of a schema's functions no lock is taken. -/
theorem orderly_withFunctions {schema : ℕ} {p : CatalogRun α} (hp : CatalogRun.Orderly s 0 p) :
    CatalogRun.Orderly s 1 (withFunctions schema p) :=
  Prog.orderly_bracket (l := CatalogLock.functions schema) ⟨trivial, trivial⟩ rfl rfl
    (by simp [CatalogLock.level]) fun _ => hp

/-- A callback that keeps the order keeps it when it is called again and again. -/
theorem orderly_forEach {β : Type} {callback : β → CatalogRun Unit}
    (h : ∀ b, CatalogRun.Orderly s n (callback b)) (bs : List β) :
    CatalogRun.Orderly s n (forEach callback bs) := by
  induction bs with
  | nil => exact Prog.orderly_ret _
  | cons b bs ih => exact (h b).bind fun _ => ih

end

/-- The calls that a read-only catalog lets through although they write. -/
def CatalogCall.writes : CatalogCall → Bool
  | .commitExecute _ _ _ => true
  | .planInsert _ _ => true
  | .checkpointTable _ _ _ _ => true
  | _ => false

/-- What a call may ask for. -/
def AttachedCatalog.scope (t : AttachedCatalog) (call : CatalogCall) : Scope :=
  ⟨t.credentials, t.read_only && !call.writes⟩

namespace AttachedCatalog

variable {t : AttachedCatalog} {s : Scope} {txn : ℕ}

/-- A scope for the catalog: it forbids changes only where the catalog is read-only. -/
structure Within (s : Scope) (t : AttachedCatalog) : Prop where
  credentials : t.credentials = s.credentials
  read_only : s.read_only = true → t.read_only = true

/-- A table set is made with the catalog's own name and keys, so it keeps to the catalog's scope. -/
theorem Within.tableSet (h : t.Within s) (schema : UCSchemaEntry) :
    (t.tableSet schema).toUCTableSet.Within s :=
  ⟨h.credentials, h.read_only⟩

/-- A table's entry has them from its set. -/
theorem Within.tableInformation (h : t.Within s) (schema : UCSchemaEntry) (table : UCAPITable) :
    (t.tableInformation schema table).Within s :=
  ⟨h.credentials, h.read_only⟩

/-- A planned scan's target has them from the entry it was bound with. -/
theorem Within.target (h : t.Within s) (schema : UCSchemaEntry) (table : UCAPITable)
    (lookup_info : Option BoundAtClause) (filter_json : String) :
    (t.scanBindData schema table lookup_info filter_json).target.Within s :=
  ⟨h.credentials, congrArg UCCredentials.ircEndpoint h.credentials⟩

/-! ### The schema list -/

/-- Filling the schema set in makes entries, with no lock but the one held. -/
theorem orderly_addEntries (schemas : List UCAPISchema) :
    CatalogRun.Orderly s n (addEntries schemas) := by
  induction schemas with
  | nil => exact Prog.orderly_ret _
  | cons schema schemas ih =>
    rw [addEntries]
    split
    · exact Prog.orderly_throw _
    · exact Prog.Orderly.bind (orderly_own trivial rfl) fun _ => ih

/-- Listing the schemas is done under the set's lock; the requests in it take none. -/
theorem orderly_ensureLoaded (h : t.Within s) : CatalogRun.Orderly s 4 t.ensureLoaded := by
  refine Prog.Orderly.bind (orderly_own trivial rfl) fun loaded => ?_
  split
  · exact Prog.orderly_ret _
  · refine Prog.Orderly.bind (Prog.Orderly.bind ?_ fun schemas => ?_) fun _ =>
      orderly_own trivial rfl
    · rw [h.credentials]
      exact orderly_run (orderly_of_free (free_getSchemas _))
    · cases schemas with
      | some schemas => exact orderly_addEntries schemas
      | none => exact Prog.orderly_throw _

/-- A schema is looked up under the lock of the schema set, which is given back before its tables
are. -/
theorem orderly_getEntry (h : t.Within s) (name : String) :
    CatalogRun.Orderly s 5 (t.getEntry name) :=
  orderly_withSchemas ((orderly_ensureLoaded h).bind fun _ => orderly_own trivial rfl)

/-- A scan over the schemas calls back with the lock of the schema set held, from where only locks
below it are taken. -/
theorem orderly_scan (h : t.Within s) {callback : UCSchemaEntry → CatalogRun Unit}
    (hcallback : ∀ schema, CatalogRun.Orderly s 4 (callback schema)) :
    CatalogRun.Orderly s 5 (t.scan callback) := by
  refine orderly_withSchemas ((orderly_ensureLoaded h).bind fun _ => ?_)
  exact Prog.Orderly.bind (orderly_own trivial rfl) fun schemas => orderly_forEach hcallback schemas

/-- A lookup by name is one in the set, or the error that there is none. -/
theorem orderly_lookupSchema (h : t.Within s) (entry_name : String)
    (if_not_found : OnEntryNotFound) :
    CatalogRun.Orderly s 5 (t.lookupSchema entry_name if_not_found) := by
  refine (Prog.orderly_ofExcept _).bind fun name => (orderly_getEntry h name).bind fun entry => ?_
  split
  · exact Prog.orderly_throw _
  · exact Prog.orderly_ret _

/-! ### A schema's tables -/

/-- A table is looked up with the set's locks, and its version is asked for with the table's. -/
theorem orderly_getTable (h : t.Within s) (schema : UCSchemaEntry) (name : String)
    (at_clause : Option BoundAtClause) :
    CatalogRun.Orderly s 4 (t.getTable schema name at_clause txn) := by
  refine (orderly_run (UnityCatalog.orderly_ensureLoaded (h.tableSet schema))).bind fun _ => ?_
  refine (orderly_withEntries ?_).mono (by decide)
  refine Prog.Orderly.bind (orderly_own trivial rfl) fun table => ?_
  cases table with
  | none => exact Prog.orderly_ret _
  | some table =>
    refine Prog.Orderly.bind ?_ fun entry => Prog.orderly_ret _
    exact orderly_run (orderly_getVersion (h.tableInformation schema table) at_clause)

/-- A scan over the tables calls back with the entries' lock held; a callback keeps to the locks of
tables. -/
theorem orderly_scanTables (h : t.Within s) (schema : UCSchemaEntry)
    {callback : UCAPITable → CatalogRun Unit}
    (hcallback : ∀ table, CatalogRun.Orderly s 2 (callback table)) :
    CatalogRun.Orderly s 4 (t.scanTables schema callback) := by
  refine (orderly_run (UnityCatalog.orderly_ensureLoaded (h.tableSet schema))).bind fun _ => ?_
  refine (orderly_withEntries ?_).mono (by decide)
  exact Prog.Orderly.bind (orderly_own trivial rfl) fun tables => orderly_forEach hcallback tables

/-- A built-in function is made under the lock of the schema's functions. -/
theorem orderly_tryLoadBuiltInFunction (schema : UCSchemaEntry) (entry_name : String) :
    CatalogRun.Orderly s 1 (tryLoadBuiltInFunction schema entry_name) := by
  refine orderly_withFunctions (Prog.Orderly.bind (orderly_own trivial rfl) fun found => ?_)
  split
  · exact Prog.orderly_ret _
  · split
    · exact Prog.Orderly.bind (orderly_own trivial rfl) fun _ => Prog.orderly_ret _
    · exact Prog.orderly_ret _

/-- A database that is detached as the catalog is: only its table's mutex is taken. -/
theorem orderly_onDetachTables (schema : UCSchemaEntry) :
    CatalogRun.Orderly s 2 (t.onDetachTables schema txn) := by
  refine Prog.Orderly.bind (orderly_own trivial rfl) fun tables =>
    orderly_forEach (fun table => ?_) tables
  exact orderly_run (orderly_withAttachLock (le_refl 2) orderly_internalDetach)

/-- What asks for a table's Delta database attaches it first, under the table's own locks. -/
theorem orderly_withDelta (h : t.Within s) (schema : UCSchemaEntry) (table : UCAPITable)
    {p : AttachedDatabase → CatalogRun Unit} (hp : ∀ db, CatalogRun.Orderly s 2 (p db)) :
    CatalogRun.Orderly s 2 (t.withDelta schema table txn p) :=
  (orderly_run (orderly_attached (h.tableInformation schema table))).bind hp

/-- A checkpoint looks the table up and then works on its Delta database, with one of the catalog's
locks after the other. -/
theorem orderly_checkpointTable (h : t.Within s) (hwrites : s.read_only = false) (finished : Bool)
    (schema_name table_name : String) (force : Bool) :
    CatalogRun.Orderly s 5 (t.checkpointTable finished schema_name table_name force txn) := by
  rw [checkpointTable]
  split
  · exact Prog.orderly_ret _
  · refine (orderly_lookupSchema h schema_name .returnNull).bind fun schema => ?_
    cases schema with
    | none => exact Prog.orderly_throw _
    | some schema =>
      refine ((orderly_getTable h schema table_name none).mono (by decide)).bind fun entry => ?_
      cases entry with
      | none => exact Prog.orderly_throw _
      | some entry =>
        refine (orderly_withDelta h schema entry.1 fun db => ?_).mono (by decide)
        exact orderly_own hwrites rfl

/-! ### Calls -/

/-- **Every call keeps to its scope and takes its mutexes downwards.** -/
theorem orderly_program (t : AttachedCatalog) (txn : ℕ) (call : CatalogCall) :
    CatalogRun.Orderly (t.scope call) 5 (t.program txn call) := by
  have h : t.Within (t.scope call) := ⟨rfl, fun hro => (Bool.and_eq_true _ _ ▸ hro).1⟩
  have hwrites (hcall : call.writes = true) : (t.scope call).read_only = false := by
    simp [scope, hcall]
  cases call with
  | lookupSchema entry_name if_not_found =>
    exact (orderly_lookupSchema h entry_name if_not_found).bind fun _ => Prog.orderly_ret _
  | scanSchemas tables =>
    refine orderly_scan h fun schema => ?_
    split
    · exact orderly_scanTables h schema fun _ => Prog.orderly_ret _
    · exact Prog.orderly_ret _
  | clearCache =>
    exact orderly_withSchemas (Prog.Orderly.bind (orderly_own trivial rfl) fun _ =>
      orderly_own trivial rfl)
  | onDetach => exact orderly_scan h fun schema => (orderly_onDetachTables schema).mono (by decide)
  | lookupTable schema name at_clause =>
    refine Prog.Orderly.bind ?_ fun _ => Prog.orderly_ret _
    exact (orderly_getTable h schema name at_clause).mono (by decide)
  | lookupFunction schema entry_name =>
    refine Prog.Orderly.bind ?_ fun _ => Prog.orderly_ret _
    exact (orderly_tryLoadBuiltInFunction schema entry_name).mono (by decide)
  | scanTables schema =>
    exact (orderly_scanTables h schema fun _ => Prog.orderly_ret _).mono (by decide)
  | createTable schema info =>
    exact (orderly_run (orderly_schemaCreateTable (h.tableSet schema) info)).mono (by decide)
  | tableDataPath schema table_name =>
    refine Prog.Orderly.bind (Prog.Orderly.bind ?_ fun entry => ?_) fun _ => Prog.orderly_ret _
    · exact (orderly_getTable h schema table_name none).mono (by decide)
    · cases entry with
      | some entry => exact Prog.orderly_ret _
      | none => exact Prog.orderly_throw _
  | checkpointTable finished schema_name table_name force =>
    exact orderly_checkpointTable h (hwrites rfl) finished schema_name table_name force
  | planInsert schema table =>
    refine (orderly_withDelta h schema table fun db => ?_).mono (by decide)
    exact orderly_own (hwrites rfl) rfl
  | getScanFunction schema table lookup_info =>
    refine Prog.Orderly.bind ?_ fun _ => Prog.orderly_ret _
    refine (orderly_run ?_).mono (show 2 ≤ 5 by decide)
    exact orderly_getScanFunction (h.tableInformation schema table) lookup_info
  | initGlobal schema table lookup_info filter_json input =>
    refine Prog.Orderly.bind ?_ fun _ => Prog.orderly_ret _
    refine (orderly_run ?_).mono (show 2 ≤ 5 by decide)
    refine orderly_ucScanPlanInitGlobal (h.target schema table lookup_info filter_json) ?_ input
    rintro _ ⟨⟩
    exact h.tableInformation schema table
  | expandNextPath schema table remaining_tokens tokens =>
    refine Prog.Orderly.bind ?_ fun _ => Prog.orderly_ret _
    exact orderly_run
      (orderly_of_free (free_expandNextPath (h.target schema table none "") tokens _ rfl))
  | commitExecute schema table res =>
    refine (orderly_run ?_).mono (show 2 ≤ 5 by decide)
    exact orderly_commitExecute (h.tableInformation schema table) (hwrites rfl) res
  | startTransaction =>
    exact Prog.orderly_visit (l := CatalogLock.transactions) trivial rfl (by decide)
  | endTransaction =>
    exact Prog.orderly_visit (l := CatalogLock.transactions) trivial rfl (by decide)

end AttachedCatalog

/-! ## Threads -/

/-- What surrounds the catalog: everything it asks, but for mutexes, is answered sooner or later. -/
structure Surroundings where
  State : Type
  Choice : Type
  answer : ℕ → State → (op : CatalogClient.Op) → Choice →
    Option (Except Exception (CatalogClient.Ans op) × State)
  responds : ∀ c s op, ∃ ch, (answer c s op ch).isSome
  /-- what happens besides -/
  Env : Type
  env : State → Env → Option State
  init : State → Prop

namespace AttachedCatalog

variable (t : AttachedCatalog) (S : Surroundings) (A : CatalogCall → Prop)

/-- The catalog's calls, of those in `A`, each in a transaction and in a thread of its own. -/
abbrev threads : Pool CatalogClient Exception Unit where
  Ctx := ℕ
  State := S.State
  Choice := S.Choice
  answer := S.answer
  Call := {call : CatalogCall // A call} × ℕ
  start s _ call := some (t.program call.2 call.1, s)
  finish s _ _ := s
  Env := S.Env
  env := S.env
  init := S.init

/-- The same, waiting at mutexes. -/
abbrev lockedThreads : Pool CatalogClient Exception Unit := (t.threads S A).locking catalogLocks

variable {t S A}

/-- What a thread runs is of a call, and keeps to a scope that is no narrower than the call's. -/
theorem within_of_reachable {s : Scope} (hcredentials : s.credentials = t.credentials)
    (hscope : ∀ call, A call → s.read_only = true → t.read_only = true ∧ call.writes = false)
    {cfg : (t.lockedThreads S A).Config} (h : (t.lockedThreads S A).system.Reachable cfg) (c : ℕ)
    {op : CatalogClient.Op} {k : Except Exception (CatalogClient.Ans op) → CatalogRun Unit}
    (hc : cfg.threads c = some (.call op k)) : catalogWithin s op := by
  refine (Pool.uses_of_reachable (A := catalogWithin s) ?_ h c _ hc).1
  intro state c call p state' hstart
  cases hstart
  refine (t.orderly_program call.2 call.1.1).uses.mono fun op hop => hop.loosen hcredentials ?_
  intro hs
  simp [scope, hscope call.1.1 call.1.2 hs]

variable (t S A)

/-- **No deadlock.** In every interleaving of any calls of the catalog, every running thread waits,
at the end of the chain, for one that can take a step, and a mutex is held only by a thread that is
running. -/
theorem no_deadlock {cfg : (t.lockedThreads S A).Config}
    (h : (t.lockedThreads S A).system.Reachable cfg) :
    (∀ c, cfg.threads c ≠ none → ∃ d,
      Relation.ReflTransGen (Pool.WaitsFor cfg) c d ∧ (t.lockedThreads S A).CanMove cfg d) ∧
    ∀ l c, cfg.state.2 l = some c → cfg.threads c ≠ none := by
  refine Pool.waits_for_one_that_moves CatalogLock.level S.responds ?_ h
  intro s c call p s' hstart
  cases hstart
  exact (t.orderly_program call.2 call.1.1).descends [] fun l hl => by cases hl

/-- **Requests.** Whatever a thread has been answered so far, the next request it makes goes below
the catalog's endpoint, or below that of its scan planning, and carries its token. -/
theorem requests_keep_to_scope {cfg : (t.lockedThreads S A).Config}
    (h : (t.lockedThreads S A).system.Reachable cfg) (c : ℕ) {place : Place} {req : HttpRequest}
    {k : Except Exception Unit → CatalogRun Unit}
    (hc : cfg.threads c = some (.call (.inl (place, .issue req)) k)) :
    req.token = t.credentials.token ∧
      ((∃ path, req.url = t.credentials.endpoint ++ ("/api/2.1/unity-catalog/" ++ path)) ∨
        ∃ path, req.url = t.credentials.ircEndpoint ++ ("/v1/" ++ path)) := by
  have hop :=
    within_of_reachable (s := ⟨t.credentials, false⟩) rfl (fun _ _ hs => by cases hs) h c hc
  exact ⟨hop.2.1, hop.1⟩

/-- A read-only catalog. -/
def exampleCatalog : AttachedCatalog where
  name := "uc"
  internal_name := "c"
  read_only := true
  credentials := { endpoint := "http://uc", token := "secret" }
  default_schema := "s"
  cast _ := .error (internalException "no cast")
  realText _ := none

/-- The schema list is empty, and requests can be sent. -/
def exampleAnswer : (op : CatalogClient.Op) → Except Exception (CatalogClient.Ans op)
  | .inr .lockSchemas => .ok ()
  | .inr .schemasLoaded => .ok false
  | .inl (_, .ensureHttpfs) => .ok ()
  | _ => .error (internalException "not there")

/-- Surroundings that answer so. -/
def exampleSurroundings : Surroundings where
  State := Unit
  Choice := Unit
  answer _ s op _ := some (exampleAnswer op, s)
  responds _ _ _ := ⟨(), rfl⟩
  Env := Empty
  env _ e := e.elim
  init _ := True

/-- The calls that change nothing. -/
abbrev exampleThreads : Pool CatalogClient Exception Unit :=
  exampleCatalog.lockedThreads exampleSurroundings fun call => call.writes = false

/-- A lookup of schema `s` is about to send its request, and another one has begun. -/
def twoLookups : List exampleThreads.Label :=
  [.start 0 (⟨.lookupSchema "s" .returnNull, rfl⟩, 0), .op 0 (), .op 0 (), .op 0 (),
    .start 1 (⟨.lookupSchema "s" .returnNull, rfl⟩, 1)]

/-- Nothing runs. -/
def exampleIdle : exampleThreads.Config := ⟨((), fun _ => none), fun _ => none⟩

/-- The request a thread is about to send. -/
def nextRequest : Option (CatalogRun Unit) → Option HttpRequest
  | some (.call (.inl (_, .issue req)) _) => some req
  | _ => none

/-- A thread whose next request can be seen is at an operation that sends it. -/
theorem exists_of_nextRequest {thread : Option (CatalogRun Unit)} {req : HttpRequest}
    (h : nextRequest thread = some req) :
    ∃ place k, thread = some (.call (.inl (place, .issue req)) k) := by
  unfold nextRequest at h
  split at h
  · rename_i place req' k
    cases h
    exact ⟨place, k, rfl⟩
  · cases h

/-- The request for the schema list. -/
def listSchemas : HttpRequest :=
  ⟨.get, "http://uc/api/2.1/unity-catalog/schemas?catalog_name=c", "secret", .empty⟩

theorem exists_twoLookups : ∃ cfg, exampleThreads.system.Reachable cfg ∧ cfg.threads 1 ≠ none ∧
    nextRequest (cfg.threads 0) = some listSchemas := by
  have h : (exampleThreads.replay (fun _ _ => true) twoLookups exampleIdle).map
      (fun cfg : exampleThreads.Config => ((cfg.threads 1).isSome, nextRequest (cfg.threads 0))) =
      some (true, some listSchemas) := by
    decide +kernel
  obtain ⟨cfg, hcfg, hst⟩ := Option.map_eq_some_iff.1 h
  obtain ⟨hone, hzero⟩ := Prod.mk.inj hst
  refine ⟨cfg, ⟨exampleIdle, ⟨⟨trivial, rfl⟩, rfl⟩, Pool.run_of_replay (fun _ _ _ => trivial) hcfg⟩,
    ?_, hzero⟩
  intro hnone
  rw [hnone] at hone
  cases hone

theorem no_deadlock_twoLookups : ∃ cfg : exampleThreads.Config, ∃ d,
    Relation.ReflTransGen (Pool.WaitsFor cfg) 1 d ∧ exampleThreads.CanMove cfg d := by
  obtain ⟨cfg, hreach, hrun, -⟩ := exists_twoLookups
  exact ⟨cfg, (no_deadlock exampleCatalog exampleSurroundings _ hreach).1 1 hrun⟩

theorem requests_keep_to_scope_twoLookups :
    listSchemas.token = exampleCatalog.credentials.token ∧
      ((∃ path, listSchemas.url =
          exampleCatalog.credentials.endpoint ++ ("/api/2.1/unity-catalog/" ++ path)) ∨
        ∃ path, listSchemas.url = exampleCatalog.credentials.ircEndpoint ++ ("/v1/" ++ path)) := by
  obtain ⟨cfg, hreach, -, hreq⟩ := exists_twoLookups
  obtain ⟨place, k, hc⟩ := exists_of_nextRequest hreq
  exact requests_keep_to_scope exampleCatalog exampleSurroundings _ hreach 0 hc

end AttachedCatalog

end UnityCatalog
