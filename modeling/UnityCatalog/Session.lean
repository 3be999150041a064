import UnityCatalog.Steps
import UnityCatalog.TableInformation

/-!
# One session on one catalog-managed table

The step system of `InternalAttach` and `UCDeltaCCV2CommitExecute`, call by call: the transactions
of one session, which share the table's `TableInformation`, and the other clients of the catalog,
who commit too. A step runs one call of the source to its end, with every answer the catalog, the
network and the file system can give in between.

After a refused commit a session is to recover by attaching again. That rests on `is_dirty`, and
fails for it: a refused commit does not set it.
-/

namespace UnityCatalog

open Effectful Yyjson

/-- A number and a text are compared as a pair. -/
instance lawfulBEq_natString : LawfulBEq (ℕ × String) := inferInstance

/-! ## The catalog's side -/

/-- A catalog-managed table. -/
structure ManagedTable extends TableInformation where
  managed : toTableInformation.isCatalogManaged = true

/-- What Unity Catalog holds of the table. -/
structure CatalogTable where
  etag : String
  /-- the latest ratified version -/
  version : ℕ
  /-- the etags it had -/
  used : List String

/-- A commit is refused for a stale etag or a version that is not the next one. -/
def CatalogTable.refuses (cat : CatalogTable) (c : AddCommit) : Bool :=
  (c.etag != "" && c.etag != cat.etag) || c.version != cat.version + 1

/-- The table after a commit that made `etag` its etag. -/
def CatalogTable.ratify (cat : CatalogTable) (etag : String) : CatalogTable :=
  ⟨etag, cat.version + 1, cat.etag :: cat.used⟩

/-- What a request to commit does: nothing, or the commit under a new etag if it is not refused. -/
def CatalogTable.take (cat : CatalogTable) (c : AddCommit) : Option String → Option CatalogTable
  | none => some cat
  | some etag =>
    if cat.refuses c ∨ etag = cat.etag ∨ etag ∈ cat.used then none else some (cat.ratify etag)

/-! ## The session's side -/

/-- One session and the catalog. -/
structure SessionState where
  is_dirty : Bool := false
  attached : Option AttachedDatabase := none
  commit_state : UCCommitState := {}
  /-- the identity of the next database attached -/
  next_db : AttachedDatabase := 0
  /-- the databases each transaction has read under the table's internal name -/
  met : ℕ → List AttachedDatabase := fun _ => []
  catalog : CatalogTable
  /-- the request under way -/
  pending : Option HttpRequest := none
  /-- how often `LoadTable` was called -/
  loads : ℕ := 0
  /-- how often it returned -/
  loaded : ℕ := 0
  /-- a commit was refused, and no transaction that has not read the table attached since -/
  owed : Bool := false

/-- What the surroundings may do with an operation; an etag says that UC took the commit, and under
which etag. -/
inductive SessionChoice where
  | proceed
  | respond (resp : HttpResponse) (etag : Option String)
  | fail (e : Exception) (etag : Option String)
  | size (n : ℕ)
  | created (b : Bool)
  | bytes (bs : Bytes)

namespace ManagedTable

variable (t : ManagedTable)

/-- What `LoadTable` makes of a response. -/
def loadOutcome (resp : HttpResponse) : Except Exception UCAPICommitsResult :=
  let td := t.table_data
  resp.decoded (tableUrl t.credentials td.catalog_name td.schema_name td.name)
    (decodeLoadTable td.catalog_name td.schema_name td.name)

/-- What `UpdateTable` makes of a response. -/
def updateOutcome (resp : HttpResponse) : Except Exception String :=
  let td := t.table_data
  resp.decoded (tableUrl t.credentials td.catalog_name td.schema_name td.name)
    (decodeUpdateTable td.catalog_name td.schema_name td.name)

/-- The catalog answers: a table it loads has its current etag, and a commit it acknowledges is one
it took. Any answer may be an error, or be lost. -/
def reply (s : SessionState) (req : HttpRequest) :
    SessionChoice → Option (Except Exception HttpResponse × SessionState)
  | .respond resp etag =>
    match req.body with
    | .addCommit c => (s.catalog.take c etag).bind fun cat =>
      match t.updateOutcome resp with
      | .ok e =>
        if etag = some e then some (.ok resp, { s with catalog := cat, pending := none }) else none
      | .error _ => some (.ok resp, { s with catalog := cat, pending := none })
    | _ =>
      match t.loadOutcome resp with
      | .ok result =>
        if result.etag = s.catalog.etag then
          some (.ok resp, { s with loaded := s.loaded + 1, pending := none })
        else none
      | .error _ => some (.ok resp, { s with pending := none })
  | .fail e etag =>
    match req.body with
    | .addCommit c => (s.catalog.take c etag).map fun cat =>
      (.error e, { s with catalog := cat, pending := none })
    | _ => some (.error e, { s with pending := none })
  | _ => none

/-- The operations. Files and attachments may fail at any point; the httpfs extension is loaded, and
nobody made the internal database their default one, so detaching it succeeds. -/
def sessionAnswer (txn : ℕ) (s : SessionState) : (op : Op) → SessionChoice →
    Option (Except Exception op.Ans × SessionState)
  | .ensureHttpfs, .proceed => some (.ok (), s)
  | .issue req, .proceed => some (.ok (), { s with
      pending := some req, loads := if req.body = .empty then s.loads + 1 else s.loads })
  | .answer, ch => s.pending.bind fun req => t.reply s req ch
  | .lockAttach, .proceed => some (.ok (), s)
  | .unlockAttach, .proceed => some (.ok (), s)
  | .isDirty, .proceed => some (.ok s.is_dirty, s)
  | .setDirty b, .proceed => some (.ok (), { s with is_dirty := b })
  | .attached, .proceed => some (.ok s.attached, s)
  | .setAttached db, .proceed => some (.ok (), { s with attached := db })
  | .readCommitState, .proceed => some (.ok s.commit_state, s)
  | .updateCommitState f, .proceed => some (.ok (), { s with commit_state := f s.commit_state })
  | .tryGetTransaction db, .proceed => some (.ok (decide (db ∈ s.met txn)), s)
  | .attachDatabase _, .proceed => some (.ok s.next_db, { s with next_db := s.next_db + 1 })
  | .attachDatabase _, .fail e _ => some (.error e, s)
  | .detachDatabase _, .proceed => some (.ok (), s)
  | .openRead _, .size n => some (.ok n, s)
  | .openRead _, .fail e _ => some (.error e, s)
  | .openExclusive _, .created b => some (.ok b, s)
  | .openExclusive _, .fail e _ => some (.error e, s)
  | .readFile _ _, .bytes bs => some (.ok bs, s)
  | .readFile _ _, .fail e _ => some (.error e, s)
  | .writeFile _ _, .proceed => some (.ok (), s)
  | .writeFile _ _, .fail e _ => some (.error e, s)
  | .closeFile _, .proceed => some (.ok (), s)
  | .closeFile _, .fail e _ => some (.error e, s)
  | _, _ => none

/-- The session as a world; who asks is a transaction. -/
abbrev Session : World Client Exception where
  Ctx := ℕ
  State := SessionState
  Choice := SessionChoice
  answer txn s op ch := t.sessionAnswer txn s op ch

end ManagedTable

/-- The transaction has read the attached database. -/
def SessionState.HasRead (s : SessionState) (txn : ℕ) : Prop :=
  ∃ db, s.attached = some db ∧ db ∈ s.met txn

/-- The steps. -/
inductive SessionLabel where
  /-- a transaction calls `InternalAttach` -/
  | attach (txn : ℕ)
  /-- a transaction reads the attached database -/
  | read (txn : ℕ)
  /-- a transaction commits -/
  | commit (txn : ℕ) (res : StagedCommit)
  /-- another client commits, and the etag changes -/
  | outside (etag : String)
  /-- a transaction ends -/
  | finish (txn : ℕ)

/-- What one step can do. -/
def ManagedTable.sessionStep (t : ManagedTable) (s : SessionState) :
    SessionLabel → SessionState → Prop
  | .attach txn, s' => ∃ r s₁, t.internalAttach.Exec (W := t.Session) txn s r s₁ ∧
      ((s.HasRead txn ∧ s' = s₁) ∨ (¬ s.HasRead txn ∧ s' = { s₁ with owed := false }))
  | .read txn, s' => ∃ db, s.attached = some db ∧
      s' = { s with met := Function.update s.met txn (db :: s.met txn) }
  | .commit txn res, s' => ∃ r s₁, (t.commitExecute res).Exec (W := t.Session) txn s r s₁ ∧
      s' = { s₁ with owed := s.owed || s.catalog.refuses (t.addCommit res s.commit_state) }
  | .outside etag, s' => etag ≠ s.catalog.etag ∧ etag ∉ s.catalog.used ∧
      s' = { s with catalog := s.catalog.ratify etag }
  | .finish txn, s' => s' = { s with met := Function.update s.met txn [] }

/-- The step system of one session, from where nothing is attached. -/
def ManagedTable.sessions (t : ManagedTable) : StepSystem where
  State := SessionState
  Label := SessionLabel
  init s := s = { catalog := s.catalog }
  step := t.sessionStep

/-! ## Operations -/

namespace ManagedTable

variable {t : ManagedTable} {txn : ℕ} {s s' : SessionState}

/-- An operation that can only go one way. -/
theorem session_only {op : Op} {a : op.Ans} {s₁ : SessionState} {r : Except Exception op.Ans}
    (hp : t.sessionAnswer txn s op .proceed = some (.ok a, s₁))
    (hn : ∀ ch, ch ≠ .proceed → t.sessionAnswer txn s op ch = none) :
    (Prog.perform (F := Client) op).Exec (W := t.Session) txn s r s' ↔ r = .ok a ∧ s' = s₁ := by
  refine Prog.exec_perform.trans ⟨?_, ?_⟩
  · rintro ⟨ch, h⟩
    by_cases hch : ch = .proceed
    · subst hch
      obtain ⟨rfl, rfl⟩ := Prod.mk.inj (Option.some.inj (hp.symm.trans h))
      exact ⟨rfl, rfl⟩
    · have := (hn ch hch).symm.trans h
      cases this
  · rintro ⟨rfl, rfl⟩
    exact ⟨.proceed, hp⟩

/-- The extension is there in a session; asking for it changes nothing. -/
theorem session_ensureHttpfs {r : Except Exception Unit} :
    ensureHttpfs.Exec (W := t.Session) txn s r s' ↔ r = .ok () ∧ s' = s :=
  session_only rfl (by rintro (_ | _ | _ | _ | _ | _) h <;> first | rfl | exact absurd rfl h)

/-- A request that is sent is pending until it is answered. -/
theorem session_issue {req : HttpRequest} {r : Except Exception Unit} :
    (issue req).Exec (W := t.Session) txn s r s' ↔ r = .ok () ∧ s' = { s with
      pending := some req, loads := if req.body = .empty then s.loads + 1 else s.loads } :=
  session_only rfl (by rintro (_ | _ | _ | _ | _ | _) h <;> first | rfl | exact absurd rfl h)

/-- A session's calls come one after the other, so the `attach_lock` is always free. -/
theorem session_lockAttach {r : Except Exception Unit} :
    lockAttach.Exec (W := t.Session) txn s r s' ↔ r = .ok () ∧ s' = s :=
  session_only rfl (by rintro (_ | _ | _ | _ | _ | _) h <;> first | rfl | exact absurd rfl h)

/-- Giving the lock back changes nothing either. -/
theorem session_unlockAttach {r : Except Exception Unit} :
    unlockAttach.Exec (W := t.Session) txn s r s' ↔ r = .ok () ∧ s' = s :=
  session_only rfl (by rintro (_ | _ | _ | _ | _ | _) h <;> first | rfl | exact absurd rfl h)

/-- The mark is read as it is. -/
theorem session_isDirty {r : Except Exception Bool} :
    isDirty.Exec (W := t.Session) txn s r s' ↔ r = .ok s.is_dirty ∧ s' = s :=
  session_only rfl (by rintro (_ | _ | _ | _ | _ | _) h <;> first | rfl | exact absurd rfl h)

/-- The mark is set to what is given, and nothing else changes. -/
theorem session_setDirty {b : Bool} {r : Except Exception Unit} :
    (setDirty b).Exec (W := t.Session) txn s r s' ↔
      r = .ok () ∧ s' = { s with is_dirty := b } :=
  session_only rfl (by rintro (_ | _ | _ | _ | _ | _) h <;> first | rfl | exact absurd rfl h)

/-- The attached database is the entry's, for all transactions alike. -/
theorem session_attached {r : Except Exception (Option AttachedDatabase)} :
    attached.Exec (W := t.Session) txn s r s' ↔ r = .ok s.attached ∧ s' = s :=
  session_only rfl (by rintro (_ | _ | _ | _ | _ | _) h <;> first | rfl | exact absurd rfl h)

/-- A change of the attached database is one for all transactions. -/
theorem session_setAttached {db : Option AttachedDatabase} {r : Except Exception Unit} :
    (setAttached db).Exec (W := t.Session) txn s r s' ↔
      r = .ok () ∧ s' = { s with attached := db } :=
  session_only rfl (by rintro (_ | _ | _ | _ | _ | _) h <;> first | rfl | exact absurd rfl h)

/-- The commit state is read as it is. -/
theorem session_readCommitState {r : Except Exception UCCommitState} :
    readCommitState.Exec (W := t.Session) txn s r s' ↔ r = .ok s.commit_state ∧ s' = s :=
  session_only rfl (by rintro (_ | _ | _ | _ | _ | _) h <;> first | rfl | exact absurd rfl h)

/-- The commit state is changed by the function that is given, and nothing else is. -/
theorem session_updateCommitState {f : UCCommitState → UCCommitState}
    {r : Except Exception Unit} :
    (updateCommitState f).Exec (W := t.Session) txn s r s' ↔
      r = .ok () ∧ s' = { s with commit_state := f s.commit_state } :=
  session_only rfl (by rintro (_ | _ | _ | _ | _ | _) h <;> first | rfl | exact absurd rfl h)

/-- Whether a transaction has read a database is noted when it reads. -/
theorem session_tryGetTransaction {db : AttachedDatabase} {r : Except Exception Bool} :
    (tryGetTransaction db).Exec (W := t.Session) txn s r s' ↔
      r = .ok (decide (db ∈ s.met txn)) ∧ s' = s :=
  session_only rfl (by rintro (_ | _ | _ | _ | _ | _) h <;> first | rfl | exact absurd rfl h)

/-- A detach takes the name away from the database manager; the entry's own reference is what a
session looks at. -/
theorem session_detachDatabase {name : String} {r : Except Exception Unit} :
    (detachDatabase name).Exec (W := t.Session) txn s r s' ↔ r = .ok () ∧ s' = s :=
  session_only rfl (by rintro (_ | _ | _ | _ | _ | _) h <;> first | rfl | exact absurd rfl h)

/-- An attach gives a database that no one had before, or fails with all as it was. -/
theorem session_attachDatabase {info : AttachInfo} {r : Except Exception AttachedDatabase} :
    (attachDatabase info).Exec (W := t.Session) txn s r s' ↔
      (r = .ok s.next_db ∧ s' = { s with next_db := s.next_db + 1 }) ∨
        ∃ e, r = .error e ∧ s' = s := by
  refine Prog.exec_perform.trans ⟨?_, ?_⟩
  · rintro ⟨_ | _ | ⟨e, etag⟩ | _ | _ | _, h⟩
    · obtain ⟨rfl, rfl⟩ := Prod.mk.inj (Option.some.inj h)
      exact .inl ⟨rfl, rfl⟩
    · cases h
    · obtain ⟨rfl, rfl⟩ := Prod.mk.inj (Option.some.inj h)
      exact .inr ⟨e, rfl, rfl⟩
    · cases h
    · cases h
    · cases h
  · rintro (⟨rfl, rfl⟩ | ⟨e, rfl, rfl⟩)
    · exact ⟨.proceed, rfl⟩
    · exact ⟨.fail e none, rfl⟩

/-- The lock is always free: a step is a whole call. -/
theorem session_withAttachLock {α : Type} {p : Run α} {r : Except Exception α} :
    (withAttachLock p).Exec (W := t.Session) txn s r s' ↔ p.Exec (W := t.Session) txn s r s' := by
  constructor
  · intro h
    simp only [withAttachLock, Prog.bind_eq, Prog.tryCatch_eq', Prog.exec_bind, Prog.exec_tryCatch,
      session_lockAttach, session_unlockAttach] at h
    rcases h with ⟨_, s₁, ⟨-, rfl⟩, h⟩ | ⟨e, ⟨h, -⟩, -⟩
    · rcases h with ⟨a, s₂, ⟨b, hp, hb⟩ | ⟨e, s₃, hp, h⟩, h'⟩ | ⟨e,
        ⟨b, -, hb⟩ | ⟨e', s₃, hp, h⟩, rfl⟩
      · cases hb
        rcases h' with ⟨_, s₃, ⟨-, rfl⟩, h'⟩ | ⟨e, ⟨h', -⟩, -⟩
        · obtain ⟨rfl, rfl⟩ := h'
          exact hp
        · cases h'
      · rcases h with ⟨_, s₄, -, h⟩ | ⟨e', ⟨h, -⟩, -⟩
        · cases h.1
        · cases h
      · cases hb
      · rcases h with ⟨_, s₄, ⟨-, rfl⟩, h⟩ | ⟨e', ⟨h, -⟩, -⟩
        · obtain ⟨he, rfl⟩ := h
          cases he
          exact hp
        · cases h
    · cases h
  · intro hp
    refine Prog.exec_bind.2 (.inl ⟨(), s, session_lockAttach.2 ⟨rfl, rfl⟩, ?_⟩)
    cases r with
    | ok a =>
      refine Prog.exec_bind.2 (.inl ⟨a, s', Prog.exec_tryCatch.2 (.inl ⟨a, hp, rfl⟩), ?_⟩)
      exact Prog.exec_bind.2 (.inl ⟨(), s', session_unlockAttach.2 ⟨rfl, rfl⟩, rfl, rfl⟩)
    | error e =>
      refine Prog.exec_bind.2 (.inr ⟨e, Prog.exec_tryCatch.2 (.inr ⟨e, s', hp, ?_⟩), rfl⟩)
      exact Prog.exec_bind.2 (.inl ⟨(), s', session_unlockAttach.2 ⟨rfl, rfl⟩, rfl, rfl⟩)

/-- Files are no part of the state. -/
theorem session_backfillCommits {commits : List UCAPICommit} {wm : Option ℕ}
    {r : Except Exception (Option ℕ)}
    (h : (t.backfillCommits commits wm).Exec (W := t.Session) txn s r s') :
    s' = s ∧ ∃ wm', r = .ok wm' := by
  refine ⟨?_, t.exec_backfillLoop _ h⟩
  refine Prog.Exec.frame (W := t.Session) (I := fun u => u = s) (t.uses_backfillLoop _ _) ?_ h rfl
  rintro u op ch x u₁ hop rfl ha
  cases op <;> first | exact absurd hop not_false | skip
  all_goals
    cases ch <;> first
      | (obtain ⟨-, rfl⟩ := Prod.mk.inj (Option.some.inj ha); rfl)
      | cases ha

/-- The copying of commits changes nothing that a session looks at. -/
theorem session_newWatermark {commits : List UCAPICommit} {wm : Option ℕ}
    {r : Except Exception (Option ℕ)}
    (h : (t.newWatermark commits wm).Exec (W := t.Session) txn s r s') :
    s' = s ∧ ∃ wm', r = .ok wm' := by
  rw [TableInformation.newWatermark] at h
  split at h
  · exact ⟨h.2, wm, h.1⟩
  · exact session_backfillCommits h

/-! ## Requests -/

/-- A request is answered by what the catalog makes of it. -/
theorem session_answer {req : HttpRequest} {x : Except Exception HttpResponse}
    (hp : s.pending = some req) :
    answer.Exec (W := t.Session) txn s x s' ↔ ∃ ch, t.reply s req ch = some (x, s') := by
  refine Prog.exec_perform.trans ?_
  have h : ∀ ch, t.Session.answer txn s Op.answer ch = t.reply s req ch := by
    intro ch
    show (s.pending.bind fun req => t.reply s req ch) = _
    rw [hp]
    rfl
  exact exists_congr fun ch => iff_of_eq (congrArg (· = some (x, s')) (h ch))

/-- A request and what the caller decodes of its answer. -/
theorem session_request {α : Type} {url token : String} {body : RequestBody}
    {decode : Option Val → Except Exception α} {r : Except Exception α} :
    ((makeRequest url token body).bind fun b => Prog.ofExcept (decode (read b))).Exec
        (W := t.Session) txn s r s' ↔
      ∃ ch x, t.reply { s with
          pending := some ⟨body.method, url, token, body⟩
          loads := if body = .empty then s.loads + 1 else s.loads }
        ⟨body.method, url, token, body⟩ ch = some (x, s') ∧
        r = x.bind fun resp => resp.decoded url decode := by
  rw [exec_makeRequest_decode]
  constructor
  · rintro ⟨y, hy, rfl⟩
    rcases exec_makeRequestResp.1 hy with ⟨s₁, s₂, he, hi, x, hx, rfl⟩ | ⟨e, -, he⟩ | ⟨e, s₁, -,
      -, hi⟩
    · obtain ⟨-, rfl⟩ := session_ensureHttpfs.1 he
      obtain ⟨-, rfl⟩ := session_issue.1 hi
      obtain ⟨ch, hch⟩ := (session_answer rfl).1 hx
      exact ⟨ch, x, hch, checkResponse_bind x⟩
    · cases (session_ensureHttpfs.1 he).1
    · cases (session_issue.1 hi).1
  · rintro ⟨ch, x, hch, rfl⟩
    refine ⟨_, exec_makeRequestResp.2 (.inl ⟨_, _, session_ensureHttpfs.2 ⟨rfl, rfl⟩,
      session_issue.2 ⟨rfl, rfl⟩, x, (session_answer rfl).2 ⟨ch, hch⟩, rfl⟩), ?_⟩
    exact (checkResponse_bind x).symm

/-- `LoadTable` returns the current etag, or throws. -/
theorem session_loadTable {r : Except Exception UCAPICommitsResult}
    (h : t.loadTable.Exec (W := t.Session) txn s r s') :
    (∃ result, r = .ok result ∧ result.etag = s.catalog.etag ∧
      s' = { s with loads := s.loads + 1, loaded := s.loaded + 1, pending := none }) ∨
      ∃ e, r = .error e ∧ s' = { s with loads := s.loads + 1, pending := none } := by
  obtain ⟨ch, x, hch, rfl⟩ := session_request.1 h
  cases ch with
  | respond resp etag =>
    simp only [reply] at hch
    have hout : resp.decoded (tableUrl t.credentials t.table_data.catalog_name
        t.table_data.schema_name t.table_data.name) (decodeLoadTable t.table_data.catalog_name
        t.table_data.schema_name t.table_data.name) = t.loadOutcome resp := rfl
    split at hch
    · rename_i result hok
      split at hch
      · rename_i hetag
        obtain ⟨rfl, rfl⟩ := Prod.mk.inj (Option.some.inj hch)
        exact .inl ⟨result, hout.trans hok, hetag, rfl⟩
      · cases hch
    · rename_i e herr
      obtain ⟨rfl, rfl⟩ := Prod.mk.inj (Option.some.inj hch)
      exact .inr ⟨e, hout.trans herr, rfl⟩
  | fail e etag =>
    obtain ⟨rfl, rfl⟩ := Prod.mk.inj (Option.some.inj hch)
    exact .inr ⟨e, rfl, rfl⟩
  | _ => cases hch

/-- `UpdateTable` returns the etag of the commit the catalog took, or throws whatever it took. -/
theorem session_updateTable {c : AddCommit} {r : Except Exception String}
    (h : (UCAPI.updateTable t.table_data.catalog_name t.table_data.schema_name t.table_data.name
      t.credentials c).Exec (W := t.Session) txn s r s') :
    ∃ etag cat, s.catalog.take c etag = some cat ∧
      s' = { s with catalog := cat, pending := none } ∧
      ((∃ e, r = .ok e ∧ etag = some e) ∨ ∃ e, r = .error e) := by
  obtain ⟨ch, x, hch, rfl⟩ := session_request.1 h
  cases ch with
  | respond resp etag =>
    simp only [reply, Option.bind_eq_some_iff] at hch
    obtain ⟨cat, hcat, hch⟩ := hch
    have hout : resp.decoded (tableUrl t.credentials t.table_data.catalog_name
        t.table_data.schema_name t.table_data.name) (decodeUpdateTable t.table_data.catalog_name
        t.table_data.schema_name t.table_data.name) = t.updateOutcome resp := rfl
    refine ⟨etag, cat, hcat, ?_⟩
    split at hch
    · rename_i e hok
      split at hch
      · rename_i hetag
        obtain ⟨rfl, rfl⟩ := Prod.mk.inj (Option.some.inj hch)
        exact ⟨rfl, .inl ⟨e, hout.trans hok, hetag⟩⟩
      · cases hch
    · rename_i e herr
      obtain ⟨rfl, rfl⟩ := Prod.mk.inj (Option.some.inj hch)
      exact ⟨rfl, .inr ⟨e, hout.trans herr⟩⟩
  | fail e etag =>
    simp only [reply, Option.map_eq_some_iff] at hch
    obtain ⟨cat, hcat, hch⟩ := hch
    obtain ⟨rfl, rfl⟩ := Prod.mk.inj hch
    exact ⟨etag, cat, hcat, rfl, .inr ⟨e, rfl⟩⟩
  | _ => cases hch

/-! ## Calls -/

/-- What an attach from nothing changes: `LoadTable` is called, and where it returned, the current
etag is stored. -/
structure Reloads (s : SessionState) (r : Except Exception Unit) (s' : SessionState) : Prop where
  loads : s'.loads = s.loads + 1
  etag : (s'.loaded = s.loaded + 1 ∧ s'.commit_state.etag = s.catalog.etag) ∨
    (s'.loaded = s.loaded ∧ ∃ e, r = .error e)
  catalog : s'.catalog = s.catalog
  met : s'.met = s.met
  owed : s'.owed = s.owed

/-- A load that returns gives the etag the catalog had when it answered. -/
theorem session_loadCommits {r : Except Exception UCAPICommitsResult}
    (h : t.loadCommits.Exec (W := t.Session) txn s r s') :
    (∃ result wm, r = .ok result ∧ s' = { s with
      loads := s.loads + 1, loaded := s.loaded + 1, pending := none
      commit_state := ⟨s.catalog.etag, wm⟩ }) ∨
      ∃ e, r = .error e ∧ s' = { s with loads := s.loads + 1, pending := none } := by
  simp only [TableInformation.loadCommits, Prog.bind_eq, Prog.exec_bind, session_readCommitState,
    session_updateCommitState] at h
  rcases h with ⟨result, s₁, hl, h⟩ | ⟨e, hl, rfl⟩
  · rcases session_loadTable hl with ⟨_, hr, hetag, rfl⟩ | ⟨e, he, -⟩
    · obtain rfl := Except.ok.inj hr
      rcases h with ⟨cs, s₂, ⟨-, rfl⟩, h⟩ | ⟨e, ⟨he, -⟩, -⟩
      · rcases h with ⟨wm, s₃, hb, h⟩ | ⟨e, hb, -⟩
        · obtain ⟨rfl, -⟩ := session_newWatermark hb
          rcases h with ⟨_, s₄, ⟨-, rfl⟩, h⟩ | ⟨e, ⟨he, -⟩, -⟩
          · obtain ⟨rfl, rfl⟩ := h
            exact .inl ⟨result, wm, rfl, by rw [hetag]⟩
          · cases he
        · obtain ⟨-, wm', he⟩ := session_newWatermark hb
          cases he
      · cases he
    · cases he
  · rcases session_loadTable hl with ⟨_, hr, -⟩ | ⟨e', he, rfl⟩
    · cases hr
    · exact .inr ⟨e, rfl, rfl⟩

/-- What `InternalAttach` does once nothing is attached is a reload, whether or not it succeeds. -/
theorem session_attachFresh {r : Except Exception Unit}
    (h : t.attachFresh.Exec (W := t.Session) txn s r s') : Reloads s r s' := by
  simp only [TableInformation.attachFresh, TableInformation.loadManaged, t.managed, if_true,
    Prog.bind_eq, Prog.exec_bind, session_attachDatabase, session_setAttached] at h
  rcases h with ⟨managed, s₁, ⟨result, s₂, hl, hm⟩ | ⟨e, -, he⟩, h⟩ | ⟨e, hl, rfl⟩
  · obtain ⟨-, rfl⟩ := hm
    rcases session_loadCommits hl with ⟨_, wm, -, rfl⟩ | ⟨e, he, -⟩
    · rcases h with ⟨db, s₃, ⟨-, rfl⟩ | ⟨e, he, -⟩, ⟨-, rfl⟩⟩ | ⟨e, ⟨he, -⟩ | ⟨e', -, rfl⟩, -⟩
      · exact ⟨rfl, .inl ⟨rfl, rfl⟩, rfl, rfl, rfl⟩
      · cases he
      · cases he
      · exact ⟨rfl, .inl ⟨rfl, rfl⟩, rfl, rfl, rfl⟩
    · cases he
  · cases he
  · rcases hl with ⟨result, s₂, -, he⟩ | ⟨e', hl, -⟩
    · cases he.1
    · rcases session_loadCommits hl with ⟨_, wm, he, -⟩ | ⟨e'', -, rfl⟩
      · cases he
      · exact ⟨rfl, .inr ⟨rfl, e, rfl⟩, rfl, rfl, rfl⟩

/-- Whether the transaction has read the attached database, if there is one. -/
theorem session_readByThisTransaction {r : Except Exception Bool} :
    readByThisTransaction.Exec (W := t.Session) txn s r s' ↔
      s' = s ∧ ∃ b, r = .ok b ∧ (b = true ↔ s.HasRead txn) := by
  simp only [readByThisTransaction, Prog.bind_eq, Prog.exec_bind, session_attached]
  constructor
  · rintro (⟨db, s₁, ⟨hdb, rfl⟩, h⟩ | ⟨e, ⟨he, -⟩, -⟩)
    · obtain rfl := Except.ok.inj hdb
      rcases hs : s₁.attached with _ | db
      · rw [hs] at h
        obtain ⟨rfl, rfl⟩ := h
        refine ⟨rfl, false, rfl, ⟨nofun, ?_⟩⟩
        rintro ⟨db, hdb, -⟩
        rw [hs] at hdb
        cases hdb
      · rw [hs] at h
        obtain ⟨rfl, rfl⟩ := session_tryGetTransaction.1 h
        refine ⟨rfl, _, rfl, ?_⟩
        rw [decide_eq_true_iff]
        exact ⟨fun hm => ⟨db, hs, hm⟩, fun ⟨d, hd, hm⟩ => Option.some.inj (hs.symm.trans hd) ▸ hm⟩
    · cases he
  · rintro ⟨rfl, b, rfl, hb⟩
    refine .inl ⟨s'.attached, s', ⟨rfl, rfl⟩, ?_⟩
    rcases hs : s'.attached with _ | db
    · have : b = false := by
        cases b with
        | false => rfl
        | true =>
          obtain ⟨db, hdb, -⟩ := hb.1 rfl
          rw [hs] at hdb
          cases hdb
      exact ⟨congrArg Except.ok this, rfl⟩
    · refine session_tryGetTransaction.2 ⟨congrArg Except.ok ?_, rfl⟩
      have : s'.HasRead txn ↔ db ∈ s'.met txn :=
        ⟨fun ⟨d, hd, hm⟩ => Option.some.inj (hs.symm.trans hd) ▸ hm, fun hm => ⟨db, hs, hm⟩⟩
      rw [Bool.eq_iff_iff, hb, this, decide_eq_true_iff]

/-- A detach leaves nothing attached, with the rest as it was. -/
theorem session_internalDetach {r : Except Exception Unit} :
    t.internalDetach.Exec (W := t.Session) txn s r s' ↔
      r = .ok () ∧ s' = { s with attached := none } := by
  constructor
  · intro h
    simp only [TableInformation.internalDetach, Prog.bind_eq, Prog.exec_bind, session_attached] at h
    rcases h with ⟨db, s₁, ⟨hdb, rfl⟩, h⟩ | ⟨e, ⟨he, -⟩, -⟩
    · obtain rfl := Except.ok.inj hdb
      split at h
      · simp only [Prog.exec_bind, session_detachDatabase, session_setAttached] at h
        rcases h with ⟨_, s₂, ⟨-, rfl⟩, h⟩ | ⟨e, ⟨he, -⟩, -⟩
        · exact h
        · cases he
      · rename_i hnone
        obtain ⟨rfl, rfl⟩ := h
        have : s'.attached = none := by simpa using hnone
        exact ⟨rfl, by rw [← this]⟩
    · cases he
  · rintro ⟨rfl, rfl⟩
    refine Prog.exec_bind.2 (.inl ⟨_, s, session_attached.2 ⟨rfl, rfl⟩, ?_⟩)
    rcases hs : s.attached with _ | db
    · exact ⟨rfl, by rw [← hs]⟩
    · exact Prog.exec_bind.2
        (.inl ⟨(), s, session_detachDatabase.2 ⟨rfl, rfl⟩, session_setAttached.2 ⟨rfl, rfl⟩⟩)

/-- **`InternalAttach`**: it keeps what is attached where that is clean or was read by the calling
transaction, and loads the table again everywhere else. -/
theorem session_internalAttach {r : Except Exception Unit}
    (h : t.internalAttach.Exec (W := t.Session) txn s r s') :
    (r = .ok () ∧ s' = s ∧ s.attached ≠ none ∧ (s.is_dirty = true → s.HasRead txn)) ∨
      ((s.attached = none ∨ (s.is_dirty = true ∧ ¬ s.HasRead txn)) ∧ Reloads s r s') := by
  rw [TableInformation.internalAttach, session_withAttachLock] at h
  rcases Prog.exec_bind.1 h with ⟨b, s₁, hb, hrest⟩ | ⟨e, hb, -⟩
  · obtain ⟨rfl, b', hb', hread⟩ := session_readByThisTransaction.1 hb
    obtain rfl := Except.ok.inj hb'
    rcases Prog.exec_bind.1 hrest with ⟨d, s₂, hd, hend⟩ | ⟨e, hd, -⟩
    · obtain ⟨hd, rfl⟩ := session_isDirty.1 hd
      obtain rfl := Except.ok.inj hd
      -- what the end of the call does from a state `u`
      have tail : ∀ {u : SessionState}, (attached.bind fun db =>
          if db.isSome then pure () else t.attachFresh).Exec (W := t.Session) txn u r s' →
          (r = .ok () ∧ s' = u ∧ u.attached ≠ none) ∨ (u.attached = none ∧ Reloads u r s') := by
        intro u hu
        rcases Prog.exec_bind.1 hu with ⟨db, u₁, ha, hu⟩ | ⟨e, ha, -⟩
        · obtain ⟨ha, rfl⟩ := session_attached.1 ha
          obtain rfl := Except.ok.inj ha
          split at hu
          · rename_i hsome
            obtain ⟨rfl, rfl⟩ := hu
            refine .inl ⟨rfl, rfl, ?_⟩
            intro hn
            rw [hn] at hsome
            cases hsome
          · rename_i hnone
            exact .inr ⟨by simpa using hnone, session_attachFresh hu⟩
        · cases (session_attached.1 ha).1
      split at hend
      · rename_i hdrop
        obtain ⟨hdirty, hnot⟩ : s₂.is_dirty = true ∧ b = false := by simpa using hdrop
        have hnr : ¬ s₂.HasRead txn := by
          rw [← hread, hnot]
          exact Bool.false_ne_true
        rcases Prog.exec_bind.1 hend with ⟨_, s₃, hdet, hset⟩ | ⟨e, hdet, -⟩
        · obtain ⟨-, rfl⟩ := session_internalDetach.1 hdet
          rcases Prog.exec_bind.1 hset with ⟨_, s₄, hset, hend⟩ | ⟨e, hset, -⟩
          · obtain ⟨-, rfl⟩ := session_setDirty.1 hset
            rcases tail hend with ⟨-, -, hne⟩ | ⟨-, hre⟩
            · exact absurd rfl hne
            · exact .inr ⟨.inr ⟨hdirty, hnr⟩,
                ⟨hre.loads, hre.etag, hre.catalog, hre.met, hre.owed⟩⟩
          · cases (session_setDirty.1 hset).1
        · cases (session_internalDetach.1 hdet).1
      · rename_i hkeep
        rcases tail hend with ⟨rfl, rfl, hne⟩ | ⟨hnone, hre⟩
        · refine .inl ⟨rfl, rfl, hne, ?_⟩
          intro hdirty
          rw [← hread]
          simpa [hdirty] using hkeep
        · exact .inr ⟨.inl hnone, hre⟩
    · cases (session_isDirty.1 hd).1
  · obtain ⟨-, b', hb', -⟩ := session_readByThisTransaction.1 hb
    cases hb'

/-- **`UCDeltaCCV2CommitExecute`**: an acknowledged commit is taken, marks the table dirty and
leaves its etag; one that throws, taken or not, leaves the session as it was. -/
theorem session_commitExecute {res : StagedCommit} {r : Except Exception Unit}
    (h : (t.commitExecute res).Exec (W := t.Session) txn s r s') :
    ∃ etag cat, s.catalog.take (t.addCommit res s.commit_state) etag = some cat ∧
      ((∃ e, etag = some e ∧ r = .ok () ∧ s' = { s with
          catalog := cat, is_dirty := true, pending := none
          commit_state := { s.commit_state with etag := e } }) ∨
        ∃ e, r = .error e ∧ s' = { s with catalog := cat, pending := none }) := by
  rcases Prog.exec_bind.1 h with ⟨cs, s₁, hcs, h⟩ | ⟨e, hcs, -⟩
  · obtain ⟨hcs, rfl⟩ := session_readCommitState.1 hcs
    obtain rfl := Except.ok.inj hcs
    rcases Prog.exec_bind.1 h with ⟨new_etag, s₂, hu, h⟩ | ⟨e, hu, rfl⟩
    · obtain ⟨etag, cat, hcat, rfl, ⟨e, he, hetag⟩ | ⟨e, he⟩⟩ := session_updateTable hu
      · obtain rfl := Except.ok.inj he
        rcases Prog.exec_bind.1 h with ⟨_, s₃, hm, h⟩ | ⟨e, hm, -⟩
        · obtain ⟨-, rfl⟩ := session_setDirty.1 (session_withAttachLock.1 hm)
          obtain ⟨rfl, rfl⟩ := session_updateCommitState.1 h
          exact ⟨etag, cat, hcat, .inl ⟨new_etag, hetag, rfl, rfl⟩⟩
        · cases (session_setDirty.1 (session_withAttachLock.1 hm)).1
      · cases he
    · obtain ⟨etag, cat, hcat, rfl, ⟨e', he, -⟩ | -⟩ := session_updateTable hu
      · cases he
      · exact ⟨etag, cat, hcat, .inr ⟨e, rfl, rfl⟩⟩
  · cases (session_readCommitState.1 hcs).1

end ManagedTable

/-- A catalog-managed table, for the runs on fixed inputs. -/
def exampleManaged : ManagedTable := ⟨exampleTable, exampleTable_isCatalogManaged⟩

/-- An answer that carries an etag and nothing else. -/
def etagResponse (etag : String) : HttpResponse :=
  ⟨200, true, "", [], "\x7b\"metadata\":\x7b\"etag\":\"" ++ etag ++ "\"\x7d\x7d"⟩

/-- An answer that refuses. -/
def conflictResponse : HttpResponse := ⟨409, false, "Conflict", [], ""⟩

end UnityCatalog
