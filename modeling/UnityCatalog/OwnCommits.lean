import UnityCatalog.LateEtags

/-!
# Own commits

The threads of `LateEtags` with a clock, the version the catalog has the table at: when a request
went out, when the catalog handled it, which commits had returned when a transaction began, and what
an `InternalAttach` left attached: what it gave `AttachDatabase`, and the `LoadTable` response it
had. A transaction reads the attached database behind an `InternalAttach` of its own, as
`deltaTable` does and every other caller.

What is attached and not dirty is made of a response that was asked for after every commit that has
marked the table (`ClockedInv.clean`), because the mark is cleared under the lock, with nothing
attached, before the request goes out. So no `InternalAttach` of a transaction begun after a commit
returned leaves less (`session_reads_own_commits`).
-/

namespace UnityCatalog

open Effectful

/-! ## The clock -/

/-- An attached database: what `AttachDatabase` was given, the last `LoadTable` response of the
thread that attached it, and the version at which that had been asked for. -/
structure Built where
  info : AttachInfo
  result : UCAPICommitsResult
  asked : ℕ

/-- One session, its threads and the catalog, with what happened when. -/
structure ClockedState extends EtagState where
  /-- the version at which each thread's last request went out -/
  asked : ℕ → ℕ := fun _ => 0
  /-- and with which the catalog handled it -/
  handled_at : ℕ → Option ℕ := fun _ => none
  /-- the table it was answered with, if it was a `LoadTable`, and the version at which it went
  out -/
  got : ℕ → Option (UCAPICommitsResult × ℕ) := fun _ => none
  /-- the database each thread attached last, and what it was attached with -/
  made : ℕ → Option (AttachedDatabase × AttachInfo) := fun _ => none
  /-- what the attached database was built from -/
  built : Option Built := none
  /-- the versions of the commits that marked the table dirty -/
  marked : List ℕ := []
  /-- the versions of the commits whose call returned -/
  returned : List ℕ := []
  /-- those that had returned when a transaction began -/
  begun : ℕ → Option (List ℕ) := fun _ => none
  /-- the transaction each thread last attached in -/
  txn : ℕ → ℕ := fun _ => 0
  /-- the transactions that attached a database or found one attached -/
  touched : List ℕ := []
  /-- what a thread left attached -/
  left : ℕ → Option Built := fun _ => none
  /-- each `InternalAttach` that succeeded, its transaction and what it left -/
  succeeded : List (ℕ × Option Built) := []

/-- A transaction that has attached nothing and found nothing attached has read nothing. -/
def ClockedState.mayAnswer (s : ClockedState) (thread : ℕ) : Op → EtagChoice → Bool
  | .tryGetTransaction _, .flag true => s.txn thread ∈ s.touched
  | _, _ => true

namespace ManagedTable

variable (t : ManagedTable)

/-- The `LoadTable` request for the table. -/
def loadRequest : HttpRequest where
  method := .get
  url := tableUrl t.credentials t.table_data.catalog_name t.table_data.schema_name t.table_data.name
  token := t.credentials.token
  body := .empty

/-- The database is the table's, up to the version the response says, and with the commits of the
response that need not be in the log yet. -/
structure MadeOf (info : AttachInfo) (result : UCAPICommitsResult) : Prop where
  path : info.path = t.table_data.storage_location
  max_catalog_version : info.options.lookup "max_catalog_version" =
    some (.bigint (int64 result.ratified_version))
  log_tail : info.options.lookup "log_tail" = if result.commits = [] then none else
    some (buildLogTailFromCommits result t.table_data.storage_location)

/-- It is, and the response was asked for at no earlier version than any of `vs`. -/
def BuiltSince (b : Built) (vs : List ℕ) : Prop :=
  t.MadeOf b.info b.result ∧ ∀ w ∈ vs, w ≤ b.asked

/-- The clock after an operation of a thread and its answer. -/
def tick (s : ClockedState) (thread : ℕ) (s' : EtagState) :
    (op : Op) → Except Exception op.Ans → ClockedState
  | .issue _, _ => { s with
      toEtagState := s'
      asked := Function.update s.asked thread s.catalog.version
      handled_at := Function.update s.handled_at thread none
      got := Function.update s.got thread none }
  | .answer, .ok resp => { s with
      toEtagState := s'
      got := if s.pending thread = some t.loadRequest then
          Function.update s.got thread ((t.loadOutcome resp).toOption.map fun result =>
            (result, s.asked thread))
        else s.got }
  | .attachDatabase info, .ok db => { s with
      toEtagState := s', made := Function.update s.made thread (some (db, info)) }
  | .setDirty true, _ => { s with
      toEtagState := s', marked := (s.handled_at thread).toList ++ s.marked }
  | .setAttached (some db), _ => { s with
      toEtagState := s'
      built := match s.made thread, s.got thread with
        | some (db', info), some (result, asked) => if db' =
          db then some ⟨info, result, asked⟩ else none
        | _, _ => none
      touched := s.txn thread :: s.touched }
  | .unlockAttach, _ => { s with
      toEtagState := s'
      left := Function.update s.left thread (s.attached.bind fun _ => s.built) }
  | _, _ => { s with toEtagState := s' }

end ManagedTable

/-- What else happens. -/
inductive ClockedEnv where
  | catalog (e : EtagEnv)
  /-- a transaction begins -/
  | begin (txn : ℕ)

/-- What a thread can be asked to run. -/
inductive ClockedCall where
  /-- an `InternalAttach` in a transaction -/
  | attach (txn : ℕ)
  | commit (res : StagedCommit)

namespace ManagedTable

variable (t : ManagedTable)

/-- The operations. -/
def clockedAnswer (thread : ℕ) (s : ClockedState) (op : Op) (ch : EtagChoice) :
    Option (Except Exception op.Ans × ClockedState) :=
  if s.mayAnswer thread op ch then
    (t.etagAnswer thread s.toEtagState op ch).map fun r => (r.1, t.tick s thread r.2 op r.1)
  else none

/-- The threads. -/
def clockedThreads : Pool Client Exception Unit where
  Ctx := ℕ
  State := ClockedState
  Choice := EtagChoice
  answer thread s op ch := t.clockedAnswer thread s op ch
  Call := ClockedCall
  start s thread
    | .attach txn =>
      if s.begun txn = none then none
      else (t.threads.start s.toEtagState thread .attach).map fun r =>
        (r.1, { s with toEtagState := r.2, txn := Function.update s.txn thread txn })
    | .commit res => (t.threads.start s.toEtagState thread (.commit res)).map fun r =>
        (r.1, { s with toEtagState := r.2 })
  finish s thread
    | .ok _ =>
      if thread ∈ s.committing then { s with
        toEtagState := t.threads.finish s.toEtagState thread (.ok ())
        returned := (s.handled_at thread).toList ++ s.returned }
      else { s with
        toEtagState := t.threads.finish s.toEtagState thread (.ok ())
        touched := s.txn thread :: s.touched
        succeeded := (s.txn thread, s.left thread) :: s.succeeded }
    | .error e => { s with toEtagState := t.threads.finish s.toEtagState thread (.error e) }
  Env := ClockedEnv
  env s
    | .catalog e => (t.threads.env s.toEtagState e).map fun s' => { s with
        toEtagState := s'
        handled_at := match e with
          | .load thread => Function.update s.handled_at thread (some s'.catalog.version)
          | .ratify thread _ => Function.update s.handled_at thread (some s'.catalog.version)
          | .outside _ => s.handled_at }
    | .begin txn =>
      if s.begun txn = none then
        some { s with begun := Function.update s.begun txn (some s.returned) }
      else none
  init s := s = { catalog := ⟨s.catalog.etag, s.catalog.version, []⟩ }

instance : DecidableEq t.clockedThreads.Ctx := inferInstanceAs (DecidableEq ℕ)

end ManagedTable

/-! ## The invariant -/

namespace ManagedTable

variable (t : ManagedTable)

/-- Whatever is attached was built from a response asked for at no earlier version than any of
`vs`. -/
def Covers (s : ClockedState) (vs : List ℕ) : Prop :=
  s.attached ≠ none → ∃ b, s.built = some b ∧ t.BuiltSince b vs

/-- How the flag, what is attached and the clock fit together. -/
structure ClockedInv (s : ClockedState) : Prop where
  clean : s.is_dirty = false → t.Covers s s.marked
  handled : ∀ c, s.handled c ≠ none → s.handled_at c ≠ none
  handled_le : ∀ c v, s.handled_at c = some v → v ≤ s.catalog.version
  marked_le : ∀ v ∈ s.marked, v ≤ s.catalog.version
  returned : s.returned ⊆ s.marked
  begun : ∀ txn vs, s.begun txn = some vs → vs ⊆ s.marked
  touched : ∀ txn ∈ s.touched, ∃ vs, s.begun txn = some vs ∧ t.Covers s vs
  succeeded : ∀ txn left, (txn, left) ∈ s.succeeded → ∃ vs b, s.begun txn = some vs ∧
    left = some b ∧ t.BuiltSince b vs

/-- What a thread relies on: nobody else touches its requests and answers, nor what `attach_lock`
protects while it holds it, and what is attached only gets newer. -/
structure ClockedRely (c : ℕ) (s s' : ClockedState) : Prop where
  pending : s'.pending c = s.pending c
  asked : s'.asked c = s.asked c
  got : s'.got c = s.got c
  made : s'.made c = s.made c
  handled_at : s.pending c = none → s'.handled_at c = s.handled_at c
  committing : c ∈ s'.committing ↔ c ∈ s.committing
  txn : s'.txn c = s.txn c
  left : s'.left c = s.left c
  begun : ∀ txn vs, s.begun txn = some vs → s'.begun txn = some vs
  marked : s.marked ⊆ s'.marked
  covers : ∀ vs, vs ⊆ s.marked → t.Covers s vs → t.Covers s' vs
  locked : s.attach_lock = some c → s'.attach_lock = some c ∧ s'.is_dirty = s.is_dirty ∧
    s'.attached = s.attached ∧ s'.marked = s.marked

variable {t}

/-- What was built after some commits was built after any of them. -/
theorem BuiltSince.subset {b : Built} {vs ws : List ℕ} (h : t.BuiltSince b ws) (hsub : vs ⊆ ws) :
    t.BuiltSince b vs :=
  ⟨h.1, fun w hw => h.2 w (hsub hw)⟩

/-- A state that covers some commits covers any of them. -/
theorem Covers.subset {s : ClockedState} {vs ws : List ℕ} (h : t.Covers s ws) (hsub : vs ⊆ ws) :
    t.Covers s vs := by
  intro hatt
  obtain ⟨b, hb, hsince⟩ := h hatt
  exact ⟨b, hb, hsince.subset hsub⟩

/-- A thread may rely on what it relies on where nothing happened. -/
theorem ClockedRely.refl (c : ℕ) (s : ClockedState) : t.ClockedRely c s s :=
  ⟨rfl, rfl, rfl, rfl, fun _ => rfl, .rfl, rfl, rfl, fun _ _ h => h, fun _ h => h, fun _ _ h => h,
    fun h => ⟨h, rfl, rfl, rfl⟩⟩

/-- What a thread relies on holds over any number of the others' steps. -/
theorem ClockedRely.trans {c : ℕ} {s s' u : ClockedState} (h : t.ClockedRely c s s')
    (h' : t.ClockedRely c s' u) : t.ClockedRely c s u where
  pending := h'.pending.trans h.pending
  asked := h'.asked.trans h.asked
  got := h'.got.trans h.got
  made := h'.made.trans h.made
  handled_at hp := (h'.handled_at (h.pending.trans hp)).trans (h.handled_at hp)
  committing := h'.committing.trans h.committing
  txn := h'.txn.trans h.txn
  left := h'.left.trans h.left
  begun txn vs hb := h'.begun txn vs (h.begun txn vs hb)
  marked := fun _ hw => h'.marked (h.marked hw)
  covers vs hsub hc := h'.covers vs (fun _ hw => h.marked (hsub hw)) (h.covers vs hsub hc)
  locked hl := by
    obtain ⟨hl₁, hd₁, ha₁, hm₁⟩ := h.locked hl
    obtain ⟨hl₂, hd₂, ha₂, hm₂⟩ := h'.locked hl₁
    exact ⟨hl₂, hd₂.trans hd₁, ha₂.trans ha₁, hm₂.trans hm₁⟩

variable (t)

/-- The threads under the invariant, whatever they are answered. -/
def keepingTime : Outline t.clockedThreads where
  guard := ⟨fun _ _ _ _ => True, fun _ _ => True⟩
  inv := t.ClockedInv
  rely := t.ClockedRely
  rely_refl := .refl
  rely_trans _ _ _ _ h h' := h.trans h'

variable {t} {c : ℕ} {vs : List ℕ} {s s' : ClockedState}

/-! ## Operations -/

end ManagedTable

namespace ManagedTable

variable {t : ManagedTable} {c : ℕ} {vs : List ℕ} {s s' : ClockedState}

/-- `c` is in an `InternalAttach` of a transaction that began behind `vs`. -/
structure Attaching (c : ℕ) (vs : List ℕ) (s : ClockedState) : Prop where
  attaching : c ∉ s.committing
  begun : s.begun (s.txn c) = some vs

/-- And holds `attach_lock`. -/
structure Locked (c : ℕ) (vs : List ℕ) (s : ClockedState) : Prop extends Attaching c vs s where
  lock : s.attach_lock = some c

/-- And nothing is attached. -/
structure Bare (c : ℕ) (vs : List ℕ) (s : ClockedState) : Prop extends Locked c vs s where
  attached : s.attached = none

/-- That a thread is in an `InternalAttach` is left alone by the others. -/
theorem stable_attaching : t.keepingTime.Stable c (Attaching c vs) :=
  fun _ _ hr _ _ h => ⟨fun hc => h.attaching (hr.committing.1 hc),
    (congrArg _ hr.txn).trans (hr.begun _ _ h.begun)⟩

/-- That it holds the `attach_lock` is left alone by the others, who wait for it. -/
theorem stable_locked : t.keepingTime.Stable c (Locked c vs) :=
  fun u v hr hu hv h =>
    ⟨stable_attaching (t := t) u v hr hu hv h.toAttaching, (hr.locked h.lock).1⟩

/-- What an operation of `c` leaves alone that others rely on, apart from what the lock protects. -/
structure Spares (c : ℕ) (s s' : ClockedState) : Prop where
  pending : s'.pending = s.pending
  asked : s'.asked = s.asked
  got : s'.got = s.got
  made : s'.made = s.made
  handled_at : s'.handled_at = s.handled_at
  committing : s'.committing = s.committing
  txn : s'.txn = s.txn
  begun : s'.begun = s.begun
  left : ∀ d, d ≠ c → s'.left d = s.left d

/-- A step that spares the database, with the lock held, is one the others may rely on. -/
theorem Spares.rely {d : ℕ} (h : Spares c s s') (hd : d ≠ c) (hm : s.marked ⊆ s'.marked)
    (hcov : ∀ ws, ws ⊆ s.marked → t.Covers s ws → t.Covers s' ws)
    (hlock : s.attach_lock = some c) : t.ClockedRely d s s' where
  pending := by rw [h.pending]
  asked := by rw [h.asked]
  got := by rw [h.got]
  made := by rw [h.made]
  handled_at _ := by rw [h.handled_at]
  committing := by rw [h.committing]
  txn := by rw [h.txn]
  left := h.left d hd
  begun txn ws hws := by rw [h.begun, hws]
  marked := hm
  covers := hcov
  locked hl := absurd (Option.some.inj (hlock.symm.trans hl)).symm hd

variable (t) in
/-- What `c` left attached is no older than `vs`, and what is attached now is not either. -/
structure Left (c : ℕ) (vs : List ℕ) (s : ClockedState) : Prop extends Attaching c vs s where
  covers : t.Covers s vs
  left : ∃ b, s.left c = some b ∧ t.BuiltSince b vs

/-- And the catalog took its commit. -/
structure Taken (c : ℕ) (s : ClockedState) : Prop where
  committing : c ∈ s.committing
  pending : s.pending c = none
  handled : s.handled_at c ≠ none

/-- And it marked the table. -/
structure Marked (c : ℕ) (s : ClockedState) : Prop extends Taken c s where
  marked : ∀ v, s.handled_at c = some v → v ∈ s.marked

end ManagedTable

end UnityCatalog
