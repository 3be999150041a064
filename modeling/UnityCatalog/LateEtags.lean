import UnityCatalog.Session
import UnityCatalog.Threads

/-!
# Etags stored late

The threads of one session on one catalog-managed table, operation by operation, each in a call of
`InternalAttach` or `UCDeltaCCV2CommitExecute`, while other clients commit too. A commit marks the
table dirty under `attach_lock` and stores its etag under the lock of `commit_state`, and holds
neither in between: a whole `InternalAttach` fits there, which clears the mark and publishes the
etag of a newer commit.

What is attached and not dirty goes with the etag in `commit_state` as long as no commit stores its
etag over the one published after its mark was cleared.
-/

namespace UnityCatalog

open Effectful

/-! ## The threads -/

/-- One session, its threads and the catalog. -/
structure EtagState where
  catalog : CatalogTable
  is_dirty : Bool := false
  attached : Option AttachedDatabase := none
  commit_state : UCCommitState := {}
  /-- who holds `attach_lock` -/
  attach_lock : Option ℕ := none
  /-- the request each thread waits for -/
  pending : ℕ → Option HttpRequest := fun _ => none
  /-- the etag the catalog handled it with -/
  handled : ℕ → Option String := fun _ => none
  /-- the etag of the last `LoadTable` response each thread got -/
  loaded : ℕ → Option String := fun _ => none
  /-- the threads in a commit call -/
  committing : List ℕ := []
  /-- the etag that acknowledged a thread's commit -/
  acknowledged : ℕ → Option String := fun _ => none
  /-- the etag published by the `InternalAttach` of what is attached, or about to be -/
  published : Option String := none
  /-- the etag of the `LoadTable` response that built the attached database -/
  built_from : Option String := none

/-- `a` was the table's etag before `b` was. -/
def CatalogTable.Older (cat : CatalogTable) (a b : String) : Prop :=
  List.Sublist [b, a] (cat.etag :: cat.used)

/-- With no commit running, what is attached and clean goes with an etag that is not older than the
one it was built from, and not empty if that was not. -/
def EtagState.KeepsEtag (s : EtagState) : Prop :=
  s.attached ≠ none → s.is_dirty = false → s.committing = [] →
    ∃ etag, s.built_from = some etag ∧ (etag ≠ "" →
      s.commit_state.etag ≠ "" ∧ ¬ s.catalog.Older s.commit_state.etag etag)

/-- What the surroundings may do with an operation. -/
inductive EtagChoice where
  | proceed
  | respond (resp : HttpResponse)
  | fail (e : Exception)
  | flag (b : Bool)
  | database (db : AttachedDatabase)
  | size (n : ℕ)
  | bytes (bs : Bytes)

/-- What else happens. -/
inductive EtagEnv where
  /-- the catalog reads the table for a thread's request -/
  | load (thread : ℕ)
  /-- it takes a thread's commit -/
  | ratify (thread : ℕ) (etag : String)
  /-- it takes another client's -/
  | outside (etag : String)

/-- What a thread can be asked to run. -/
inductive EtagCall where
  | attach
  | commit (res : StagedCommit)

namespace ManagedTable

variable (t : ManagedTable)

/-- The answer to a request. It carries the etag the catalog handled it with, or none, or it is an
error, handled or not. -/
def etagReply (s : EtagState) (thread : ℕ) (req : HttpRequest) :
    EtagChoice → Option (Except Exception HttpResponse × EtagState)
  | .respond resp =>
    match req.body with
    | .addCommit _ =>
      match t.updateOutcome resp with
      | .ok etag =>
        if s.handled thread ≠ none ∧ (etag = "" ∨ s.handled thread = some etag) then
          some (.ok resp, { s with
            pending := Function.update s.pending thread none
            acknowledged := Function.update s.acknowledged thread (some etag) })
        else none
      | .error _ => some (.ok resp, { s with pending := Function.update s.pending thread none })
    | _ =>
      match t.loadOutcome resp with
      | .ok result =>
        if s.handled thread ≠ none ∧ (result.etag = "" ∨ s.handled thread = some result.etag) then
          some (.ok resp, { s with
            pending := Function.update s.pending thread none
            loaded := Function.update s.loaded thread (some result.etag) })
        else none
      | .error _ => some (.ok resp, { s with pending := Function.update s.pending thread none })
  | .fail e => some (.error e, { s with pending := Function.update s.pending thread none })
  | _ => none

/-- The operations. Files and attachments may fail at any point, and whether the calling transaction
has read what is attached depends on its other statements. -/
def etagAnswer (thread : ℕ) (s : EtagState) : (op : Op) → EtagChoice →
    Option (Except Exception op.Ans × EtagState)
  | .ensureHttpfs, .proceed => some (.ok (), s)
  | .ensureHttpfs, .fail e => some (.error e, s)
  | .issue req, .proceed => some (.ok (), { s with
      pending := Function.update s.pending thread (some req)
      handled := Function.update s.handled thread none })
  | .answer, ch => (s.pending thread).bind fun req => t.etagReply s thread req ch
  | .lockAttach, .proceed =>
    if s.attach_lock = none then some (.ok (), { s with attach_lock := some thread }) else none
  | .unlockAttach, .proceed => some (.ok (), { s with
      attach_lock := none
      published := if s.attached = none then none else s.published })
  | .isDirty, .proceed => some (.ok s.is_dirty, s)
  | .setDirty b, .proceed => some (.ok (), { s with
      is_dirty := b, published := if b then s.published else none })
  | .attached, .proceed => some (.ok s.attached, s)
  | .setAttached none, .proceed => some (.ok (), { s with attached := none })
  | .setAttached (some db), .proceed => some (.ok (), { s with
      attached := some db, built_from := s.loaded thread })
  | .readCommitState, .proceed => some (.ok s.commit_state, s)
  | .updateCommitState f, .proceed => some (.ok (), { s with
      commit_state := f s.commit_state
      published := if thread ∈ s.committing then s.published else some (f s.commit_state).etag })
  | .tryGetTransaction _, .flag b => some (.ok b, s)
  | .attachDatabase _, .database db => some (.ok db, s)
  | .attachDatabase _, .fail e => some (.error e, s)
  | .detachDatabase _, .proceed => some (.ok (), s)
  | .detachDatabase _, .fail e => some (.error e, s)
  | .openRead _, .size n => some (.ok n, s)
  | .openRead _, .fail e => some (.error e, s)
  | .openExclusive _, .flag b => some (.ok b, s)
  | .openExclusive _, .fail e => some (.error e, s)
  | .readFile _ _, .bytes bs => some (.ok bs, s)
  | .readFile _ _, .fail e => some (.error e, s)
  | .writeFile _ _, .proceed => some (.ok (), s)
  | .writeFile _ _, .fail e => some (.error e, s)
  | .closeFile _, .proceed => some (.ok (), s)
  | .closeFile _, .fail e => some (.error e, s)
  | _, _ => none

/-- The threads. -/
def threads : Pool Client Exception Unit where
  Ctx := ℕ
  State := EtagState
  Choice := EtagChoice
  answer thread s op ch := t.etagAnswer thread s op ch
  Call := EtagCall
  start s thread
    | .attach => some (t.internalAttach, { s with
        committing := s.committing.filter (· ≠ thread) })
    | .commit res => some (t.commitExecute res, { s with
        committing := thread :: s.committing
        acknowledged := Function.update s.acknowledged thread none })
  finish s thread _ := { s with committing := s.committing.filter (· ≠ thread) }
  Env := EtagEnv
  env s
    | .load thread => (s.pending thread).bind fun req =>
      match req.body with
      | .addCommit _ => none
      | _ => some { s with handled := Function.update s.handled thread (some s.catalog.etag) }
    | .ratify thread etag => (s.pending thread).bind fun req =>
      match req.body with
      | .addCommit c => (s.catalog.take c (some etag)).map fun cat => { s with
          catalog := cat, handled := Function.update s.handled thread (some etag) }
      | _ => none
    | .outside etag =>
      if etag ∉ s.catalog.etag :: s.catalog.used then
        some { s with catalog := s.catalog.ratify etag }
      else none
  init s := s = { catalog := ⟨s.catalog.etag, s.catalog.version, []⟩ }

instance : DecidableEq t.threads.Ctx := inferInstanceAs (DecidableEq ℕ)

/-- The runs in which no commit stores its etag over another that an `InternalAttach` published
after it cleared `is_dirty`. -/
def storesInTime : Guard t.threads where
  op s thread op _ := (∃ f, op = .updateCommitState f) → thread ∈ s.committing →
    s.is_dirty = false → ∀ etag, s.published = some etag → etag ≠ "" →
      s.acknowledged thread = some etag
  env _ _ := True

end ManagedTable

/-! ## The invariant -/

/-- How the flag, what is attached and the etags fit together. -/
structure EtagInv (s : EtagState) : Prop where
  history : (s.catalog.etag :: s.catalog.used).Nodup
  kept : s.is_dirty = false → ∀ etag, s.published = some etag → etag ≠ "" →
    s.commit_state.etag = etag
  built : s.attached ≠ none → ∃ etag, s.built_from = some etag ∧ s.published = some etag

/-- What a thread relies on: nobody else touches its requests, nor what `attach_lock` protects while
it holds it. -/
structure EtagRely (c : ℕ) (s s' : EtagState) : Prop where
  pending : s'.pending c = s.pending c
  loaded : s'.loaded c = s.loaded c
  committing : c ∈ s'.committing ↔ c ∈ s.committing
  acknowledged : s'.acknowledged c = s.acknowledged c
  locked : s.attach_lock = some c → s'.attach_lock = some c ∧ s'.is_dirty = s.is_dirty ∧
    s'.attached = s.attached ∧ s'.published = s.published

theorem EtagRely.refl (c : ℕ) (s : EtagState) : EtagRely c s s :=
  ⟨rfl, rfl, .rfl, rfl, fun h => ⟨h, rfl, rfl, rfl⟩⟩

theorem EtagRely.trans {c : ℕ} {s t u : EtagState} (h : EtagRely c s t) (h' : EtagRely c t u) :
    EtagRely c s u where
  pending := h'.pending.trans h.pending
  loaded := h'.loaded.trans h.loaded
  committing := h'.committing.trans h.committing
  acknowledged := h'.acknowledged.trans h.acknowledged
  locked hl := by
    obtain ⟨hl₁, hd₁, ha₁, hp₁⟩ := h.locked hl
    obtain ⟨hl₂, hd₂, ha₂, hp₂⟩ := h'.locked hl₁
    exact ⟨hl₂, hd₂.trans hd₁, ha₂.trans ha₁, hp₂.trans hp₁⟩

/-- What is left of a thread's own part, the lock and all it protects: any two threads can rely on
it. -/
theorem EtagRely.of_unlocked {c : ℕ} {s s' : EtagState} (hp : s'.pending c = s.pending c)
    (hl : s'.loaded c = s.loaded c) (hc : c ∈ s'.committing ↔ c ∈ s.committing)
    (ha : s'.acknowledged c = s.acknowledged c) (hlock : s.attach_lock ≠ some c) :
    EtagRely c s s' :=
  ⟨hp, hl, hc, ha, fun h => absurd h hlock⟩

theorem not_older_self {cat : CatalogTable} (h : (cat.etag :: cat.used).Nodup) (a : String) :
    ¬ cat.Older a a := by
  intro hold
  have := hold.nodup h
  simp at this

/-- The etag that is kept is the very one the database was built from. -/
theorem EtagInv.keepsEtag {s : EtagState} (hs : EtagInv s) : s.KeepsEtag := by
  intro hatt hclean _
  obtain ⟨etag, hbuilt, hpub⟩ := hs.built hatt
  refine ⟨etag, hbuilt, fun hne => ?_⟩
  rw [hs.kept hclean etag hpub hne]
  exact ⟨hne, not_older_self hs.history etag⟩

/-- The operations that only ask. -/
def Op.IsQuestion : Op → Prop
  | .ensureHttpfs => True
  | .isDirty => True
  | .attached => True
  | .readCommitState => True
  | .tryGetTransaction _ => True
  | .attachDatabase _ => True
  | .detachDatabase _ => True
  | op => op.IsFile

namespace ManagedTable

variable (t : ManagedTable)

/-- The threads under the invariant. -/
def keepingEtags : Outline t.threads where
  guard := t.storesInTime
  inv := EtagInv
  rely := EtagRely
  rely_refl := .refl
  rely_trans _ _ _ _ h h' := h.trans h'

variable {t} {c : ℕ} {s s' : EtagState}

/-! ## Operations -/

theorem etagAnswer_question {op : Op} {ch : EtagChoice} {x : Except Exception op.Ans}
    (hop : op.IsQuestion) (h : t.etagAnswer c s op ch = some (x, s')) : s' = s := by
  cases op <;> first | exact absurd hop not_false | skip
  all_goals
    cases ch <;> cases h <;> rfl

theorem safe_questions {α : Type} {p : Run α} {Q : EtagState → Prop} (hp : p.Uses Op.IsQuestion)
    (hQ : t.keepingEtags.Stable c Q) (hs : EtagInv s) (hq : Q s) :
    t.keepingEtags.Safe c p (fun _ => Q) s :=
  Outline.safe_of_uses hp (fun _ _ _ _ _ hop ha => etagAnswer_question hop ha) hQ hs hq

/-- `c` holds `attach_lock`, in a call of `InternalAttach`. -/
structure Holding (c : ℕ) (s : EtagState) : Prop where
  lock : s.attach_lock = some c
  attaching : c ∉ s.committing

/-- And nothing is attached. -/
structure Detached (c : ℕ) (s : EtagState) : Prop extends Holding c s where
  attached : s.attached = none

theorem stable_holding : t.keepingEtags.Stable c (Holding c) :=
  fun _ _ hr _ _ h => ⟨(hr.locked h.lock).1, fun hc => h.attaching (hr.committing.1 hc)⟩

theorem stable_detached : t.keepingEtags.Stable c (Detached c) :=
  fun u v hr hu hv h =>
    ⟨stable_holding (t := t) u v hr hu hv h.toHolding, (hr.locked h.lock).2.2.1.trans h.attached⟩

/-- What is attached does not change under the lock. -/
theorem safe_attached (h : Holding c s) (hs : EtagInv s) : t.keepingEtags.Safe c attached
    (fun x s => Holding c s ∧ x = .ok s.attached) s := by
  refine Outline.safe_perform ?_ ?_
  · intro x u v hr hu hv ⟨h, hx⟩
    refine ⟨stable_holding (t := t) u v hr hu hv h, ?_⟩
    rw [hx, (hr.locked h.lock).2.2.1]
  · intro s₁ hr hs₁ ch x s₂ _ ha
    have h₁ := stable_holding (t := t) s s₁ hr hs hs₁ h
    cases ch <;> cases ha
    exact ⟨hs₁, fun d _ => .refl d _, h₁, rfl⟩

/-- The holder of the lock changes what it protects, in a way that keeps the invariant. -/
theorem safe_protected {op : Op} {Q R : EtagState → Prop} (hQ : t.keepingEtags.Stable c Q)
    (hR : t.keepingEtags.Stable c R) (hlock : ∀ s, Q s → s.attach_lock = some c)
    (h : ∀ s ch x s', EtagInv s → Q s → t.etagAnswer c s op ch = some (x, s') →
      EtagInv s' ∧ R s' ∧ s'.pending = s.pending ∧ s'.loaded = s.loaded ∧
        s'.committing = s.committing ∧ s'.acknowledged = s.acknowledged)
    (hs : EtagInv s) (hq : Q s) :
    t.keepingEtags.Safe c (Prog.perform op) (fun _ => R) s := by
  refine Outline.safe_perform (fun _ => hR) ?_
  intro s₁ hr hs₁ ch x s₂ _ ha
  have hq₁ := hQ s s₁ hr hs hs₁ hq
  obtain ⟨hs₂, hR₂, hp, hl, hc, hack⟩ := h s₁ ch x s₂ hs₁ hq₁ ha
  refine ⟨hs₂, fun d hd => ?_, hR₂⟩
  refine .of_unlocked (by rw [hp]) (by rw [hl]) (by rw [hc]) (by rw [hack]) ?_
  rw [hlock s₁ hq₁]
  exact fun h => hd (Option.some.inj h).symm

/-! ## `InternalAttach` -/

/-- The loaded etag is the calling thread's. -/
structure Loaded (c : ℕ) (etag : String) (s : EtagState) : Prop extends Detached c s where
  loaded : s.loaded c = some etag

/-- And it is published. -/
structure Published (c : ℕ) (etag : String) (s : EtagState) : Prop extends Loaded c etag s where
  published : s.published = some etag

theorem stable_loaded (etag : String) : t.keepingEtags.Stable c (Loaded c etag) :=
  fun u v hr hu hv h =>
    ⟨stable_detached (t := t) u v hr hu hv h.toDetached, hr.loaded.trans h.loaded⟩

theorem stable_published (etag : String) : t.keepingEtags.Stable c (Published c etag) :=
  fun u v hr hu hv h => ⟨stable_loaded (t := t) etag u v hr hu hv h.toLoaded,
    (hr.locked h.lock).2.2.2.trans h.published⟩

theorem safe_internalDetach (hs : EtagInv s) (h : Holding c s) :
    t.keepingEtags.Safe c t.internalDetach
      (fun r s => Holding c s ∧ ∀ a, r = .ok a → Detached c s) s := by
  have hstable (r : Except Exception Unit) : t.keepingEtags.Stable c
      fun s => Holding c s ∧ ∀ a, r = .ok a → Detached c s := fun u v hr hu hv ⟨h, hok⟩ =>
    ⟨stable_holding (t := t) u v hr hu hv h, fun a ha =>
      stable_detached (t := t) u v hr hu hv (hok a ha)⟩
  refine Outline.Safe.bind (safe_attached h hs) hs ?_ ?_
  · rintro db s₁ hs₁ ⟨h₁, hdb⟩
    obtain rfl := Except.ok.inj hdb
    split
    · refine Outline.Safe.bind (safe_questions (Prog.uses_perform trivial) stable_holding hs₁ h₁)
        hs₁ (fun _ s₂ hs₂ h₂ => ?_) fun e s₂ hs₂ h₂ => ?_
      · -- what is attached is let go
        refine (safe_protected stable_holding stable_detached (fun _ h => h.lock)
          (fun u ch x u' hu h ha => ?_) hs₂ h₂).mono fun r s h => ⟨h.toHolding, fun _ _ => h⟩
        cases ch <;> cases ha
        exact ⟨⟨hu.history, hu.kept, fun h => absurd rfl h⟩, ⟨⟨h.lock, h.attaching⟩, rfl⟩, rfl, rfl,
          rfl, rfl⟩
      · exact Outline.safe_ofExcept (x := .error e) (hstable _) hs₂ ⟨h₂, nofun⟩
    · rename_i hnone
      refine Outline.safe_ofExcept (x := .ok ()) (hstable _) hs₁ ⟨h₁, fun _ _ => ⟨h₁, ?_⟩⟩
      simpa using hnone
  · rintro e s₁ hs₁ ⟨-, he⟩
    cases he

/-- What `LoadTable` returns is what the thread was answered. -/
theorem safe_loadAnswer {req : HttpRequest} (hreq : req.body = .empty) (hs : EtagInv s)
    (h : Detached c s) (hp : s.pending c = some req) :
    t.keepingEtags.Safe c answer (fun x s => Detached c s ∧
      ∀ result, (x.bind fun resp => t.loadOutcome resp) = .ok result →
        s.loaded c = some result.etag) s := by
  refine Outline.safe_perform ?_ ?_
  · intro x u v hr hu hv ⟨h, hok⟩
    exact ⟨stable_detached (t := t) u v hr hu hv h,
      fun result hres => hr.loaded.trans (hok result hres)⟩
  · intro s₁ hr hs₁ ch x s₂ _ ha
    have h₁ := stable_detached (t := t) s s₁ hr hs hs₁ h
    have hp₁ : s₁.pending c = some req := hr.pending.trans hp
    have hreply : t.etagReply s₁ c req ch = some (x, s₂) := by
      have : ((s₁.pending c).bind fun req => t.etagReply s₁ c req ch) = some (x, s₂) := ha
      rwa [hp₁] at this
    cases ch with
    | respond resp =>
      simp only [etagReply, hreq] at hreply
      split at hreply
      · rename_i result hok
        split at hreply
        · obtain ⟨rfl, rfl⟩ := Prod.mk.inj (Option.some.inj hreply)
          refine ⟨⟨hs₁.history, hs₁.kept, hs₁.built⟩, fun d hd => ?_, ⟨⟨h₁.lock, h₁.attaching⟩,
            h₁.attached⟩, fun result' hres => ?_⟩
          · exact ⟨Function.update_of_ne hd .., Function.update_of_ne hd .., .rfl, rfl,
              fun h => ⟨h, rfl, rfl, rfl⟩⟩
          · obtain rfl := Except.ok.inj (hok.symm.trans hres)
            exact Function.update_self ..
        · cases hreply
      · rename_i e herr
        obtain ⟨rfl, rfl⟩ := Prod.mk.inj (Option.some.inj hreply)
        refine ⟨⟨hs₁.history, hs₁.kept, hs₁.built⟩, fun d hd => ?_, ⟨⟨h₁.lock, h₁.attaching⟩,
          h₁.attached⟩, fun result' hres => ?_⟩
        · exact ⟨Function.update_of_ne hd .., rfl, .rfl, rfl, fun h => ⟨h, rfl, rfl, rfl⟩⟩
        · have := herr.symm.trans hres
          cases this
    | fail e =>
      obtain ⟨rfl, rfl⟩ := Prod.mk.inj (Option.some.inj hreply)
      refine ⟨⟨hs₁.history, hs₁.kept, hs₁.built⟩, fun d hd => ?_, ⟨⟨h₁.lock, h₁.attaching⟩,
        h₁.attached⟩, nofun⟩
      exact ⟨Function.update_of_ne hd .., rfl, .rfl, rfl, fun h => ⟨h, rfl, rfl, rfl⟩⟩
    | _ => cases hreply

/-- A request goes out. -/
theorem safe_sends {req : HttpRequest} {Q : EtagState → Prop} (hQ : t.keepingEtags.Stable c Q)
    (hframe : ∀ s p h, Q s → Q { s with pending := p, handled := h }) (hs : EtagInv s) (hq : Q s) :
    t.keepingEtags.Safe c (issue req)
      (fun x s => x = .ok () ∧ Q s ∧ s.pending c = some req) s := by
  refine Outline.safe_perform ?_ ?_
  · exact fun x u v hr hu hv ⟨hx, hq, hp⟩ => ⟨hx, hQ u v hr hu hv hq, hr.pending.trans hp⟩
  · intro s₁ hr hs₁ ch x s₂ _ ha
    have hq₁ := hQ s s₁ hr hs hs₁ hq
    cases ch <;> cases ha
    refine ⟨⟨hs₁.history, hs₁.kept, hs₁.built⟩, fun d hd => ?_, rfl, hframe s₁ _ _ hq₁,
      Function.update_self ..⟩
    exact ⟨Function.update_of_ne hd .., rfl, .rfl, rfl, fun h => ⟨h, rfl, rfl, rfl⟩⟩

theorem safe_loadTable (hs : EtagInv s) (h : Detached c s) : t.keepingEtags.Safe c t.loadTable
    (fun r s => Detached c s ∧ ∀ result, r = .ok result → s.loaded c = some result.etag) s := by
  have hstable (r : Except Exception UCAPICommitsResult) : t.keepingEtags.Stable c
      fun s => Detached c s ∧ ∀ result, r = .ok result → s.loaded c = some result.etag :=
    fun u v hr hu hv ⟨h, hok⟩ => ⟨stable_detached (t := t) u v hr hu hv h,
      fun result hres => hr.loaded.trans (hok result hres)⟩
  rw [TableInformation.loadTable, UCAPI.loadTable_eq]
  refine Outline.Safe.bind (safe_questions (Prog.uses_perform trivial) stable_detached hs h)
    hs ?_ ?_
  · intro _ s₁ hs₁ h₁
    refine Outline.Safe.bind (safe_sends stable_detached
      (fun s p o h => ⟨⟨h.lock, h.attaching⟩, h.attached⟩) hs₁ h₁) hs₁ ?_ ?_
    · rintro _ s₂ hs₂ ⟨-, h₂, hp₂⟩
      refine Outline.Safe.bind (safe_loadAnswer rfl hs₂ h₂ hp₂) hs₂ ?_ ?_
      · exact fun resp s₃ hs₃ h₃ => Outline.safe_ofExcept (hstable _) hs₃ h₃
      · exact fun e s₃ hs₃ h₃ => Outline.safe_ofExcept (x := .error e) (hstable _) hs₃ ⟨h₃.1, nofun⟩
    · rintro e s₂ - ⟨he, -⟩
      cases he
  · exact fun e s₁ hs₁ h₁ => Outline.safe_ofExcept (x := .error e) (hstable _) hs₁ ⟨h₁, nofun⟩

/-- The etag is published with the watermark. -/
theorem safe_publish {etag : String} {f : UCCommitState → UCCommitState}
    (hf : ∀ cs, (f cs).etag = etag) (hs : EtagInv s) (h : Loaded c etag s) :
    t.keepingEtags.Safe c (updateCommitState f) (fun _ => Published c etag) s := by
  refine safe_protected (stable_loaded etag) (stable_published etag) (fun _ h => h.lock) ?_ hs h
  intro u ch x u' hu h ha
  cases ch <;> cases ha
  have hpub : (if c ∈ u.committing then u.published else some (f u.commit_state).etag) =
      some etag := by
    rw [if_neg h.attaching, hf]
  refine ⟨⟨hu.history, fun _ e he _ => ?_, fun hatt => absurd h.attached hatt⟩,
    ⟨⟨⟨⟨h.lock, h.attaching⟩, h.attached⟩, h.loaded⟩, hpub⟩, rfl, rfl, rfl, rfl⟩
  rw [← Option.some.inj (hpub.symm.trans he)]
  exact hf u.commit_state

theorem uses_newWatermark (t : ManagedTable) (commits : List UCAPICommit) (wm : Option ℕ) :
    (t.newWatermark commits wm).Uses Op.IsQuestion := by
  rw [TableInformation.newWatermark]
  split
  · trivial
  · refine (t.uses_backfillLoop _ _).mono fun op hop => ?_
    cases op <;> first | exact absurd hop not_false | trivial

theorem safe_loadCommits (hs : EtagInv s) (h : Detached c s) : t.keepingEtags.Safe c t.loadCommits
    (fun r s => Holding c s ∧ ∀ result, r = .ok result → Published c result.etag s) s := by
  have throws (e : Exception) (s : EtagState) (hs : EtagInv s) (h : Holding c s) :
      t.keepingEtags.Safe c (Prog.throw e : Run UCAPICommitsResult) (fun r s => Holding c s ∧
        ∀ result, r = .ok result → Published c result.etag s) s :=
    Outline.safe_ofExcept (x := .error e) (fun u v hr hu hv h =>
      ⟨stable_holding (t := t) u v hr hu hv h.1, nofun⟩) hs ⟨h, nofun⟩
  refine Outline.Safe.bind (safe_loadTable hs h) hs (fun result s₁ hs₁ ⟨h₁, hok⟩ => ?_)
    fun e s₁ hs₁ h₁ => throws e s₁ hs₁ h₁.1.toHolding
  have h₁ : Loaded c result.etag s₁ := ⟨h₁, hok result rfl⟩
  refine Outline.Safe.bind (safe_questions (Prog.uses_perform trivial) (stable_loaded _) hs₁ h₁) hs₁
    (fun cs s₂ hs₂ h₂ => ?_) fun e s₂ hs₂ h₂ => throws e s₂ hs₂ h₂.toHolding
  refine Outline.Safe.bind (safe_questions (uses_newWatermark t _ _) (stable_loaded _) hs₂ h₂) hs₂
    (fun wm s₃ hs₃ h₃ => ?_) fun e s₃ hs₃ h₃ => throws e s₃ hs₃ h₃.toHolding
  refine Outline.Safe.bind (safe_publish (fun _ => rfl) hs₃ h₃) hs₃ (fun _ s₄ hs₄ h₄ => ?_)
    fun e s₄ hs₄ h₄ => throws e s₄ hs₄ h₄.toHolding
  refine Outline.safe_ofExcept (x := .ok result) ?_ hs₄ ⟨h₄.toHolding, fun r hr => ?_⟩
  · exact fun u v hr hu hv ⟨h, hok⟩ => ⟨stable_holding (t := t) u v hr hu hv h, fun r hres =>
      stable_published (t := t) _ u v hr hu hv (hok r hres)⟩
  · obtain rfl := Except.ok.inj hr
    exact h₄

theorem safe_attachFresh (hs : EtagInv s) (h : Detached c s) :
    t.keepingEtags.Safe c t.attachFresh (fun _ => Holding c) s := by
  have throws {α : Type} (e : Exception) (s : EtagState) (hs : EtagInv s) (h : Holding c s) :
      t.keepingEtags.Safe c (Prog.throw e : Run α) (fun _ => Holding c) s :=
    Outline.safe_ofExcept (x := .error e) stable_holding hs h
  have hload : t.loadManaged = t.loadCommits.bind fun commits => .ret (some commits) := by
    rw [TableInformation.loadManaged, if_pos t.managed]
    rfl
  rw [TableInformation.attachFresh, hload, Prog.bind_eq, Prog.bind_assoc]
  refine Outline.Safe.bind (safe_loadCommits hs h) hs (fun result s₁ hs₁ h₁ => ?_)
    fun e s₁ hs₁ h₁ => throws e s₁ hs₁ h₁.1
  show t.keepingEtags.Safe c ((attachDatabase (t.attachInfo (some result))).bind fun db =>
    setAttached (some db)) _ s₁
  refine Outline.Safe.bind (safe_questions (Prog.uses_perform trivial) (stable_published _) hs₁
    (h₁.2 result rfl)) hs₁ (fun db s₂ hs₂ h₂ => ?_) fun e s₂ hs₂ h₂ => throws e s₂ hs₂ h₂.toHolding
  -- the database is built from the response whose etag is published
  refine safe_protected (stable_published _) stable_holding (fun _ h => h.lock) ?_ hs₂ h₂
  intro u ch x u' hu h ha
  cases ch <;> cases ha
  exact ⟨⟨hu.history, hu.kept, fun _ => ⟨_, h.loaded, h.published⟩⟩, ⟨h.lock, h.attaching⟩,
    rfl, rfl, rfl, rfl⟩

/-- A call under the lock: `J` holds outside of it and `H` inside. -/
theorem safe_withAttachLock {α : Type} {p : Run α} {J H : EtagState → Prop}
    (hJ : t.keepingEtags.Stable c J) (hH : t.keepingEtags.Stable c H)
    (hlock : ∀ s, H s → s.attach_lock = some c)
    (htake : ∀ s, J s → H { s with attach_lock := some c })
    (hrelease : ∀ s o, H s → J { s with attach_lock := none, published := o })
    (hp : ∀ s, EtagInv s → H s → t.keepingEtags.Safe c p (fun _ => H) s)
    (hs : EtagInv s) (hj : J s) : t.keepingEtags.Safe c (withAttachLock p) (fun _ => J) s := by
  refine Outline.Safe.bracket (O := t.keepingEtags) (c := c) (K := fun _ => H) (L := fun _ =>
    J) ?_ hs hp
    ?_ (fun _ => hH) fun _ => hJ
  · refine Outline.safe_perform (fun x u v hr hu hv ⟨hx, h⟩ => ⟨hx, hH u v hr hu hv h⟩) ?_
    intro s₁ hr hs₁ ch x s₂ _ ha
    have ha : t.etagAnswer c s₁ .lockAttach ch = some (x, s₂) := ha
    cases ch <;> try cases ha
    simp only [etagAnswer] at ha
    split at ha
    · rename_i hfree
      obtain ⟨rfl, rfl⟩ := Prod.mk.inj (Option.some.inj ha)
      refine ⟨⟨hs₁.history, hs₁.kept, hs₁.built⟩, fun d hd => ?_, rfl,
        htake s₁ (hJ s s₁ hr hs hs₁ hj)⟩
      exact .of_unlocked rfl rfl .rfl rfl (by rw [hfree]; exact nofun)
    · cases ha
  · intro r s hs h
    refine Outline.safe_perform (fun x u v hr hu hv ⟨hx, h⟩ => ⟨hx, hJ u v hr hu hv h⟩) ?_
    intro u hr hu ch x u' _ ha
    have h := hH s u hr hs hu h
    cases ch <;> cases ha
    refine ⟨⟨hu.history, fun hd e he => ?_, fun hatt => ?_⟩, fun d hd => ?_, rfl, hrelease u _ h⟩
    · have he : (if u.attached = none then none else u.published) = some e := he
      split at he
      · cases he
      · exact hu.kept hd e he
    · obtain ⟨e, hb, hpub⟩ := hu.built hatt
      exact ⟨e, hb, (if_neg hatt).trans hpub⟩
    · refine .of_unlocked rfl rfl .rfl rfl ?_
      rw [hlock u h]
      exact fun h => hd (Option.some.inj h).symm

/-- **`InternalAttach`** keeps the invariant. -/
theorem safe_internalAttach (hs : EtagInv s) (hc : c ∉ s.committing) :
    t.keepingEtags.Safe c t.internalAttach (fun _ _ => True) s := by
  refine (safe_withAttachLock (J := fun s => c ∉ s.committing)
    (fun _ _ hr _ _ h hc => h (hr.committing.1 hc)) stable_holding (fun _ h => h.lock)
    (fun _ h => ⟨rfl, h⟩) (fun _ _ h => h.attaching) (fun s hs h => ?_) hs hc).mono
      fun _ _ _ => trivial
  have throws {α : Type} (e : Exception) (s : EtagState) (hs : EtagInv s) (h : Holding c s) :
      t.keepingEtags.Safe c (Prog.throw e : Run α) (fun _ => Holding c) s :=
    Outline.safe_ofExcept (x := .error e) stable_holding hs h
  -- what the end of the call does
  have htail (s : EtagState) (hs : EtagInv s) (h : Holding c s) :
      t.keepingEtags.Safe c (attached.bind fun db => if db.isSome then pure () else t.attachFresh)
        (fun _ => Holding c) s := by
    refine Outline.Safe.bind (safe_attached h hs) hs (fun db s₁ hs₁ ⟨h₁, hdb⟩ => ?_)
      fun e s₁ hs₁ h₁ => throws e s₁ hs₁ h₁.1
    obtain rfl := Except.ok.inj hdb
    split
    · exact Outline.safe_ofExcept (x := .ok ()) stable_holding hs₁ h₁
    · rename_i hnone
      exact safe_attachFresh hs₁ ⟨h₁, by simpa using hnone⟩
  have hread : readByThisTransaction.Uses Op.IsQuestion := by
    refine (Prog.uses_perform trivial).bind fun db => ?_
    cases db with
    | some db => exact Prog.uses_perform trivial
    | none => trivial
  refine Outline.Safe.bind (safe_questions hread stable_holding hs h) hs (fun read s₁ hs₁ h₁ => ?_)
    throws
  refine Outline.Safe.bind (safe_questions (Prog.uses_perform trivial) stable_holding hs₁ h₁) hs₁
    (fun dirty s₂ hs₂ h₂ => ?_) throws
  split
  · refine Outline.Safe.bind (safe_internalDetach hs₂ h₂) hs₂ (fun _ s₃ hs₃ h₃ => ?_)
      fun e s₃ hs₃ h₃ => throws e s₃ hs₃ h₃.1
    refine Outline.Safe.bind (Q := fun _ => Detached c) ?_ hs₃
      (fun _ s₄ hs₄ h₄ => htail s₄ hs₄ h₄.toHolding) fun e s₄ hs₄ h₄ => throws e s₄ hs₄ h₄.toHolding
    -- the mark is cleared, and nothing is published yet
    refine safe_protected stable_detached stable_detached (fun _ h => h.lock) ?_ hs₃ (h₃.2 () rfl)
    intro u ch x u' hu h ha
    cases ch <;> cases ha
    exact ⟨⟨hu.history, fun _ _ => nofun, fun hatt => absurd h.attached hatt⟩,
      ⟨⟨h.lock, h.attaching⟩, h.attached⟩, rfl, rfl, rfl, rfl⟩
  · exact htail s₂ hs₂ h₂

/-! ## `UCDeltaCCV2CommitExecute` -/

/-- `c` is in a commit call, which `etag` acknowledged. -/
def Acknowledged (c : ℕ) (etag : String) (s : EtagState) : Prop :=
  c ∈ s.committing ∧ s.acknowledged c = some etag

theorem stable_committing : t.keepingEtags.Stable c fun s => c ∈ s.committing :=
  fun _ _ hr _ _ h => hr.committing.2 h

theorem stable_acknowledged (etag : String) : t.keepingEtags.Stable c (Acknowledged c etag) :=
  fun _ _ hr _ _ h => ⟨hr.committing.2 h.1, hr.acknowledged.trans h.2⟩

theorem safe_updateAnswer {req : HttpRequest} {commit : AddCommit}
    (hreq : req.body = .addCommit commit) (h : c ∈ s.committing) (hp : s.pending c = some req) :
    t.keepingEtags.Safe c answer (fun x s => ∀ etag,
      (x.bind fun resp => t.updateOutcome resp) = .ok etag → Acknowledged c etag s) s := by
  refine Outline.safe_perform ?_ ?_
  · exact fun x u v hr hu hv hok etag he =>
      stable_acknowledged (t := t) etag u v hr hu hv (hok etag he)
  · intro s₁ hr hs₁ ch x s₂ _ ha
    have h₁ : c ∈ s₁.committing := hr.committing.2 h
    have hp₁ : s₁.pending c = some req := hr.pending.trans hp
    have hreply : t.etagReply s₁ c req ch = some (x, s₂) := by
      have : ((s₁.pending c).bind fun req => t.etagReply s₁ c req ch) = some (x, s₂) := ha
      rwa [hp₁] at this
    cases ch with
    | respond resp =>
      simp only [etagReply, hreq] at hreply
      split at hreply
      · rename_i etag hok
        split at hreply
        · obtain ⟨rfl, rfl⟩ := Prod.mk.inj (Option.some.inj hreply)
          refine ⟨⟨hs₁.history, hs₁.kept, hs₁.built⟩, fun d hd => ?_, fun etag' he => ⟨h₁, ?_⟩⟩
          · exact ⟨Function.update_of_ne hd .., rfl, .rfl, Function.update_of_ne hd ..,
              fun h => ⟨h, rfl, rfl, rfl⟩⟩
          · obtain rfl := Except.ok.inj (hok.symm.trans he)
            exact Function.update_self ..
        · cases hreply
      · rename_i e herr
        obtain ⟨rfl, rfl⟩ := Prod.mk.inj (Option.some.inj hreply)
        refine ⟨⟨hs₁.history, hs₁.kept, hs₁.built⟩, fun d hd => ?_, fun etag' he => ?_⟩
        · exact ⟨Function.update_of_ne hd .., rfl, .rfl, rfl, fun h => ⟨h, rfl, rfl, rfl⟩⟩
        · have := herr.symm.trans he
          cases this
    | fail e =>
      obtain ⟨rfl, rfl⟩ := Prod.mk.inj (Option.some.inj hreply)
      refine ⟨⟨hs₁.history, hs₁.kept, hs₁.built⟩, fun d hd => ?_, nofun⟩
      exact ⟨Function.update_of_ne hd .., rfl, .rfl, rfl, fun h => ⟨h, rfl, rfl, rfl⟩⟩
    | _ => cases hreply

/-- `UpdateTable` returns the etag that acknowledged the commit. -/
theorem safe_updateTable_fresh {commit : AddCommit} (hs : EtagInv s) (h : c ∈ s.committing) :
    t.keepingEtags.Safe c (UCAPI.updateTable t.table_data.catalog_name t.table_data.schema_name
      t.table_data.name t.credentials commit)
      (fun r s => ∀ etag, r = .ok etag → Acknowledged c etag s) s := by
  have hstable (r : Except Exception String) : t.keepingEtags.Stable c
      fun s => ∀ etag, r = .ok etag → Acknowledged c etag s := fun u v hr hu hv h etag he =>
    stable_acknowledged (t := t) etag u v hr hu hv (h etag he)
  rw [UCAPI.updateTable_eq]
  refine Outline.Safe.bind (safe_questions (Prog.uses_perform trivial) stable_committing hs h) hs
    (fun _ s₁ hs₁ h₁ => ?_) fun e s₁ hs₁ _ =>
      Outline.safe_ofExcept (x := .error e) (hstable _) hs₁ nofun
  refine Outline.Safe.bind (safe_sends stable_committing (fun _ _ _ h => h) hs₁ h₁) hs₁
    (fun _ s₂ hs₂ h₂ => ?_) fun e s₂ _ h₂ => nomatch h₂.1
  refine Outline.Safe.bind (safe_updateAnswer rfl h₂.2.1 h₂.2.2) hs₂ ?_ fun e s₃ hs₃ _ =>
    Outline.safe_ofExcept (x := .error e) (hstable _) hs₃ nofun
  exact fun resp s₃ hs₃ h₃ => Outline.safe_ofExcept (hstable _) hs₃ h₃

/-- The mark is set under the lock. -/
theorem safe_markDirty {etag : String} (hs : EtagInv s) (h : Acknowledged c etag s) :
    t.keepingEtags.Safe c (withAttachLock markDirty) (fun _ => Acknowledged c etag) s := by
  have hstable : t.keepingEtags.Stable c fun s => s.attach_lock = some c ∧ Acknowledged c etag s :=
    fun u v hr hu hv h => ⟨(hr.locked h.1).1, stable_acknowledged (t := t) etag u v hr hu hv h.2⟩
  refine safe_withAttachLock (stable_acknowledged etag) hstable (fun _ h => h.1)
    (fun _ h => ⟨rfl, h⟩) (fun _ _ h => h.2) (fun u hu h => ?_) hs h
  refine safe_protected hstable hstable (fun _ h => h.1) ?_ hu h
  intro u ch x u' hu h ha
  cases ch <;> cases ha
  exact ⟨⟨hu.history, nofun, hu.built⟩, h, rfl, rfl, rfl, rfl⟩

/-- **`UCDeltaCCV2CommitExecute`** keeps the invariant where it stores its etag in time. -/
theorem safe_commitExecute_fresh {res : StagedCommit} (hs : EtagInv s) (h : c ∈ s.committing) :
    t.keepingEtags.Safe c (t.commitExecute res) (fun _ _ => True) s := by
  refine Outline.Safe.bind_keeps
    (safe_questions (Prog.uses_perform trivial) stable_committing hs h) hs fun cs s₁ hs₁ h₁ => ?_
  refine Outline.Safe.bind_keeps (safe_updateTable_fresh hs₁ h₁) hs₁ fun etag s₂ hs₂ h₂ => ?_
  refine Outline.Safe.bind_keeps (safe_markDirty hs₂ (h₂ etag rfl)) hs₂ fun _ s₃ hs₃ h₃ => ?_
  refine Outline.safe_perform (fun _ => Outline.stable_const True) ?_
  intro s₄ hr hs₄ ch x s₅ hg ha
  obtain ⟨hc, hack⟩ := stable_acknowledged (t := t) etag s₃ s₄ hr hs₃ hs₄ h₃
  cases ch <;> cases ha
  have hpub : (if c ∈ s₄.committing then s₄.published else some etag) = s₄.published := if_pos hc
  refine ⟨⟨hs₄.history, fun hclean e he hne => ?_, fun hatt => ?_⟩, fun d hd => ?_, trivial⟩
  · -- over what was published since the mark was cleared goes the same etag, or none
    have := hg ⟨_, rfl⟩ hc hclean e (hpub.symm.trans he) hne
    exact Option.some.inj (hack.symm.trans this)
  · obtain ⟨e, hb, hp⟩ := hs₄.built hatt
    exact ⟨e, hb, hpub.trans hp⟩
  · exact ⟨rfl, rfl, .rfl, rfl, fun h => ⟨h, rfl, rfl, hpub⟩⟩

/-! ## Runs -/

theorem nodup_ratify {cat : CatalogTable} (h : (cat.etag :: cat.used).Nodup) {etag : String}
    (hfresh : etag ∉ cat.etag :: cat.used) :
    ((cat.ratify etag).etag :: (cat.ratify etag).used).Nodup :=
  List.nodup_cons.2 ⟨hfresh, h⟩

theorem etagInv_env {e : EtagEnv} (hs : EtagInv s)
    (he : t.threads.env s e = some s') : EtagInv s' ∧ ∀ d, EtagRely d s s' := by
  cases e with
  | load thread =>
    obtain ⟨req, -, he⟩ := Option.bind_eq_some_iff.1 he
    split at he
    · cases he
    · cases he
      exact ⟨⟨hs.history, hs.kept, hs.built⟩, fun d =>
        ⟨rfl, rfl, .rfl, rfl, fun h => ⟨h, rfl, rfl, rfl⟩⟩⟩
  | ratify thread etag =>
    obtain ⟨req, -, he⟩ := Option.bind_eq_some_iff.1 he
    split at he
    · obtain ⟨cat, hcat, rfl⟩ := Option.map_eq_some_iff.1 he
      rw [CatalogTable.take] at hcat
      split at hcat
      · cases hcat
      · rename_i hok
        obtain rfl := Option.some.inj hcat
        have hfresh : etag ∉ s.catalog.etag :: s.catalog.used := by
          simp only [List.mem_cons]
          tauto
        exact ⟨⟨nodup_ratify hs.history hfresh, hs.kept, hs.built⟩,
          fun d => ⟨rfl, rfl, .rfl, rfl, fun h => ⟨h, rfl, rfl, rfl⟩⟩⟩
    · cases he
  | outside etag =>
    simp only [threads] at he
    split at he
    · rename_i hfresh
      cases he
      exact ⟨⟨nodup_ratify hs.history hfresh, hs.kept, hs.built⟩,
        fun d => ⟨rfl, rfl, .rfl, rfl, fun h => ⟨h, rfl, rfl, rfl⟩⟩⟩
    · cases he

/-- **A late store brings back no old etag** in every run in which no commit stores its etag over
another that was published after its mark was cleared. -/
theorem keepsEtag_of_storesInTime {cfg : t.threads.Config}
    (h : t.threads.system.ReachableWhile t.storesInTime.Meets cfg) :
    EtagState.KeepsEtag cfg.state := by
  refine EtagInv.keepsEtag (Outline.sound (O := t.keepingEtags) (Q := fun _ _ _ => True)
    ?_ ?_ ?_ ?_ h).1
  · intro s hs
    rw [show s = { catalog := ⟨s.catalog.etag, s.catalog.version, []⟩ } from hs]
    exact ⟨by simp, nofun, fun hatt => absurd rfl hatt⟩
  · intro (s : EtagState) (c : ℕ) call p s' (hs : EtagInv s) hst
    cases call with
    | attach =>
      obtain ⟨rfl, rfl⟩ := Prod.mk.inj (Option.some.inj hst)
      have hinv : EtagInv { s with committing := s.committing.filter (· ≠ c) } :=
        ⟨hs.history, hs.kept, hs.built⟩
      refine ⟨hinv, fun (d : ℕ) (hd : d ≠ c) => ?_, safe_internalAttach hinv (by simp)⟩
      exact ⟨rfl, rfl, by simp [hd], rfl, fun h => ⟨h, rfl, rfl, rfl⟩⟩
    | commit res =>
      obtain ⟨rfl, rfl⟩ := Prod.mk.inj (Option.some.inj hst)
      have hinv : EtagInv { s with
          committing := c :: s.committing
          acknowledged := Function.update s.acknowledged c none } :=
        ⟨hs.history, hs.kept, hs.built⟩
      refine ⟨hinv, fun (d : ℕ) (hd : d ≠ c) => ?_,
        safe_commitExecute_fresh hinv List.mem_cons_self⟩
      exact ⟨rfl, rfl, by simp [hd], Function.update_of_ne hd ..,
        fun h => ⟨h, rfl, rfl, rfl⟩⟩
  · intro (s : EtagState) (c : ℕ) r (hs : EtagInv s) _
    refine ⟨⟨hs.history, hs.kept, hs.built⟩, fun (d : ℕ) (hd : d ≠ c) => ?_⟩
    exact ⟨rfl, rfl, by simp [threads, hd], rfl, fun h => ⟨h, rfl, rfl, rfl⟩⟩
  · intro s e s' hs _ he
    exact etagInv_env hs he

/-! ## Two runs -/

/-- The answers to a thread's next operations. -/
def exampleAnswers (thread : ℕ) (answers : List EtagChoice) : List exampleManaged.threads.Label :=
  answers.map fun ch => .op thread ch

/-- The rest of an `InternalAttach` that loads the table, from its `LoadTable` on. -/
def exampleLoads (thread : ℕ) (etag : String) : List exampleManaged.threads.Label :=
  exampleAnswers thread [.proceed, .proceed, .proceed] ++ [.env (.load thread)] ++
    exampleAnswers thread [.respond (etagResponse etag), .proceed, .proceed, .database thread,
      .proceed, .proceed] ++ [.finish thread]

/-- The first `InternalAttach`. -/
def exampleFirstAttach (thread : ℕ) (etag : String) : List exampleManaged.threads.Label :=
  .start thread .attach :: exampleAnswers thread [.proceed, .proceed, .proceed] ++
    exampleLoads thread etag

/-- An `InternalAttach` that finds the table dirty. -/
def exampleReattach (thread : ℕ) (etag : String) : List exampleManaged.threads.Label :=
  .start thread .attach :: exampleAnswers thread [.proceed, .proceed, .flag false, .proceed,
    .proceed, .proceed, .proceed, .proceed] ++ exampleLoads thread etag

/-- A commit of version 2 up to its mark, and what is left of it. -/
def exampleMarks (thread : ℕ) (etag : String) : List exampleManaged.threads.Label :=
  .start thread (.commit ⟨"/t/_delta_log/_staged_commits/f", 1, 1, 2, 1⟩) ::
    exampleAnswers thread [.proceed, .proceed, .proceed] ++ [.env (.ratify thread etag)] ++
    exampleAnswers thread [.respond (etagResponse etag), .proceed, .proceed, .proceed]

/-- The store, and the end of the commit. -/
def exampleStores (thread : ℕ) : List exampleManaged.threads.Label :=
  [.op thread .proceed, .finish thread]

/-- Nothing is attached, and the table is at version 1. -/
def exampleThreads : exampleManaged.threads.Config :=
  ⟨({ catalog := ⟨"e1", 1, []⟩ } : EtagState), fun _ => none⟩

/-- A commit is acknowledged with `e2` and marks the table dirty; another client commits, and an
`InternalAttach` clears the mark and publishes `e3`; then the commit stores `e2`. -/
theorem late_store_is_stale :
    ∃ cfg, exampleManaged.threads.system.Reachable cfg ∧ ¬ EtagState.KeepsEtag cfg.state := by
  have h : (exampleManaged.threads.replay (fun _ _ => true) (exampleFirstAttach 0 "e1" ++
      exampleMarks 0 "e2" ++ [.env (.outside "e3")] ++ exampleReattach 1 "e3" ++ exampleStores 0)
      exampleThreads).map (fun cfg : exampleManaged.threads.Config =>
        ((EtagState.attached cfg.state, EtagState.is_dirty cfg.state,
          EtagState.committing cfg.state), EtagState.built_from cfg.state,
            (EtagState.commit_state cfg.state).etag,
          (EtagState.catalog cfg.state).etag, (EtagState.catalog cfg.state).used)) =
      some ((some 1, false, []), some "e3", "e2", "e3", ["e2", "e1"]) := by
    decide +kernel
  obtain ⟨cfg, hcfg, hst⟩ := Option.map_eq_some_iff.1 h
  obtain ⟨hflags, hst⟩ := Prod.mk.inj hst
  obtain ⟨hatt, hflags⟩ := Prod.mk.inj hflags
  obtain ⟨hclean, hnone⟩ := Prod.mk.inj hflags
  obtain ⟨hbuilt, hst⟩ := Prod.mk.inj hst
  obtain ⟨hetag, hst⟩ := Prod.mk.inj hst
  obtain ⟨hcat, hused⟩ := Prod.mk.inj hst
  refine ⟨cfg, ⟨exampleThreads, ⟨rfl, rfl⟩, Pool.run_of_replay (fun _ _ _ => trivial) hcfg⟩, ?_⟩
  intro hkeeps
  obtain ⟨etag, hb, hok⟩ := hkeeps (by rw [hatt]; exact nofun) hclean hnone
  obtain rfl := Option.some.inj (hb.symm.trans hbuilt)
  obtain ⟨-, hnot⟩ := hok (by decide)
  apply hnot
  rw [CatalogTable.Older, hetag, hcat, hused]
  decide

/-- Whether a thread's store is over no other etag. -/
def storesInTimeAt (s : EtagState) (thread : ℕ) : Bool :=
  decide (s.published = none) || decide (s.published = s.acknowledged thread) ||
    decide (thread ∉ s.committing) || s.is_dirty

/-- Whether a step is no store over another etag. -/
def storesInTimeCheck (cfg : exampleManaged.threads.Config) : exampleManaged.threads.Label → Bool
  | .op thread _ =>
    match cfg.threads thread with
    | some (.call (.updateCommitState _) _) => storesInTimeAt cfg.state thread
    | _ => true
  | _ => true

theorem storesInTimeCheck_meets (cfg : exampleManaged.threads.Config)
    (l : exampleManaged.threads.Label) (h : storesInTimeCheck cfg l = true) :
    exampleManaged.storesInTime.Meets cfg l := by
  cases l with
  | op thread ch =>
    rintro op k hop ⟨f, rfl⟩ hc hclean etag hpub -
    simp only [storesInTimeCheck, hop, storesInTimeAt, Bool.or_eq_true, decide_eq_true_eq] at h
    rcases h with ((hnone | hsame) | hnot) | hdirty
    · cases hnone.symm.trans hpub
    · exact hsame.symm.trans hpub
    · exact absurd hc hnot
    · cases hdirty.symm.trans hclean
  | env e => trivial
  | _ => trivial

/-- Without the other client's commit the late store finds its own etag published. -/
theorem keepsEtag_of_storesInTime_same :
    ∃ cfg : exampleManaged.threads.Config,
      (EtagState.commit_state cfg.state).etag = "e2" ∧ EtagState.KeepsEtag cfg.state := by
  have h : (exampleManaged.threads.replay storesInTimeCheck (exampleFirstAttach 0 "e1" ++
      exampleMarks 0 "e2" ++ exampleReattach 1 "e2" ++ exampleStores 0) exampleThreads).map
        (fun cfg : exampleManaged.threads.Config => (EtagState.commit_state cfg.state).etag) =
      some "e2" := by
    decide +kernel
  obtain ⟨cfg, hcfg, hetag⟩ := Option.map_eq_some_iff.1 h
  exact ⟨cfg, hetag, keepsEtag_of_storesInTime
    ⟨exampleThreads, ⟨rfl, rfl⟩, Pool.run_of_replay storesInTimeCheck_meets hcfg⟩⟩

end ManagedTable

end UnityCatalog
