import UnityCatalog.Session
import UnityCatalog.Threads

/-!
# Commits whose answer is lost

Writers of one catalog-managed table, operation by operation. A writer's INSERT stages its commit
under a fresh file name and runs `UCDeltaCCV2CommitExecute`; when that throws, it may stage the rows
again and repeat. Between `issue` and `answer` a request is on the wire: Unity Catalog takes copies
of it in any order, at any time, also after the answer, and takes none that its rules refuse. The
answer may be any error, and only a ratified commit is acknowledged.

`UpdateTable` passes every error on, so a commit that reports failure did not happen only where the
error is the truth, and stays it.
-/

namespace UnityCatalog

open Effectful

/-- The catalog, the wire and what the writers know. -/
structure CommitsState where
  catalog : CatalogTable
  /-- the commits the catalog ratified -/
  ratified : List AddCommit := []
  /-- the requests that went out; copies of them may arrive at any time -/
  issued : List AddCommit := []
  /-- the request each writer waits for -/
  pending : ℕ → Option AddCommit := fun _ => none
  /-- the staged file each writer commits -/
  current : ℕ → Option String := fun _ => none
  /-- the INSERTs, each with the files staged for it -/
  attempts : List (ℕ × String) := []
  /-- the files whose request was answered by an error -/
  refused : List String := []
  /-- the files whose commit reported failure -/
  failed : List String := []

/-- The commits the rows of an INSERT came in with. -/
def CommitsState.rows (s : CommitsState) (insert : ℕ) : List AddCommit :=
  s.ratified.filter fun c => (insert, c.file_name) ∈ s.attempts

/-- What the surroundings may do with an operation. -/
inductive CommitChoice where
  | proceed
  | cached (cs : UCCommitState)
  | respond (resp : HttpResponse)
  | fail (e : Exception)

namespace ManagedTable

variable (t : ManagedTable)

/-- The answer to a request: an acknowledgement of what is ratified, or an error. -/
def commitReply (s : CommitsState) (writer : ℕ) (c : AddCommit) :
    CommitChoice → Option (Except Exception HttpResponse × CommitsState)
  | .respond resp =>
    match t.updateOutcome resp with
    | .ok _ =>
      if c ∈ s.ratified then
        some (.ok resp, { s with pending := Function.update s.pending writer none })
      else none
    | .error _ => some (.ok resp, { s with
        pending := Function.update s.pending writer none, refused := c.file_name :: s.refused })
  | .fail e => some (.error e, { s with
      pending := Function.update s.pending writer none, refused := c.file_name :: s.refused })
  | _ => none

/-- The operations of a commit. What a session has cached of the catalog is whatever its other calls
left there, and its flag and lock are of no consequence here. -/
def commitAnswer (writer : ℕ) (s : CommitsState) : (op : Op) → CommitChoice →
    Option (Except Exception op.Ans × CommitsState)
  | .ensureHttpfs, .proceed => some (.ok (), s)
  | .ensureHttpfs, .fail e => some (.error e, s)
  | .issue ⟨_, _, _, .addCommit c⟩, .proceed => some (.ok (), { s with
      issued := c :: s.issued, pending := Function.update s.pending writer (some c) })
  | .answer, ch => (s.pending writer).bind fun c => t.commitReply s writer c ch
  | .readCommitState, .cached cs => some (.ok cs, s)
  | .lockAttach, .proceed => some (.ok (), s)
  | .unlockAttach, .proceed => some (.ok (), s)
  | .setDirty _, .proceed => some (.ok (), s)
  | .updateCommitState _, .proceed => some (.ok (), s)
  | _, _ => none

/-- An INSERT stages its rows under a fresh file, once its earlier attempts have all failed. -/
def stage (s : CommitsState) (writer insert : ℕ) (file : String) : Option CommitsState :=
  if file ∉ s.attempts.map Prod.snd ∧ ∀ a ∈ s.attempts, a.1 = insert → a.2 ∈ s.failed then
    some { s with
      attempts := (insert, file) :: s.attempts
      current := Function.update s.current writer (some file) }
  else none

/-- The writers; the environment is UC taking a copy of a request, under a new etag. -/
def writers : Pool Client Exception Unit where
  Ctx := ℕ
  State := CommitsState
  Choice := CommitChoice
  answer writer s op ch := t.commitAnswer writer s op ch
  Call := ℕ × StagedCommit
  start s writer call := (stage s writer call.1 (baseName call.2.commit_file_path)).map fun s' =>
    (t.commitExecute call.2, s')
  finish s writer
    | .ok _ => { s with current := Function.update s.current writer none }
    | .error _ => { s with
        current := Function.update s.current writer none
        failed := (s.current writer).toList ++ s.failed }
  Env := AddCommit × String
  env s e :=
    if e.1 ∈ s.issued then
      (s.catalog.take e.1 (some e.2)).map fun cat =>
        { s with catalog := cat, ratified := e.1 :: s.ratified }
    else none
  init s := s = { catalog := s.catalog }

instance : DecidableEq t.writers.Ctx := inferInstanceAs (DecidableEq ℕ)

end ManagedTable

/-- What failed did not happen, and no INSERT's rows are there twice. -/
structure FailedMeansNotRatified (s : CommitsState) : Prop where
  failed : ∀ c ∈ s.ratified, c.file_name ∉ s.failed
  once : ∀ insert, (s.rows insert).length ≤ 1

namespace ManagedTable

variable (t : ManagedTable)

/-- `UpdateTable` makes an error of this answer. -/
def AnswersError : CommitChoice → Prop
  | .respond resp => ∃ e, t.updateOutcome resp = .error e
  | .fail _ => True
  | _ => False

/-- The runs in which errors are the truth: the answer to a request of which UC has ratified a copy
is no error, and UC takes no copy of a request that was answered by one. -/
def errorsAreFinal : Guard t.writers where
  op s writer op ch :=
    op = .answer → t.AnswersError ch → ∀ c, s.pending writer = some c → c ∉ s.ratified
  env s e := e.1.file_name ∉ s.refused

end ManagedTable

/-! ## The invariant -/

/-- How the catalog, the wire and the writers fit together. -/
structure CommitsInv (s : CommitsState) : Prop where
  /-- files are fresh -/
  files : (s.attempts.map Prod.snd).Nodup
  /-- an INSERT is repeated after a failure -/
  retries : ∀ a ∈ s.attempts, ∀ b ∈ s.attempts, a.1 = b.1 → a ≠ b → a.2 ∈ s.failed ∨ b.2 ∈ s.failed
  /-- a staged file is committed by one writer -/
  current : ∀ w f, s.current w = some f → f ∈ s.attempts.map Prod.snd ∧
    f ∉ s.failed ∧ ∀ w', s.current w' = some f → w' = w
  /-- one request is made for a file -/
  issued : (s.issued.map AddCommit.file_name).Nodup
  staged : ∀ c ∈ s.issued, c.file_name ∈ s.attempts.map Prod.snd
  pending : ∀ w c, s.pending w = some c → c ∈ s.issued
  /-- a request is ratified once -/
  ratified : ∀ c ∈ s.ratified, c ∈ s.issued ∧ c.version ≤ s.catalog.version
  once : s.ratified.Nodup
  /-- what was answered by an error was not ratified -/
  refused : ∀ c ∈ s.ratified, c.file_name ∉ s.refused
  /-- what failed was answered by an error, or never went out -/
  failed : ∀ f ∈ s.failed, f ∈ s.attempts.map Prod.snd ∧
    (f ∈ s.refused ∨ f ∉ s.issued.map AddCommit.file_name)

/-- What a writer relies on: the others touch neither its request nor its file. -/
structure CommitsRely (writer : ℕ) (s s' : CommitsState) : Prop where
  pending : s'.pending writer = s.pending writer
  current : s'.current writer = s.current writer
  unissued : ∀ f, s.current writer = some f → f ∉ s.issued.map AddCommit.file_name →
    f ∉ s'.issued.map AddCommit.file_name
  refused : ∀ f ∈ s.refused, f ∈ s'.refused

theorem CommitsRely.refl (w : ℕ) (s : CommitsState) : CommitsRely w s s :=
  ⟨rfl, rfl, fun _ _ h => h, fun _ h => h⟩

theorem CommitsRely.trans {w : ℕ} {s t u : CommitsState} (h : CommitsRely w s t)
    (h' : CommitsRely w t u) : CommitsRely w s u :=
  ⟨h'.pending.trans h.pending, h'.current.trans h.current,
    fun f hf hi => h'.unissued f (h.current.trans hf) (h.unissued f hf hi),
    fun f hf => h'.refused f (h.refused f hf)⟩

theorem CommitsInv.failedMeansNotRatified {s : CommitsState} (hs : CommitsInv s) :
    FailedMeansNotRatified s := by
  have hfailed : ∀ c ∈ s.ratified, c.file_name ∉ s.failed := by
    intro c hc hf
    rcases (hs.failed _ hf).2 with hr | hi
    · exact hs.refused c hc hr
    · exact hi (List.mem_map_of_mem (hs.ratified c hc).1)
  refine ⟨hfailed, fun insert => ?_⟩
  -- two commits of one INSERT are for one file, as neither failed, and so one request
  have hsame : ∀ c ∈ s.rows insert, ∀ d ∈ s.rows insert, c = d := by
    intro c hc d hd
    obtain ⟨hc, hca⟩ := List.mem_filter.1 hc
    obtain ⟨hd, hda⟩ := List.mem_filter.1 hd
    have hfile : c.file_name = d.file_name := by
      by_contra hne
      rcases hs.retries _ (of_decide_eq_true hca) _ (of_decide_eq_true hda) rfl
        (fun h => hne (congrArg Prod.snd h)) with h | h
      · exact hfailed c hc h
      · exact hfailed d hd h
    exact List.inj_on_of_nodup_map hs.issued (hs.ratified c hc).1 (hs.ratified d hd).1 hfile
  have hnodup : (s.rows insert).Nodup := hs.once.filter _
  rcases hrows : s.rows insert with _ | ⟨c, _ | ⟨d, rest⟩⟩
  · exact Nat.zero_le 1
  · exact Nat.le_refl 1
  · rw [hrows] at hsame hnodup
    have hcd := hsame c (by simp) d (by simp)
    rw [hcd] at hnodup
    simp at hnodup

/-! ## Steps -/

variable {s s' : CommitsState} {w : ℕ}

theorem CommitsInv.stage {insert : ℕ} {f : String} (hs : CommitsInv s)
    (h : ManagedTable.stage s w insert f = some s') :
    CommitsInv s' ∧ (∀ d, d ≠ w → CommitsRely d s s') ∧ s'.current w = some f ∧
      f ∉ s'.issued.map AddCommit.file_name := by
  rw [ManagedTable.stage] at h
  split at h
  · rename_i hstage
    obtain ⟨hfresh, hretry⟩ := hstage
    obtain rfl := Option.some.inj h
    -- what was posted had been staged, and this name is fresh
    have hunissued : f ∉ s.issued.map AddCommit.file_name := by
      intro hf
      obtain ⟨c, hc, rfl⟩ := List.mem_map.1 hf
      exact hfresh (hs.staged c hc)
    refine ⟨?_, ?_, Function.update_self .., hunissued⟩
    · refine { hs with files := ?_, retries := ?_, current := ?_, staged := ?_, failed := ?_ }
      · exact List.nodup_cons.2 ⟨hfresh, hs.files⟩
      · -- two names of one insert: one of them is a retry of the other
        intro a ha b hb hab hne
        rcases List.mem_cons.1 ha with rfl | ha
        · rcases List.mem_cons.1 hb with rfl | hb
          · exact absurd rfl hne
          · exact .inr (hretry b hb hab.symm)
        · rcases List.mem_cons.1 hb with rfl | hb
          · exact .inl (hretry a ha hab)
          · exact hs.retries a ha b hb hab hne
      · -- the file that `w` works on is its own, as the name is fresh
        intro d g (hg : Function.update s.current w (some f) d = some g)
        by_cases hd : d = w
        · subst hd
          rw [Function.update_self] at hg
          obtain rfl := Option.some.inj hg
          refine ⟨List.mem_cons_self, fun hf => hfresh (hs.failed _ hf).1, ?_⟩
          intro d' (hd' : Function.update s.current d (some f) d' = some f)
          by_contra hne
          rw [Function.update_of_ne hne] at hd'
          exact hfresh (hs.current d' f hd').1
        · rw [Function.update_of_ne hd] at hg
          obtain ⟨hmem, hok, honly⟩ := hs.current d g hg
          refine ⟨List.mem_cons_of_mem _ hmem, hok, ?_⟩
          intro d' (hd' : Function.update s.current w (some f) d' = some g)
          by_cases hw : d' = w
          · subst hw
            rw [Function.update_self] at hd'
            obtain rfl := Option.some.inj hd'
            exact absurd hmem hfresh
          · rw [Function.update_of_ne hw] at hd'
            exact honly d' hd'
      · exact fun c hc => List.mem_cons_of_mem _ (hs.staged c hc)
      · exact fun g hg => ⟨List.mem_cons_of_mem _ (hs.failed g hg).1, (hs.failed g hg).2⟩
    · exact fun d hd => ⟨rfl, Function.update_of_ne hd .., fun _ _ hi => hi, fun _ hr => hr⟩
  · cases h

theorem CommitsInv.issue {c : AddCommit} (hs : CommitsInv s) (hw : s.current w = some c.file_name)
    (hc : c.file_name ∉ s.issued.map AddCommit.file_name) (p : ℕ → Option AddCommit)
    (hp : ∀ d e, p d = some e → e = c ∨ s.pending d = some e)
    (hpd : ∀ d, d ≠ w → p d = s.pending d) :
    CommitsInv { s with issued := c :: s.issued, pending := p } ∧
      ∀ d, d ≠ w → CommitsRely d s { s with issued := c :: s.issued, pending := p } := by
  constructor
  · refine { hs with issued := ?_, staged := ?_, pending := ?_, ratified := ?_, failed := ?_ }
    · exact List.nodup_cons.2 ⟨hc, hs.issued⟩
    · intro e he
      rcases List.mem_cons.1 he with rfl | he
      · exact (hs.current w _ hw).1
      · exact hs.staged e he
    · intro d e hde
      rcases hp d e hde with rfl | hde
      · exact List.mem_cons_self
      · exact List.mem_cons_of_mem _ (hs.pending d e hde)
    · exact fun e he => ⟨List.mem_cons_of_mem _ (hs.ratified e he).1, (hs.ratified e he).2⟩
    · intro f hf
      refine ⟨(hs.failed f hf).1, (hs.failed f hf).2.imp_right ?_⟩
      intro hi hm
      rcases List.mem_cons.1 hm with rfl | hm
      · exact (hs.current w _ hw).2.1 hf
      · exact hi hm
  · refine fun d hd => ⟨hpd d hd, rfl, ?_, fun _ hr => hr⟩
    intro f hf hi hm
    rcases List.mem_cons.1 hm with rfl | hm
    · exact hd ((hs.current w _ hw).2.2 d hf)
    · exact hi hm

/-- An answer that is an error, to a request that is not ratified. -/
theorem CommitsInv.refuse {c : AddCommit} (hs : CommitsInv s) (hc : s.pending w = some c)
    (hr : c ∉ s.ratified) :
    CommitsInv { s with
        pending := Function.update s.pending w none, refused := c.file_name :: s.refused } ∧
      ∀ d, d ≠ w → CommitsRely d s { s with
        pending := Function.update s.pending w none, refused := c.file_name :: s.refused } := by
  constructor
  · refine { hs with pending := ?_, refused := ?_, failed := ?_ }
    · intro d e (he : Function.update s.pending w none d = some e)
      by_cases hd : d = w
      · subst hd
        rw [Function.update_self] at he
        cases he
      · rw [Function.update_of_ne hd] at he
        exact hs.pending d e he
    · intro e he hm
      rcases List.mem_cons.1 hm with hf | hm
      · have hec := List.inj_on_of_nodup_map hs.issued (hs.ratified e he).1 (hs.pending w c hc) hf
        exact hr (hec ▸ he)
      · exact hs.refused e he hm
    · exact fun f hf =>
        ⟨(hs.failed f hf).1, (hs.failed f hf).2.imp_left (List.mem_cons_of_mem _)⟩
  · exact fun d hd => ⟨Function.update_of_ne hd .., rfl, fun _ _ hi => hi,
      fun _ hm => List.mem_cons_of_mem _ hm⟩

/-- An acknowledgement. -/
theorem CommitsInv.acknowledge (hs : CommitsInv s) :
    CommitsInv { s with pending := Function.update s.pending w none } ∧
      ∀ d, d ≠ w → CommitsRely d s { s with pending := Function.update s.pending w none } := by
  constructor
  · refine { hs with pending := ?_ }
    intro d e (he : Function.update s.pending w none d = some e)
    by_cases hd : d = w
    · subst hd
      rw [Function.update_self] at he
      cases he
    · rw [Function.update_of_ne hd] at he
      exact hs.pending d e he
  · exact fun d hd => ⟨Function.update_of_ne hd .., rfl, fun _ _ hi => hi, fun _ hm => hm⟩

/-- UC takes a copy of a request that was not answered by an error. What is ratified has a version
the table has reached, so UC refuses further copies of it. -/
theorem CommitsInv.take {c : AddCommit} {etag : String} {cat : CatalogTable} (hs : CommitsInv s)
    (hc : c ∈ s.issued) (hr : c.file_name ∉ s.refused)
    (ht : s.catalog.take c (some etag) = some cat) :
    CommitsInv { s with catalog := cat, ratified := c :: s.ratified } := by
  simp only [CatalogTable.take] at ht
  split at ht
  · cases ht
  · rename_i htakes
    obtain rfl := Option.some.inj ht
    have hversion : c.version = s.catalog.version + 1 := by
      by_contra hne
      exact htakes (.inl (by simp [CatalogTable.refuses, hne]))
    refine { hs with ratified := ?_, once := ?_, refused := ?_ }
    · intro e he
      rcases List.mem_cons.1 he with rfl | he
      · exact ⟨hc, hversion.le⟩
      · exact ⟨(hs.ratified e he).1, Nat.le_succ_of_le (hs.ratified e he).2⟩
    · refine List.nodup_cons.2 ⟨fun hm => ?_, hs.once⟩
      have := (hs.ratified c hm).2
      omega
    · intro e he
      rcases List.mem_cons.1 he with rfl | he
      · exact hr
      · exact hs.refused e he

/-- A commit ends. -/
theorem CommitsInv.finish (hs : CommitsInv s) (l : List String)
    (hl : ∀ f ∈ l, s.current w = some f ∧ (f ∈ s.refused ∨ f ∉ s.issued.map AddCommit.file_name)) :
    CommitsInv { s with
        current := Function.update s.current w none, failed := l ++ s.failed } ∧
      ∀ d, d ≠ w → CommitsRely d s { s with
        current := Function.update s.current w none, failed := l ++ s.failed } := by
  constructor
  · refine { hs with retries := ?_, current := ?_, failed := ?_ }
    · intro a ha b hb hab hne
      exact (hs.retries a ha b hb hab hne).imp (List.mem_append_right _) (List.mem_append_right _)
    · intro d f (hf : Function.update s.current w none d = some f)
      by_cases hd : d = w
      · subst hd
        rw [Function.update_self] at hf
        cases hf
      · rw [Function.update_of_ne hd] at hf
        obtain ⟨hmem, hok, honly⟩ := hs.current d f hf
        refine ⟨hmem, ?_, ?_⟩
        · intro hm
          rcases List.mem_append.1 hm with hm | hm
          · exact hd (honly w (hl f hm).1).symm
          · exact hok hm
        · intro d' (hd' : Function.update s.current w none d' = some f)
          by_cases hw : d' = w
          · subst hw
            rw [Function.update_self] at hd'
            cases hd'
          · rw [Function.update_of_ne hw] at hd'
            exact honly d' hd'
    · intro f hf
      rcases List.mem_append.1 hf with hf | hf
      · exact ⟨(hs.current w f (hl f hf).1).1, (hl f hf).2⟩
      · exact hs.failed f hf
  · exact fun d hd => ⟨rfl, Function.update_of_ne hd .., fun _ _ hi => hi, fun _ hm => hm⟩

/-! ## Runs -/

namespace ManagedTable

variable (t : ManagedTable)

/-- The writers under the invariant. -/
def commits : Outline t.writers where
  guard := t.errorsAreFinal
  inv := CommitsInv
  rely := CommitsRely
  rely_refl := CommitsRely.refl
  rely_trans _ _ _ _ h h' := h.trans h'

variable {t}

/-- The writer's request for `f` has not gone out. -/
def Ready (w : ℕ) (f : String) (s : CommitsState) : Prop :=
  s.current w = some f ∧ f ∉ s.issued.map AddCommit.file_name

/-- Where a commit throws, its request was answered by an error, or did not go out. -/
def Ends (w : ℕ) (r : Except Exception Unit) (s : CommitsState) : Prop :=
  ∀ e, r = .error e → ∀ f, s.current w = some f →
    f ∈ s.refused ∨ f ∉ s.issued.map AddCommit.file_name

theorem stable_ready (f : String) : t.commits.Stable w (Ready w f) :=
  fun _ _ hr _ _ h => ⟨hr.current.trans h.1, hr.unissued f h.1 h.2⟩

theorem stable_ends (r : Except Exception Unit) : t.commits.Stable w (Ends w r) := by
  intro s s' hr _ _ h e he f hf
  have hf' := hr.current ▸ hf
  exact (h e he f hf').imp (hr.refused f) (hr.unissued f hf')

/-- The operations after the acknowledgement only answer. -/
theorem commitAnswer_silent {op : Op} {ch : CommitChoice} {x : Except Exception op.Ans}
    (hop : op = .lockAttach ∨ op = .unlockAttach ∨ (∃ b, op = .setDirty b) ∨
      ∃ f, op = .updateCommitState f)
    (h : t.commitAnswer w s op ch = some (x, s')) : s' = s ∧ ∃ a, x = .ok a := by
  rcases hop with rfl | rfl | ⟨b, rfl⟩ | ⟨f, rfl⟩
  all_goals
    cases ch <;> cases h
    exact ⟨rfl, (), rfl⟩

theorem safe_acknowledged (f : UCCommitState → UCCommitState) :
    t.commits.Safe w ((withAttachLock markDirty).bind fun _ => updateCommitState f) (Ends w) s := by
  refine Outline.safe_call_idle (fun _ _ _ _ => commitAnswer_silent (.inl rfl)) fun _ _ _ => ?_
  refine Outline.safe_call_idle
    (fun _ _ _ _ => commitAnswer_silent (.inr (.inr (.inl ⟨true, rfl⟩)))) fun _ _ _ => ?_
  refine Outline.safe_call_idle
    (fun _ _ _ _ => commitAnswer_silent (.inr (.inl rfl))) fun _ _ _ => ?_
  refine Outline.safe_call_idle
    (fun _ _ _ _ => commitAnswer_silent (.inr (.inr (.inr ⟨f, rfl⟩)))) fun _ _ _ => ?_
  exact fun _ _ _ e he => nomatch he

/-- The request for `f` is answered: an error is kept in mind. -/
def Answered {β : Type} (w : ℕ) (f : String) (r : Except Exception β) (s : CommitsState) : Prop :=
  s.current w = some f ∧ ∀ e, r = .error e → f ∈ s.refused ∨ f ∉ s.issued.map AddCommit.file_name

theorem stable_answered {β : Type} (f : String) (r : Except Exception β) :
    t.commits.Stable w (Answered w f r) :=
  fun _ _ hr _ _ h =>
    ⟨hr.current.trans h.1, fun e he => (h.2 e he).imp (hr.refused f) (hr.unissued f h.1)⟩

theorem safe_answer {c : AddCommit} (hc : s.pending w = some c)
    (hf : s.current w = some c.file_name) :
    t.commits.Safe w answer
      (fun x => Answered w c.file_name (x.bind fun resp => t.updateOutcome resp)) s := by
  refine Outline.safe_perform (fun x => stable_answered _ _) ?_
  intro s₁ hr hs₁ ch x s₂ hg ha
  have hc₁ : s₁.pending w = some c := hr.pending.trans hc
  have hf₁ : s₁.current w = some c.file_name := hr.current.trans hf
  have hreply : t.commitReply s₁ w c ch = some (x, s₂) := by
    have : ((s₁.pending w).bind fun c => t.commitReply s₁ w c ch) = some (x, s₂) := ha
    rwa [hc₁] at this
  have herr : t.AnswersError ch → c ∉ s₁.ratified := fun h => hg rfl h c hc₁
  cases ch with
  | respond resp =>
    simp only [commitReply] at hreply
    split at hreply
    · rename_i etag hok
      split at hreply
      · obtain ⟨rfl, rfl⟩ := Prod.mk.inj (Option.some.inj hreply)
        obtain ⟨hs₂, hothers⟩ := hs₁.acknowledge (w := w)
        refine ⟨hs₂, hothers, hf₁, fun e he => ?_⟩
        have := hok.symm.trans he
        cases this
      · cases hreply
    · rename_i e herror
      obtain ⟨rfl, rfl⟩ := Prod.mk.inj (Option.some.inj hreply)
      obtain ⟨hs₂, hothers⟩ := hs₁.refuse hc₁ (herr ⟨e, herror⟩)
      exact ⟨hs₂, hothers, hf₁, fun _ _ => .inl List.mem_cons_self⟩
  | fail e =>
    obtain ⟨rfl, rfl⟩ := Prod.mk.inj (Option.some.inj hreply)
    obtain ⟨hs₂, hothers⟩ := hs₁.refuse hc₁ (herr trivial)
    exact ⟨hs₂, hothers, hf₁, fun _ _ => .inl List.mem_cons_self⟩
  | _ => cases hreply

/-- The request goes out. -/
theorem safe_issue {url token : String} {c : AddCommit} (hs : CommitsInv s)
    (h : Ready w c.file_name s) :
    t.commits.Safe w (issue ⟨.post, url, token, .addCommit c⟩)
      (fun x s => x = .ok () ∧ s.pending w = some c ∧ s.current w = some c.file_name) s := by
  refine Outline.safe_perform ?_ ?_
  · exact fun x u v hr _ _ ⟨hx, hp, hf⟩ => ⟨hx, hr.pending.trans hp, hr.current.trans hf⟩
  · intro s₁ hr hs₁ ch x s₂ _ ha
    obtain ⟨hf₁, hu₁⟩ := stable_ready (t := t) _ s s₁ hr hs hs₁ h
    cases ch <;> cases ha
    obtain ⟨hs₂, hothers⟩ := hs₁.issue hf₁ hu₁ (Function.update s₁.pending w (some c))
      (by
        intro d e he
        by_cases hd : d = w
        · subst hd
          rw [Function.update_self] at he
          exact .inl (Option.some.inj he).symm
        · rw [Function.update_of_ne hd] at he
          exact .inr he)
      (fun d hd => Function.update_of_ne hd ..)
    exact ⟨hs₂, hothers, rfl, Function.update_self .., hf₁⟩

/-- `UpdateTable` runs safely. -/
theorem safe_updateTable {c : AddCommit} (hs : CommitsInv s) (h : Ready w c.file_name s) :
    t.commits.Safe w (UCAPI.updateTable t.table_data.catalog_name t.table_data.schema_name
      t.table_data.name t.credentials c) (Answered w c.file_name) s := by
  rw [UCAPI.updateTable_eq]
  refine Outline.Safe.bind (Outline.safe_perform_idle (stable_ready _) (R := fun _ => True)
    ?_ hs h) hs ?_ ?_
  · intro u ch x u' ha
    cases ch <;> cases ha <;> exact ⟨rfl, trivial⟩
  · rintro - s₁ hs₁ ⟨h₁, -⟩
    refine Outline.Safe.bind (safe_issue hs₁ h₁) hs₁ ?_ ?_
    · rintro - s₂ hs₂ ⟨-, hc₂, hf₂⟩
      refine Outline.Safe.bind (safe_answer hc₂ hf₂) hs₂ ?_ ?_
      · exact fun resp s₃ hs₃ h₃ => Outline.safe_ofExcept (stable_answered _ _) hs₃ h₃
      · exact fun e s₃ hs₃ h₃ => Outline.safe_ofExcept (x := .error e) (stable_answered _ _) hs₃ h₃
    · rintro e s₂ - ⟨he, -⟩
      cases he
  · rintro e s₁ hs₁ ⟨h₁, -⟩
    refine Outline.safe_ofExcept (x := .error e) (stable_answered _ _) hs₁ ?_
    exact ⟨h₁.1, fun _ _ => .inr h₁.2⟩

/-- A staged commit runs safely. -/
theorem safe_commitExecute {res : StagedCommit} (hs : CommitsInv s)
    (h : Ready w (baseName res.commit_file_path) s) :
    t.commits.Safe w (t.commitExecute res) (Ends w) s := by
  refine Outline.Safe.bind (Outline.safe_perform_idle (stable_ready _) (R := fun x => ∃ cs,
    x = .ok cs)
    ?_ hs h) hs ?_ ?_
  · intro u ch x u' ha
    cases ch <;> cases ha
    exact ⟨rfl, _, rfl⟩
  · rintro cs s₁ hs₁ ⟨h₁, -⟩
    refine Outline.Safe.bind (safe_updateTable hs₁ h₁) hs₁ ?_ ?_
    · exact fun etag s₂ _ _ => safe_acknowledged _
    · intro e s₂ hs₂ h₂
      refine Outline.safe_ofExcept (x := .error e) (stable_ends _) hs₂ ?_
      intro e' _ f hf
      obtain rfl := Option.some.inj (h₂.1.symm.trans hf)
      exact h₂.2 e rfl
  · rintro e s₁ - ⟨-, cs, hcs⟩
    cases hcs

/-- **A commit that reports failure did not happen** in every run in which errors are the truth, and
stay it. -/
theorem failedMeansNotRatified_of_errorsAreFinal {cfg : t.writers.Config}
    (h : t.writers.system.ReachableWhile t.errorsAreFinal.Meets cfg) :
    FailedMeansNotRatified cfg.state := by
  refine CommitsInv.failedMeansNotRatified
    (Outline.sound (O := t.commits) (Q := Ends) ?_ ?_ ?_ ?_ h).1
  · intro s hs
    rw [show s = { catalog := s.catalog } from hs]
    exact ⟨List.nodup_nil, nofun, nofun, List.nodup_nil, nofun, nofun, nofun, List.nodup_nil, nofun,
      nofun⟩
  · intro s w call p s' hs hst
    obtain ⟨s₁, hstage, heq⟩ := Option.map_eq_some_iff.1 hst
    obtain ⟨rfl, rfl⟩ := Prod.mk.inj heq
    obtain ⟨hs₁, hothers, hcur, hun⟩ := hs.stage hstage
    exact ⟨hs₁, hothers, safe_commitExecute hs₁ ⟨hcur, hun⟩⟩
  · intro s w r hs hq
    cases r with
    | ok _ =>
      exact hs.finish [] nofun
    | error e =>
      refine hs.finish (s.current w).toList ?_
      intro f hf
      have hf := Option.mem_toList.1 hf
      exact ⟨hf, hq e rfl f hf⟩
  · rintro s ⟨c, etag⟩ s' hs hg he
    simp only [writers] at he
    split at he
    · rename_i hc
      obtain ⟨cat, hcat, rfl⟩ := Option.map_eq_some_iff.1 he
      exact ⟨hs.take hc hg hcat, fun d => ⟨rfl, rfl, fun _ _ h => h, fun _ h => h⟩⟩
    · cases he

end ManagedTable

/-! ## Two runs -/

/-- The staged commit of a file. -/
def exampleStaged (file : String) (version : ℕ) : StagedCommit :=
  ⟨"/t/_delta_log/_staged_commits/" ++ file, 1, 1, version, 1⟩

namespace ManagedTable

/-- The request for it. -/
def exampleRequest (file : String) (version : ℕ) (etag : String) : AddCommit :=
  exampleManaged.addCommit (exampleStaged file version) ⟨etag, none⟩

/-- A writer's steps up to where its request is on the wire. -/
def exampleSends (file : String) (version : ℕ) (etag : String) :
    List exampleManaged.writers.Label :=
  [.start (0 : ℕ) (0, exampleStaged file version), .op (0 : ℕ) (.cached ⟨etag, none⟩),
    .op (0 : ℕ) .proceed, .op (0 : ℕ) .proceed]

/-- UC takes a commit and acknowledges it. -/
def exampleTakes (file : String) (version : ℕ) (etag new_etag : String) :
    List exampleManaged.writers.Label :=
  exampleSends file version etag ++
    [.env (exampleRequest file version etag, new_etag),
      .op (0 : ℕ) (.respond (etagResponse new_etag)), .op (0 : ℕ) .proceed, .op (0 : ℕ) .proceed,
      .op (0 : ℕ) .proceed, .op (0 : ℕ) .proceed, .finish (0 : ℕ)]

/-- UC takes a commit, the request is delivered again, and the writer is told of the conflict. -/
def exampleConflicts (file : String) (version : ℕ) (etag new_etag : String) :
    List exampleManaged.writers.Label :=
  exampleSends file version etag ++
    [.env (exampleRequest file version etag, new_etag), .op (0 : ℕ) (.respond conflictResponse),
      .finish (0 : ℕ)]

/-- No writer has started, and the table is at version 1. -/
def exampleWriters : exampleManaged.writers.Config :=
  ⟨({ catalog := ⟨"e1", 1, []⟩ } : CommitsState), fun _ => none⟩

/-- A request is ratified, delivered again and refused; the writer, told of the conflict, repeats
its INSERT. The commit that failed is in the table, and the rows are there twice. -/
theorem failed_commit_is_ratified :
    ∃ cfg, exampleManaged.writers.system.Reachable cfg ∧
      ¬ (∀ c ∈ CommitsState.ratified cfg.state, c.file_name ∉ CommitsState.failed cfg.state) ∧
      ¬ ∀ insert, (CommitsState.rows cfg.state insert).length ≤ 1 := by
  have h : (exampleManaged.writers.replay (fun _ _ => true)
      (exampleConflicts "f" 2 "e1" "e2" ++ exampleTakes "g" 3 "e2" "e3") exampleWriters).map
        (fun cfg : exampleManaged.writers.Config =>
          (CommitsState.failed cfg.state, (CommitsState.ratified cfg.state).map AddCommit.file_name,
            (CommitsState.rows cfg.state 0).length)) = some (["f"], ["g", "f"], 2) := by
    decide +kernel
  obtain ⟨cfg, hcfg, hst⟩ := Option.map_eq_some_iff.1 h
  obtain ⟨hf, hst⟩ := Prod.mk.inj hst
  obtain ⟨hr, hrows⟩ := Prod.mk.inj hst
  refine ⟨cfg, ⟨exampleWriters, ⟨rfl, rfl⟩, Pool.run_of_replay (fun _ _ _ => trivial) hcfg⟩, ?_, ?_⟩
  · intro hall
    have hmem : "f" ∈ (CommitsState.ratified cfg.state).map AddCommit.file_name := by simp [hr]
    obtain ⟨c, hc, hname⟩ := List.mem_map.1 hmem
    exact hall c hc (by simp [hf, hname])
  · intro hall
    have := hall 0
    omega

/-- Whether a step keeps errors final. -/
def errorsAreFinalCheck (cfg : exampleManaged.writers.Config) :
    exampleManaged.writers.Label → Bool
  | .op _ (.respond resp) =>
    (CommitsState.ratified cfg.state).isEmpty || (exampleManaged.updateOutcome resp).isOk
  | .op _ (.fail _) => (CommitsState.ratified cfg.state).isEmpty
  | .env e => e.1.file_name ∉ CommitsState.refused cfg.state
  | _ => true

theorem errorsAreFinalCheck_meets (cfg : exampleManaged.writers.Config)
    (l : exampleManaged.writers.Label) (h : errorsAreFinalCheck cfg l = true) :
    exampleManaged.errorsAreFinal.Meets cfg l := by
  cases l with
  | op w ch =>
    intro op k _ _ herr c _ hc
    have hne : (CommitsState.ratified cfg.state).isEmpty = false := by
      rw [List.isEmpty_eq_false_iff]
      exact List.ne_nil_of_mem hc
    cases ch with
    | respond resp =>
      obtain ⟨e, he⟩ := herr
      simp [errorsAreFinalCheck, hne, he, Except.isOk, Except.toBool] at h
    | fail e =>
      simp [errorsAreFinalCheck, hne] at h
    | _ => exact herr
  | env e =>
    have hnot : e.1.file_name ∉ CommitsState.refused cfg.state := of_decide_eq_true h
    exact hnot
  | _ => trivial

/-- A commit that UC refuses, and the INSERT repeated. -/
theorem failedMeansNotRatified_of_errorsAreFinal_repeated :
    ∃ cfg : exampleManaged.writers.Config,
      CommitsState.failed cfg.state = ["f"] ∧ FailedMeansNotRatified cfg.state := by
  have h : (exampleManaged.writers.replay errorsAreFinalCheck
      (exampleSends "f" 3 "e0" ++ [.op (0 : ℕ) (.respond conflictResponse), .finish (0 : ℕ)] ++
        exampleTakes "g" 2 "e1" "e2") exampleWriters).map
        (fun cfg : exampleManaged.writers.Config => CommitsState.failed cfg.state) =
      some ["f"] := by
    decide +kernel
  obtain ⟨cfg, hcfg, hf⟩ := Option.map_eq_some_iff.1 h
  exact ⟨cfg, hf, failedMeansNotRatified_of_errorsAreFinal
    ⟨exampleWriters, ⟨rfl, rfl⟩, Pool.run_of_replay errorsAreFinalCheck_meets hcfg⟩⟩

end ManagedTable

end UnityCatalog
