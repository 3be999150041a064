import UnityCatalog.TableInformation
import UnityCatalog.Threads

/-!
# The backfill watermark

`BackfillCommits` copies the commits above the watermark one by one, and moves the watermark past
each that is there. `Gapless` is what its attempts and its result come to, whatever the copies do;
over the runs of `InternalAttach` by the threads of a session, the watermark only goes up.
-/

namespace UnityCatalog

open Effectful

/-! ## Attempts -/

/-- A run of the loop is a run of the loop that tells what it attempted: it never throws, and what
it attempted is determined by the run. -/
theorem TableInformation.exec_backfillLoop_iff (t : TableInformation) (commits : List UCAPICommit)
    {W : World Client Exception} {c : W.Ctx} {s s' : W.State} {wm : Option ℕ}
    {r : Except Exception (Option ℕ)} :
    (t.backfillLoop commits wm).Exec c s r s' ↔ ∃ result attempts, r = .ok result ∧
      (t.backfillLoopTelling commits wm).Exec c s (.ok (result, attempts)) s' := by
  constructor
  · intro h
    obtain ⟨result, rfl⟩ := t.exec_backfillLoop commits h
    rcases Prog.exec_bind.1 h with ⟨⟨result', attempts⟩, s₁, htelling, hr, rfl⟩ | ⟨e, -, he⟩
    · obtain rfl : result = result' := Except.ok.inj hr
      exact ⟨_, attempts, rfl, htelling⟩
    · cases he
  · rintro ⟨result, attempts, rfl, h⟩
    exact Prog.exec_bind.2 (.inl ⟨_, s', h, rfl, rfl⟩)

/-! ## No gaps -/

/-- The version is above the watermark, or there is none. -/
def Above (watermark : Option ℕ) (version : ℕ) : Prop := ∀ w, watermark = some w → w < version

/-- The watermark is not below the other. -/
def NotBelow (watermark other : Option ℕ) : Prop :=
    ∀ w, other = some w → ∃ w', watermark = some w' ∧ w ≤ w'

/-- The commit was copied, or was there already. -/
def Attempt.Published (a : Attempt) : Prop := ∃ copied, a.2 = .ok copied

/-- What `BackfillCommits` makes of the commits, from the watermark `start`. -/
structure Gapless (commits : List UCAPICommit) (start result : Option ℕ) (attempts : List Attempt) :
    Prop where
  /-- what is attempted is listed, and above the watermark -/
  above : ∀ a ∈ attempts, a.1 ∈ commits ∧ Above start a.1.version
  /-- in ascending order, each version once -/
  ascending : attempts.Pairwise fun a b => a.1.version < b.1.version
  /-- up to the first failure -/
  stops : ∀ a as, attempts = as ++ [a] → ∀ b ∈ as, Attempt.Published b
  /-- and no version is left out before it -/
  complete : ∀ commit ∈ commits, Above start commit.version →
    ∃ a ∈ attempts, a.1.version = commit.version ∨ ¬ Attempt.Published a ∧
      a.1.version < commit.version
  notBelow : NotBelow result start
  /-- what the watermark has passed is published -/
  covered : ∀ commit ∈ commits, Above start commit.version → ¬ Above result commit.version →
    ∃ a ∈ attempts, a.1.version = commit.version ∧ Attempt.Published a
  /-- and what failed is above it -/
  failed : ∀ a ∈ attempts, ¬ Attempt.Published a → Above result a.1.version

theorem not_backfilled {wm : Option ℕ} {version : ℕ} :
    ¬ backfilled wm version = true ↔ Above wm version := by
  rw [backfilled_eq_true]
  constructor
  · intro h w hw
    by_contra hle
    exact h ⟨w, hw, by omega⟩
  · rintro h ⟨w, hw, hle⟩
    have := h w hw
    omega

theorem above_some {w version : ℕ} : Above (some w) version ↔ w < version := by
  simp [Above]

theorem NotBelow.refl (wm : Option ℕ) : NotBelow wm wm := fun w hw => ⟨w, hw, le_rfl⟩

theorem NotBelow.trans {a b d : Option ℕ} (h : NotBelow a b) (h' : NotBelow b d) :
    NotBelow a d := by
  intro w hw
  obtain ⟨w', hw', hle⟩ := h' w hw
  obtain ⟨w'', hw'', hle'⟩ := h w' hw'
  exact ⟨w'', hw'', hle.trans hle'⟩

section

variable {commit : UCAPICommit} {rest : List UCAPICommit} {start result : Option ℕ}
    {attempts : List Attempt}

theorem gapless_nil (start : Option ℕ) : Gapless [] start start [] where
  above := by simp
  ascending := .nil
  stops := by simp
  complete := by simp
  notBelow := .refl start
  covered := by simp
  failed := by simp

/-- A commit the watermark has passed is left out. -/
theorem Gapless.skip (h : Gapless rest start result attempts)
    (hdone : ¬ Above start commit.version) :
    Gapless (commit :: rest) start result attempts where
  above a ha := ⟨List.mem_cons_of_mem _ (h.above a ha).1, (h.above a ha).2⟩
  ascending := h.ascending
  stops := h.stops
  complete d hd habove := by
    rcases List.mem_cons.1 hd with rfl | hd
    · exact absurd habove hdone
    · exact h.complete d hd habove
  notBelow := h.notBelow
  covered d hd habove hpassed := by
    rcases List.mem_cons.1 hd with rfl | hd
    · exact absurd habove hdone
    · exact h.covered d hd habove hpassed
  failed := h.failed

/-- A commit that is published moves the watermark, and the rest starts there. -/
theorem Gapless.take (hsorted : ∀ d ∈ rest, commit.version ≤ d.version)
    (habove : Above start commit.version)
    (h : Gapless rest (some commit.version) result attempts) (copied : Bool) :
    Gapless (commit :: rest) start result ((commit, .ok copied) :: attempts) where
  above a ha := by
    rcases List.mem_cons.1 ha with rfl | ha
    · exact ⟨List.mem_cons_self, habove⟩
    · refine ⟨List.mem_cons_of_mem _ (h.above a ha).1, ?_⟩
      intro w hw
      exact (habove w hw).trans (above_some.1 (h.above a ha).2)
  ascending := List.pairwise_cons.2 ⟨fun a ha => above_some.1 (h.above a ha).2, h.ascending⟩
  stops a as heq := by
    intro b hb
    cases as with
    | nil => cases hb
    | cons a' as =>
      obtain ⟨rfl, htail⟩ := List.cons.inj heq
      rcases List.mem_cons.1 hb with rfl | hb
      · exact ⟨copied, rfl⟩
      · exact h.stops a as htail b hb
  complete d hd hd' := by
    rcases List.mem_cons.1 hd with rfl | hd
    · exact ⟨_, List.mem_cons_self, .inl rfl⟩
    · rcases (hsorted d hd).eq_or_lt with heq | hlt
      · exact ⟨_, List.mem_cons_self, .inl heq⟩
      · obtain ⟨a, ha, hend⟩ := h.complete d hd (above_some.2 hlt)
        exact ⟨a, List.mem_cons_of_mem _ ha, hend⟩
  notBelow := by
    refine h.notBelow.trans ?_
    intro w hw
    exact ⟨commit.version, rfl, (habove w hw).le⟩
  covered d hd hd' hpassed := by
    rcases List.mem_cons.1 hd with rfl | hd
    · exact ⟨_, List.mem_cons_self, rfl, copied, rfl⟩
    · rcases (hsorted d hd).eq_or_lt with heq | hlt
      · exact ⟨_, List.mem_cons_self, heq, copied, rfl⟩
      · obtain ⟨a, ha, hend⟩ := h.covered d hd (above_some.2 hlt) hpassed
        exact ⟨a, List.mem_cons_of_mem _ ha, hend⟩
  failed a ha hfailed := by
    rcases List.mem_cons.1 ha with rfl | ha
    · exact absurd ⟨copied, rfl⟩ hfailed
    · exact h.failed a ha hfailed

/-- A commit that fails ends the loop. -/
theorem gapless_stop (hsorted : ∀ d ∈ rest, commit.version ≤ d.version)
    (habove : Above start commit.version)
    (e : Exception) : Gapless (commit :: rest) start start [(commit, .error e)] where
  above := by simpa using habove
  ascending := List.pairwise_singleton _ _
  stops a as heq := by
    intro b hb
    cases as with
    | nil => cases hb
    | cons a' as => simp at heq
  complete d hd hd' := by
    refine ⟨_, List.mem_singleton_self _, ?_⟩
    have hfailed : ¬ Attempt.Published (commit, .error e) := by simp [Attempt.Published]
    rcases List.mem_cons.1 hd with rfl | hd
    · exact .inl rfl
    · exact (hsorted d hd).eq_or_lt.imp_right fun hlt => ⟨hfailed, hlt⟩
  notBelow := .refl start
  covered d hd hd' hpassed := absurd hd' hpassed
  failed a ha hfailed := by
    obtain rfl := List.mem_singleton.1 ha
    exact habove

end

/-- How the commits are listed makes no difference. -/
theorem Gapless.perm {commits ordered : List UCAPICommit} {start result : Option ℕ}
    {attempts : List Attempt} (hperm : ordered.Perm commits)
    (h : Gapless ordered start result attempts) :
    Gapless commits start result attempts where
  above a ha := ⟨hperm.mem_iff.1 (h.above a ha).1, (h.above a ha).2⟩
  ascending := h.ascending
  stops := h.stops
  complete d hd := h.complete d (hperm.mem_iff.2 hd)
  notBelow := h.notBelow
  covered d hd := h.covered d (hperm.mem_iff.2 hd)
  failed := h.failed

/-- **The loop leaves no gap**, by induction on the commits that are left. -/
theorem TableInformation.backfillLoopTelling_gapless {W : World Client Exception} {c : W.Ctx}
    (t : TableInformation) {commits : List UCAPICommit}
    (hsorted : commits.Pairwise fun a b => a.version ≤ b.version) {wm : Option ℕ} {s s' : W.State}
    {result : Option ℕ} {attempts : List Attempt}
    (h : (t.backfillLoopTelling commits wm).Exec c s (.ok (result, attempts)) s') :
    Gapless commits wm result attempts := by
  induction commits generalizing wm s attempts with
  | nil =>
    obtain ⟨rfl, rfl⟩ := Prod.mk.inj (Except.ok.inj h.1)
    exact gapless_nil _
  | cons commit rest ih =>
    obtain ⟨hfirst, hrest⟩ := List.pairwise_cons.1 hsorted
    rw [backfillLoopTelling] at h
    split_ifs at h with hdone
    · exact (ih hrest h).skip fun habove => not_backfilled.2 habove hdone
    · have habove := not_backfilled.1 hdone
      rcases Prog.exec_bind.1 h with ⟨outcome, s₁, -, h⟩ | ⟨e, -, he⟩
      · cases outcome with
        | ok copied =>
          rcases Prog.exec_bind.1 h with ⟨⟨result', attempts'⟩, s₂, hnext, hx, rfl⟩ | ⟨e, -, he⟩
          · obtain ⟨rfl, rfl⟩ := Prod.mk.inj (Except.ok.inj hx)
            exact (ih hrest hnext).take hfirst habove copied
          · cases he
        | error e =>
          obtain ⟨rfl, rfl⟩ := Prod.mk.inj (Except.ok.inj h.1)
          exact gapless_stop hfirst habove e
      · cases he

/-- In any world the result is not below where the loop started. -/
theorem TableInformation.returns_backfillLoop (t : TableInformation) (commits : List UCAPICommit)
    (wm : Option ℕ) : (t.backfillLoop commits wm).Returns fun result => NotBelow result wm := by
  induction commits generalizing wm with
  | nil => exact NotBelow.refl wm
  | cons commit rest ih =>
    rw [backfillLoop_cons]
    split_ifs with hdone
    · exact ih wm
    · have hup : NotBelow (some commit.version) wm := fun w hw =>
        ⟨commit.version, rfl, (not_backfilled.1 hdone w hw).le⟩
      refine Prog.Returns.bind (A := fun copied => ∀ version, copied = some version →
        NotBelow (some version) wm)
        (Prog.Returns.tryCatch ?_ fun _ => ?_) fun copied hcopied => ?_
      · refine Prog.Returns.bind (Prog.returns_trivial _) fun _ _ => ?_
        intro version heq
        obtain rfl := Option.some.inj heq
        exact hup
      · intro version heq
        cases heq
      · cases copied with
        | some version =>
          exact (ih (some version)).mono fun result h => h.trans (hcopied version rfl)
        | none => exact NotBelow.refl wm

/-! ## The threads of a session -/

/-- One table's `commit_state`, with what the calls on it do. -/
structure WatermarkState where
  commit_state : UCCommitState := {}
  /-- who holds `attach_lock` -/
  attach_lock : Option ℕ := none
  /-- `read_only` in the `InternalAttach` call that each thread is in -/
  attaching : ℕ → Option Bool := fun _ => none
  /-- the values of the watermark, the latest first -/
  history : List (Option ℕ) := []
  /-- the calls that touched a file -/
  copied : List (Option Bool) := []
  /-- the calls that changed the watermark -/
  moved : List (Option Bool) := []

namespace WatermarkState

/-- A thread touches a file. -/
def touch (s : WatermarkState) (thread : ℕ) : WatermarkState :=
  { s with copied := s.attaching thread :: s.copied }

/-- A thread writes `commit_state`. -/
def write (s : WatermarkState) (thread : ℕ) (cs : UCCommitState) : WatermarkState :=
  { s with
    commit_state := cs
    history := cs.backfilled_version :: s.history
    moved := if cs.backfilled_version = s.commit_state.backfilled_version then s.moved
      else s.attaching thread :: s.moved }

/-- What every operation but those on `commit_state` and its lock is answered is up to `ch`. -/
def answer (thread : ℕ) (s : WatermarkState) : (op : Op) → ((op : Op) → Except Exception op.Ans) →
    Option (Except Exception op.Ans × WatermarkState)
  | .lockAttach, _ =>
    if s.attach_lock = none then some (.ok (), { s with attach_lock := some thread }) else none
  | .unlockAttach, _ => some (.ok (), { s with attach_lock := none })
  | .readCommitState, _ => some (.ok s.commit_state, s)
  | .updateCommitState f, _ => some (.ok (), s.write thread (f s.commit_state))
  | .openRead path, ch => some (ch (.openRead path), s.touch thread)
  | .openExclusive path, ch => some (ch (.openExclusive path), s.touch thread)
  | .readFile path n, ch => some (ch (.readFile path n), s.touch thread)
  | .writeFile path bytes, ch => some (ch (.writeFile path bytes), s.touch thread)
  | .closeFile path, ch => some (ch (.closeFile path), s.touch thread)
  | op, ch => some (ch op, s)

end WatermarkState

/-- What a thread can be asked to run. -/
inductive WatermarkCall where
  /-- `InternalAttach`, through a catalog attached so -/
  | attach (read_only : Bool)
  /-- `UCDeltaCCV2CommitExecute` -/
  | commit (res : StagedCommit)

namespace TableInformation

variable (t : TableInformation)

/-- The threads. -/
def watermarkThreads : Pool Client Exception Unit where
  Ctx := ℕ
  State := WatermarkState
  Choice := (op : Op) → Except Exception op.Ans
  answer thread s op ch := s.answer thread op ch
  Call := WatermarkCall
  start s thread
    | .attach read_only => some ({ t with read_only }.internalAttach,
        { s with attaching := Function.update s.attaching thread (some read_only) })
    | .commit res => some (t.commitExecute res,
        { s with attaching := Function.update s.attaching thread none })
  finish s thread _ := { s with attaching := Function.update s.attaching thread none }
  Env := Empty
  env _ e := e.elim
  init s := s.attach_lock = none ∧ s.history = [s.commit_state.backfilled_version] ∧ s.copied = [] ∧
    s.moved = []

instance watermarkCtxDecidableEq : DecidableEq t.watermarkThreads.Ctx :=
    inferInstanceAs (DecidableEq ℕ)

end TableInformation

/-! ## The invariant -/

/-- What the watermark has been, and which calls had to do with it. -/
structure WatermarkInv (s : WatermarkState) : Prop where
  now : s.history.head? = some s.commit_state.backfilled_version
  /-- each value is not below those before it -/
  up : s.history.Pairwise NotBelow
  copied : some true ∉ s.copied
  moved : some true ∉ s.moved

/-- What a thread relies on: its call is its own, and so is the watermark while it holds the
lock. -/
structure WatermarkRely (c : ℕ) (s s' : WatermarkState) : Prop where
  attaching : s'.attaching c = s.attaching c
  locked : s.attach_lock = some c → s'.attach_lock = some c ∧
    s'.commit_state.backfilled_version = s.commit_state.backfilled_version

theorem WatermarkRely.refl (c : ℕ) (s : WatermarkState) : WatermarkRely c s s :=
  ⟨rfl, fun h => ⟨h, rfl⟩⟩

theorem WatermarkRely.trans {c : ℕ} {s t u : WatermarkState} (h : WatermarkRely c s t)
    (h' : WatermarkRely c t u) : WatermarkRely c s u where
  attaching := h'.attaching.trans h.attaching
  locked hl := by
    obtain ⟨hl₁, hw₁⟩ := h.locked hl
    obtain ⟨hl₂, hw₂⟩ := h'.locked hl₁
    exact ⟨hl₂, hw₂.trans hw₁⟩

/-- The operations that have nothing to do with `commit_state`, its lock, or a file. -/
def Op.IsIdle : Op → Prop
  | .ensureHttpfs | .issue _ | .answer => True
  | .isDirty | .setDirty _ | .attached | .setAttached _ | .tryGetTransaction _ => True
  | .attachDatabase _ | .detachDatabase _ => True
  | _ => False

theorem answer_idle {c : ℕ} {s s' : WatermarkState} {op : Op}
    {ch : (op : Op) → Except Exception op.Ans}
    {x : Except Exception op.Ans} (hop : op.IsIdle) (h : s.answer c op ch = some (x, s')) :
      s' = s := by
  cases op <;> first | exact absurd hop not_false | skip
  all_goals
    cases h
    rfl

/-- A file is touched, in a call that is not read-only. -/
theorem answer_file {c : ℕ} {s s' : WatermarkState} {op : Op}
    {ch : (op : Op) → Except Exception op.Ans}
    {x : Except Exception op.Ans} (hop : op.IsFile) (h : s.answer c op ch = some (x, s')) :
    s' = s.touch c := by
  cases op <;> first | exact absurd hop not_false | skip
  all_goals
    cases h
    rfl

namespace TableInformation

variable (t : TableInformation)

/-- The threads under the invariant. -/
def keepingWatermark : Outline t.watermarkThreads where
  guard := ⟨fun _ _ _ _ => True, fun _ _ => True⟩
  inv := WatermarkInv
  rely := WatermarkRely
  rely_refl := .refl
  rely_trans _ _ _ _ h h' := h.trans h'

/-- `c` holds `attach_lock`, in a call with that access. -/
structure Locked (c : ℕ) (call : Option Bool) (s : WatermarkState) : Prop where
  lock : s.attach_lock = some c
  call : s.attaching c = call

/-- And it has seen the watermark. -/
structure Seen (c : ℕ) (call : Option Bool) (wm : Option ℕ) (s : WatermarkState) : Prop
    extends Locked c call s where
  seen : s.commit_state.backfilled_version = wm

variable {t} {c : ℕ} {s s' : WatermarkState} {call : Option Bool} {wm : Option ℕ}

theorem stable_locked : t.keepingWatermark.Stable c (Locked c call) :=
  fun _ _ hr _ _ h => ⟨(hr.locked h.lock).1, hr.attaching.trans h.call⟩

theorem stable_seen : t.keepingWatermark.Stable c (Seen c call wm) :=
  fun u v hr hu hv h =>
    ⟨stable_locked (t := t) u v hr hu hv h.toLocked, (hr.locked h.lock).2.trans h.seen⟩

theorem stable_call : t.keepingWatermark.Stable c fun s => s.attaching c = call :=
  fun _ _ hr _ _ h => hr.attaching.trans h

/-! ## Operations -/

theorem safe_idle {α : Type} {p : Run α} {Q : WatermarkState → Prop} (hp : p.Uses Op.IsIdle)
    (hQ : t.keepingWatermark.Stable c Q) (hs : WatermarkInv s) (hq : Q s) :
    t.keepingWatermark.Safe c p (fun _ => Q) s :=
  Outline.safe_of_uses hp (fun _ _ _ _ _ hop ha => answer_idle hop ha) hQ hs hq

/-- A file is touched by a call that is not read-only. -/
theorem safe_files {α : Type} {p : Run α} (hp : p.Uses Op.IsFile) (hs : WatermarkInv s)
    (h : Seen c (some false) wm s) :
    t.keepingWatermark.Safe c p (fun _ => Seen c (some false) wm) s := by
  induction p generalizing s with
  | ret a => exact fun s' hr hs' => stable_seen (t := t) s s' hr hs hs' h
  | throw e => exact fun s' hr hs' => stable_seen (t := t) s s' hr hs hs' h
  | call op k ih =>
    intro s' hr hs' ch x s'' _ ha
    have h' := stable_seen (t := t) s s' hr hs hs' h
    obtain rfl := answer_file hp.1 ha
    have hs'' : WatermarkInv (s'.touch c) := by
      refine ⟨hs'.now, hs'.up, ?_, hs'.moved⟩
      show some true ∉ s'.attaching c :: s'.copied
      rw [h'.call]
      simpa using hs'.copied
    exact ⟨hs'', fun d _ => ⟨rfl, fun hl => ⟨hl, rfl⟩⟩,
      ih x (hp.2 x) hs'' ⟨⟨h'.lock, h'.call⟩, h'.seen⟩⟩

/-- What `commit_state` is set to. -/
theorem watermarkInv_write {cs : UCCommitState} (hs : WatermarkInv s)
    (hup : NotBelow cs.backfilled_version s.commit_state.backfilled_version)
    (hmoved : s.attaching c = some true →
      cs.backfilled_version = s.commit_state.backfilled_version) :
    WatermarkInv (s.write c cs) where
  now := rfl
  up := by
    refine List.pairwise_cons.2 ⟨?_, hs.up⟩
    intro wm hwm
    have hnow := hs.now
    cases hhistory : s.history with
    | nil =>
      rw [hhistory] at hnow
      cases hnow
    | cons current earlier =>
      have hup' := hs.up
      rw [hhistory] at hnow hup' hwm
      obtain rfl := Option.some.inj hnow
      rcases List.mem_cons.1 hwm with rfl | hmem
      · exact hup
      · exact hup.trans ((List.pairwise_cons.1 hup').1 wm hmem)
  copied := hs.copied
  moved := by
    show some true ∉ if cs.backfilled_version = s.commit_state.backfilled_version then s.moved
      else s.attaching c :: s.moved
    split_ifs with hsame
    · exact hs.moved
    · rw [List.mem_cons, not_or]
      refine ⟨?_, hs.moved⟩
      intro hcall
      exact hsame (hmoved hcall.symm)

/-! ## `InternalAttach` -/

/-- The watermark is read under the lock, so it is the one there is. -/
theorem safe_readCommitState (hs : WatermarkInv s) (h : Locked c call s) :
    t.keepingWatermark.Safe c readCommitState
      (fun x s => ∃ cs, x = .ok cs ∧ Seen c call cs.backfilled_version s) s := by
  refine Outline.safe_perform ?_ ?_
  · rintro x u v hr hu hv ⟨cs, rfl, hseen⟩
    exact ⟨cs, rfl, stable_seen (t := t) u v hr hu hv hseen⟩
  · intro s₁ hr hs₁ ch x s₂ _ ha
    have h₁ := stable_locked (t := t) s s₁ hr hs hs₁ h
    obtain ⟨rfl, rfl⟩ := Prod.mk.inj (Option.some.inj ha)
    exact ⟨hs₁, fun d _ => .refl d _, _, rfl, h₁, rfl⟩

/-- The new watermark is not below the old, and a read-only attach makes no other. -/
theorem safe_newWatermark (t' : TableInformation) (commits : List UCAPICommit) (hs : WatermarkInv s)
    (h : Seen c (some t'.read_only) wm s) :
    t.keepingWatermark.Safe c (t'.newWatermark commits wm) (fun x s => (∀ wm', x = .ok wm' →
      NotBelow wm' wm ∧ (t'.read_only = true → wm' = wm)) ∧ Seen c (some t'.read_only) wm s) s := by
  rw [newWatermark]
  split_ifs with hreader
  · intro s' hr hs'
    refine ⟨?_, stable_seen (t := t) s s' hr hs hs' h⟩
    intro wm' heq
    obtain rfl := Except.ok.inj heq
    exact ⟨NotBelow.refl wm, fun _ => rfl⟩
  · have hwriter : t'.read_only = false := by simpa using hreader
    rw [hwriter] at h ⊢
    have hreturns : (t'.backfillCommits commits wm).Returns fun wm' => NotBelow wm' wm :=
      t'.returns_backfillLoop _ wm
    refine ((safe_files (t'.uses_backfillLoop _ wm) hs h).returns hreturns).mono ?_
    rintro x s' ⟨hok, hseen⟩
    exact ⟨fun wm' heq => ⟨hok wm' heq, fun hr => by cases hr⟩, hseen⟩

/-- And it is published. -/
theorem safe_publishWatermark {f : UCCommitState → UCCommitState} {wm' : Option ℕ}
    (hf : ∀ cs, (f cs).backfilled_version = wm') (hup : NotBelow wm' wm)
    (hreader : call = some true → wm' = wm) (hs : WatermarkInv s) (h : Seen c call wm s) :
    t.keepingWatermark.Safe c (updateCommitState f) (fun _ => Locked c call) s := by
  refine Outline.safe_perform (fun _ => stable_locked) ?_
  intro s₁ hr hs₁ ch x s₂ _ ha
  have h₁ := stable_seen (t := t) s s₁ hr hs hs₁ h
  obtain ⟨rfl, rfl⟩ := Prod.mk.inj (Option.some.inj ha)
  refine ⟨watermarkInv_write hs₁ ?_ ?_, ?_, h₁.lock, h₁.call⟩
  · rw [hf, h₁.seen]
    exact hup
  · intro hcall
    rw [hf, h₁.seen]
    exact hreader (h₁.call.symm.trans hcall)
  · intro d hd
    refine ⟨rfl, ?_⟩
    intro hl
    exact absurd (Option.some.inj (h₁.lock.symm.trans hl)).symm hd

theorem safe_loadCommits_keeping (t' : TableInformation) (hs : WatermarkInv s)
    (h : Locked c (some t'.read_only) s) :
    t.keepingWatermark.Safe c t'.loadCommits (fun _ => Locked c (some t'.read_only)) s := by
  have throws (e : Exception) (s : WatermarkState) (hs : WatermarkInv s)
      (h : Locked c (some t'.read_only) s) : t.keepingWatermark.Safe c
        (Prog.throw e : Run UCAPICommitsResult) (fun _ => Locked c (some t'.read_only)) s :=
    Outline.safe_ofExcept (x := .error e) stable_locked hs h
  have hload : t'.loadTable.Uses Op.IsIdle := by
    rw [loadTable, UCAPI.loadTable_eq]
    refine (Prog.uses_perform trivial).bind fun _ => (Prog.uses_perform trivial).bind fun _ => ?_
    exact (Prog.uses_perform trivial).bind fun resp => Prog.uses_ofExcept _
  refine Outline.Safe.bind (safe_idle hload stable_locked hs h) hs (fun commits s₁ hs₁ h₁ =>
    ?_) throws
  refine Outline.Safe.bind (safe_readCommitState hs₁ h₁) hs₁ ?_ ?_
  · rintro cs s₂ hs₂ ⟨cs', heq, h₂⟩
    obtain rfl := Except.ok.inj heq
    refine Outline.Safe.bind (safe_newWatermark t' commits.commits hs₂ h₂) hs₂ ?_ ?_
    · rintro wm' s₃ hs₃ ⟨hok, h₃⟩
      obtain ⟨hup, hsame⟩ := hok wm' rfl
      have hreader : some t'.read_only = some true → wm' = cs.backfilled_version :=
        fun heq => hsame (Option.some.inj heq)
      refine Outline.Safe.bind (safe_publishWatermark (fun _ => rfl) hup hreader hs₃ h₃) hs₃
        (fun _ s₄ hs₄ h₄ => ?_) throws
      exact Outline.safe_ofExcept (x := .ok commits) stable_locked hs₄ h₄
    · exact fun e s₃ hs₃ h₃ => throws e s₃ hs₃ h₃.2.toLocked
  · rintro e s₂ hs₂ ⟨cs', heq, -⟩
    cases heq

theorem safe_attachFresh_keeping (t' : TableInformation) (hs : WatermarkInv s)
    (h : Locked c (some t'.read_only) s) :
    t.keepingWatermark.Safe c t'.attachFresh (fun _ => Locked c (some t'.read_only)) s := by
  have throws {α : Type} (e : Exception) (s : WatermarkState) (hs : WatermarkInv s)
      (h : Locked c (some t'.read_only) s) : t.keepingWatermark.Safe c (Prog.throw e : Run α)
        (fun _ => Locked c (some t'.read_only)) s :=
    Outline.safe_ofExcept (x := .error e) stable_locked hs h
  have hmanaged :
      t.keepingWatermark.Safe c t'.loadManaged (fun _ => Locked c (some t'.read_only)) s := by
    rw [loadManaged]
    split
    · refine Outline.Safe.bind (safe_loadCommits_keeping t' hs h) hs (fun commits s₁ hs₁ h₁ =>
        ?_) throws
      exact Outline.safe_ofExcept (x := .ok (some commits)) stable_locked hs₁ h₁
    · exact Outline.safe_ofExcept (x := .ok none) stable_locked hs h
  refine Outline.Safe.bind hmanaged hs (fun managed s₁ hs₁ h₁ => ?_) throws
  refine safe_idle ?_ stable_locked hs₁ h₁
  exact (Prog.uses_perform trivial).bind fun db => Prog.uses_perform trivial

/-- A call under the lock. -/
theorem safe_withAttachLock_keeping {α : Type} {p : Run α}
    (hp : ∀ s, WatermarkInv s → Locked c call s →
      t.keepingWatermark.Safe c p (fun _ => Locked c call) s)
    (hs : WatermarkInv s) (h : s.attaching c = call) :
    t.keepingWatermark.Safe c (withAttachLock p) (fun _ s => s.attaching c = call) s := by
  refine Outline.Safe.bracket (O := t.keepingWatermark) (c := c) (K := fun _ => Locked c call)
    (L := fun _ s => s.attaching c = call) ?_ hs hp ?_ (fun _ => stable_locked) fun _ => stable_call
  · refine Outline.safe_perform
      (fun x u v hr hu hv h => ⟨h.1, stable_locked (t := t) u v hr hu hv h.2⟩) ?_
    intro s₁ hr hs₁ ch x s₂ _ ha
    have ha : s₁.answer c .lockAttach ch = some (x, s₂) := ha
    simp only [WatermarkState.answer] at ha
    split at ha
    · rename_i hfree
      obtain ⟨rfl, rfl⟩ := Prod.mk.inj (Option.some.inj ha)
      refine ⟨⟨hs₁.now, hs₁.up, hs₁.copied, hs₁.moved⟩, fun d hd => ⟨rfl, fun hl => ?_⟩, rfl, rfl,
        hr.attaching.trans h⟩
      rw [hfree] at hl
      cases hl
    · cases ha
  · intro r s hs h
    refine Outline.safe_perform
      (fun x u v hr hu hv h => ⟨h.1, stable_call (t := t) u v hr hu hv h.2⟩) ?_
    intro u hr hu ch x u' _ ha
    have h := stable_locked (t := t) s u hr hs hu h
    obtain ⟨rfl, rfl⟩ := Prod.mk.inj (Option.some.inj ha)
    refine ⟨⟨hu.now, hu.up, hu.copied, hu.moved⟩, fun d hd => ⟨rfl, fun hl => ?_⟩, rfl, h.call⟩
    exact absurd (Option.some.inj (h.lock.symm.trans hl)).symm hd

/-- **`InternalAttach`** moves the watermark up, or not at all where it is read-only. -/
theorem safe_internalAttach_keeping (t' : TableInformation) (hs : WatermarkInv s)
    (h : s.attaching c = some t'.read_only) :
    t.keepingWatermark.Safe c t'.internalAttach (fun _ _ => True) s := by
  refine (safe_withAttachLock_keeping (fun s hs h => ?_) hs h).mono fun _ _ _ => trivial
  have throws {α : Type} (e : Exception) (s : WatermarkState) (hs : WatermarkInv s)
      (h : Locked c (some t'.read_only) s) : t.keepingWatermark.Safe c (Prog.throw e : Run α)
        (fun _ => Locked c (some t'.read_only)) s :=
    Outline.safe_ofExcept (x := .error e) stable_locked hs h
  -- the end of the call: nothing to do where a database is attached
  have htail (s : WatermarkState) (hs : WatermarkInv s) (h : Locked c (some t'.read_only) s) :
      t.keepingWatermark.Safe c (attached.bind fun db => if db.isSome then pure ()
        else t'.attachFresh)
        (fun _ => Locked c (some t'.read_only)) s := by
    refine Outline.Safe.bind (safe_idle (Prog.uses_perform trivial) stable_locked hs h) hs
      (fun db s₁ hs₁ h₁ => ?_) throws
    split
    · exact Outline.safe_ofExcept (x := .ok ()) stable_locked hs₁ h₁
    · exact safe_attachFresh_keeping t' hs₁ h₁
  have hread : readByThisTransaction.Uses Op.IsIdle := by
    refine (Prog.uses_perform trivial).bind fun db => ?_
    cases db with
    | some db => exact Prog.uses_perform trivial
    | none => trivial
  have hdetach : t'.internalDetach.Uses Op.IsIdle := by
    refine (Prog.uses_perform trivial).bind fun db => ?_
    split
    · exact (Prog.uses_perform trivial).bind fun _ => Prog.uses_perform trivial
    · trivial
  refine Outline.Safe.bind (safe_idle hread stable_locked hs h) hs (fun read s₁ hs₁ h₁ => ?_) throws
  refine Outline.Safe.bind (safe_idle (Prog.uses_perform trivial) stable_locked hs₁ h₁) hs₁
    (fun dirty s₂ hs₂ h₂ => ?_) throws
  split
  · refine Outline.Safe.bind (safe_idle hdetach stable_locked hs₂ h₂) hs₂ (fun _ s₃ hs₃ h₃ =>
      ?_) throws
    exact Outline.Safe.bind (safe_idle (Prog.uses_perform trivial) stable_locked hs₃ h₃) hs₃
      (fun _ s₄ hs₄ h₄ => htail s₄ hs₄ h₄) throws
  · exact htail s₂ hs₂ h₂

/-! ## `UCDeltaCCV2CommitExecute` -/

/-- **`UCDeltaCCV2CommitExecute`** leaves the watermark alone. -/
theorem safe_commitExecute_keeping {res : StagedCommit} (hs : WatermarkInv s)
    (h : s.attaching c = none) :
    t.keepingWatermark.Safe c (t.commitExecute res) (fun _ _ => True) s := by
  have hread : t.keepingWatermark.Safe c readCommitState (fun _ s => s.attaching c = none) s := by
    refine Outline.safe_perform (fun _ => stable_call) ?_
    intro s₁ hr hs₁ ch x s₂ _ ha
    obtain ⟨rfl, rfl⟩ := Prod.mk.inj (Option.some.inj ha)
    exact ⟨hs₁, fun d _ => .refl d _, hr.attaching.trans h⟩
  have hupdate (commit : AddCommit) :
    (UCAPI.updateTable t.table_data.catalog_name t.table_data.schema_name
      t.table_data.name t.credentials commit).Uses Op.IsIdle := by
    rw [UCAPI.updateTable_eq]
    refine (Prog.uses_perform trivial).bind fun _ => (Prog.uses_perform trivial).bind fun _ => ?_
    exact (Prog.uses_perform trivial).bind fun resp => Prog.uses_ofExcept _
  refine Outline.Safe.bind_keeps hread hs fun cs s₁ hs₁ h₁ => ?_
  refine Outline.Safe.bind_keeps (safe_idle (hupdate _) stable_call hs₁ h₁) hs₁
    fun etag s₂ hs₂ h₂ => ?_
  have hmark :
      t.keepingWatermark.Safe c (withAttachLock markDirty) (fun _ s => s.attaching c = none) s₂ :=
    safe_withAttachLock_keeping (fun s hs h =>
      safe_idle (Prog.uses_perform trivial) stable_locked hs h) hs₂ h₂
  refine Outline.Safe.bind_keeps hmark hs₂ fun _ s₃ hs₃ h₃ => ?_
  refine Outline.safe_perform (fun _ => Outline.stable_const True) ?_
  intro s₄ hr hs₄ ch x s₅ _ ha
  obtain ⟨rfl, rfl⟩ := Prod.mk.inj (Option.some.inj ha)
  refine ⟨watermarkInv_write hs₄ (NotBelow.refl _) fun _ => rfl, fun d _ =>
    ⟨rfl, fun hl => ⟨hl, rfl⟩⟩, trivial⟩

/-! ## Runs -/

theorem watermarkInv_of_reachable {cfg : t.watermarkThreads.Config}
    (h : t.watermarkThreads.system.Reachable cfg) : WatermarkInv cfg.state := by
  have hguard : t.keepingWatermark.Unguarded := ⟨fun _ _ _ _ => trivial, fun _ _ => trivial⟩
  refine (Outline.sound (O := t.keepingWatermark) (Q := fun _ _ _ =>
    True) ?_ ?_ ?_ ?_ (hguard.reachable h)).1
  · rintro s ⟨-, hhistory, hcopied, hmoved⟩
    refine ⟨?_, ?_, ?_, ?_⟩
    · rw [hhistory]
      rfl
    · rw [hhistory]
      exact List.pairwise_singleton _ _
    · rw [hcopied]
      exact List.not_mem_nil
    · rw [hmoved]
      exact List.not_mem_nil
  · intro (s : WatermarkState) (c : ℕ) call p s' (hs : WatermarkInv s) hst
    have others (o : Option Bool) (d : ℕ) (hd : d ≠ c) :
        WatermarkRely d s { s with attaching := Function.update s.attaching c o } :=
      ⟨Function.update_of_ne hd .., fun hl => ⟨hl, rfl⟩⟩
    cases call with
    | attach read_only =>
      obtain ⟨rfl, rfl⟩ := Prod.mk.inj (Option.some.inj hst)
      have hinv :
          WatermarkInv { s with attaching := Function.update s.attaching c (some read_only) } :=
        ⟨hs.now, hs.up, hs.copied, hs.moved⟩
      exact ⟨hinv, others _,
        safe_internalAttach_keeping { t with read_only } hinv (Function.update_self ..)⟩
    | commit res =>
      obtain ⟨rfl, rfl⟩ := Prod.mk.inj (Option.some.inj hst)
      have hinv : WatermarkInv { s with attaching := Function.update s.attaching c none } :=
        ⟨hs.now, hs.up, hs.copied, hs.moved⟩
      exact ⟨hinv, others _, safe_commitExecute_keeping hinv (Function.update_self ..)⟩
  · intro (s : WatermarkState) (c : ℕ) r (hs : WatermarkInv s) _
    exact ⟨⟨hs.now, hs.up, hs.copied, hs.moved⟩,
      fun d (hd : d ≠ c) => ⟨Function.update_of_ne hd .., fun hl => ⟨hl, rfl⟩⟩⟩
  · intro s e
    exact e.elim

/-- The commits in any ascending order: how those of one version are sorted is open. -/
theorem backfillLoop_gapless (t : TableInformation) {W : World Client Exception} {x : W.Ctx}
    {u u' : W.State} {commits ordered : List UCAPICommit} (hperm : ordered.Perm commits)
    (hsorted : ordered.Pairwise fun a b => a.version ≤ b.version) {start : Option ℕ}
    {r : Except Exception (Option ℕ)} (h : (t.backfillLoop ordered start).Exec x u r u') :
    ∃ result attempts, r = .ok result ∧
      (t.backfillLoopTelling ordered start).Exec x u (.ok (result, attempts)) u' ∧
      Gapless commits start result attempts := by
  obtain ⟨result, attempts, rfl, htelling⟩ := (t.exec_backfillLoop_iff ordered).1 h
  exact ⟨result, attempts, rfl, htelling,
    (t.backfillLoopTelling_gapless hsorted htelling).perm hperm⟩

/-- **The watermark moves without gaps.** `BackfillCommits` attempts the commits above the watermark
in ascending order, whatever order those of one version are in, stops at the first failure, and
returns a watermark that is not below where it started, covers published versions only, and is below
what failed; the attempts are those of the run, which its loop tells.
In every interleaving of `InternalAttach` calls, and commits, on one table, the watermark is never
below a value it had, and a read-only attach touches no file and does not change it. -/
theorem watermark_without_gaps (t : TableInformation) :
    (∀ (W : World Client Exception) (x : W.Ctx) (u u' : W.State)
      (commits ordered : List UCAPICommit) (start : Option ℕ)
      (r : Except Exception (Option ℕ)), ordered.Perm commits →
      (ordered.Pairwise fun a b => a.version ≤ b.version) →
        (t.backfillLoop ordered start).Exec x u r u' →
      ∃ result attempts, r = .ok result ∧
        (t.backfillLoopTelling ordered start).Exec x u (.ok (result, attempts)) u' ∧
        Gapless commits start result attempts) ∧
    (∀ (W : World Client Exception) (x : W.Ctx) (u u' : W.State) (commits : List UCAPICommit)
      (start : Option ℕ) (r : Except Exception (Option ℕ)),
      (t.backfillCommits commits start).Exec x u r u' →
      ∃ result attempts, r = .ok result ∧
        (t.backfillLoopTelling (orderedCommits commits) start).Exec x u
          (.ok (result, attempts)) u' ∧
        Gapless commits start result attempts) ∧
    ∀ cfg : t.watermarkThreads.Config, t.watermarkThreads.system.Reachable cfg →
      WatermarkInv cfg.state := by
  refine ⟨?_, ?_, fun cfg h => watermarkInv_of_reachable h⟩
  · intro W x u u' commits ordered start r hperm hsorted h
    exact t.backfillLoop_gapless hperm hsorted h
  · intro W x u u' commits start r h
    have hsorted : (orderedCommits commits).Pairwise fun a b => a.version ≤ b.version :=
      List.pairwise_insertionSort _ _
    exact t.backfillLoop_gapless (List.perm_insertionSort _ commits) hsorted h

/-! ### Four commits, one of which cannot be copied -/

/-- A load of the table that lists the latest commit first. -/
def gappedResponse : HttpResponse where
  status := 200
  success := true
  body := "\x7b\"commits\":[" ++
    "\x7b\"version\":4,\"timestamp\":1,\"file-name\":\"d\",\"file-size\":0," ++
      "\"file-modification-timestamp\":1\x7d," ++
    "\x7b\"version\":2,\"timestamp\":1,\"file-name\":\"b\",\"file-size\":0," ++
      "\"file-modification-timestamp\":1\x7d]\x7d"

/-- Version 1 is published already, and the staged file of version 4 cannot be opened. -/
def gappedAnswer : (op : Op) → Except Exception op.Ans
  | .lockAttach | .unlockAttach | .ensureHttpfs | .issue _ => .ok ()
  | .answer => .ok gappedResponse
  | .isDirty => .ok false
  | .attached => .ok none
  | .setAttached _ => .ok ()
  | .attachDatabase _ => .ok 0
  | .openRead path => if path = exampleTable.stagedPath "d" then .error (ioException path)
    else .ok 0
  | .openExclusive path => .ok (path ≠ exampleTable.publishedPath 1)
  | .readFile _ _ => .ok []
  | .closeFile _ => .ok ()
  | _ => .error (internalException "not asked")

/-- An `InternalAttach`, to its end. -/
def gappedAttach (thread : ℕ) : List exampleTable.watermarkThreads.Label :=
  .start thread (.attach false) :: List.replicate 17 (.op thread gappedAnswer) ++ [.finish thread]

/-- Nothing has been backfilled. -/
def gappedStart : exampleTable.watermarkThreads.Config :=
  ⟨({ history := [none] } : WatermarkState), fun _ => none⟩

/-- Four commits, two of them of version 1. -/
def gappedCommits : List UCAPICommit :=
  [⟨4, 1, "d", 0, 1⟩, ⟨1, 1, "a", 0, 1⟩, ⟨2, 1, "b", 0, 1⟩, ⟨1, 1, "a2", 0, 1⟩]

/-- Version 1 is there, 2 is copied, 4 fails: the watermark stops below it, also in a run of an
`InternalAttach` that loads 4 and 2. -/
theorem watermark_without_gaps_four :
    (∃ attempts : List Attempt, Gapless gappedCommits none (some 2) attempts ∧
      attempts.map (fun a => (a.1.version, a.2.toOption)) = [(1, some false), (2, some true),
        (4, none)]) ∧
    ∃ cfg :
      exampleTable.watermarkThreads.Config, WatermarkState.history cfg.state = [some 2, none] ∧
      WatermarkInv cfg.state := by
  obtain ⟨-, hbackfill, hruns⟩ := watermark_without_gaps exampleTable
  constructor
  · have hexec : (exampleTable.backfillCommits gappedCommits none).Exec
        (W := Prog.det (fun (_ : Unit) op => (gappedAnswer op, ()))) () () (.ok (some 2)) () :=
      Prog.exec_det.2 (by decide +kernel)
    obtain ⟨result, attempts, hr, htelling, hgapless⟩ := hbackfill _ _ _ _ _ _ _ hexec
    obtain rfl := Except.ok.inj hr
    have htold : ((exampleTable.backfillLoopTelling (orderedCommits gappedCommits) none).eval
        (fun (_ : Unit) op => (gappedAnswer op, ())) ()).1.map
          (fun x => x.2.map fun a => (a.1.version, a.2.toOption)) =
        .ok [(1, some false), (2, some true), (4, none)] := by
      decide +kernel
    rw [Prog.exec_det.1 htelling] at htold
    exact ⟨attempts, hgapless, Except.ok.inj htold⟩
  · have h :
      (exampleTable.watermarkThreads.replay (fun _ _ => true) (gappedAttach 0) gappedStart).map
        (fun cfg : exampleTable.watermarkThreads.Config => WatermarkState.history cfg.state) =
          some [some 2, none] := by
      decide +kernel
    obtain ⟨cfg, hcfg, hhistory⟩ := Option.map_eq_some_iff.1 h
    exact ⟨cfg, hhistory, hruns cfg ⟨gappedStart, ⟨⟨rfl, rfl, rfl, rfl⟩, rfl⟩,
      Pool.run_of_replay (fun _ _ _ => trivial) hcfg⟩⟩

end TableInformation

end UnityCatalog
