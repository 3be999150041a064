import UnityCatalog.Session

/-!
# Runs of one session

What `InternalAttach` promises over whole runs of a session, from any order of its transactions'
calls and the other clients' commits: that a session recovers from a refused commit. It holds in the
runs that stay clear of one step, and fails as soon as that step is taken.
-/

namespace UnityCatalog

open Effectful Yyjson

namespace ManagedTable

variable {t : ManagedTable} {s s' : SessionState}

/-! ## Recovering from a refused commit -/

/-- After a refused commit, the next `InternalAttach` by a transaction that has not read what is
attached loads the table; where `LoadTable` returns, the current etag is stored, and the commit of
the next version is not refused any more. -/
def Recovers (t : ManagedTable) (s : SessionState) : Prop :=
  s.owed = true → ∀ txn r s', ¬ s.HasRead txn →
    t.internalAttach.Exec (W := t.Session) txn s r s' →
      s'.loads = s.loads + 1 ∧ (s'.loaded = s.loaded + 1 ∨ ∃ e, r = .error e) ∧
      (s'.loaded = s.loaded + 1 → s'.commit_state.etag = s'.catalog.etag ∧
        ∀ res : StagedCommit, res.version = s'.catalog.version + 1 →
          s'.catalog.refuses (t.addCommit res s'.commit_state) = false)

/-- A commit is refused only where the table is dirty already, or nothing is attached. -/
def RefusedWhereDirty (t : ManagedTable) (s : SessionState) : SessionLabel → Prop
  | .commit _ res => s.catalog.refuses (t.addCommit res s.commit_state) = true →
      s.is_dirty = true ∨ s.attached = none
  | _ => True

/-- What a refused commit leaves for the next `InternalAttach` to find. -/
def OwedIsDirty (s : SessionState) : Prop :=
  s.owed = true → s.is_dirty = true ∨ s.attached = none

/-- One step keeps the invariant: a commit marks the entry, and only what serves the mark takes it
away. -/
theorem owedIsDirty_step {l : SessionLabel} (hi : OwedIsDirty s) (hok : t.RefusedWhereDirty s l)
    (h : t.sessionStep s l s') : OwedIsDirty s' := by
  cases l with
  | attach txn =>
    obtain ⟨r, s₁, he, ⟨hread, rfl⟩ | ⟨-, rfl⟩⟩ := h
    · rcases session_internalAttach he with ⟨-, rfl, -⟩ | ⟨hfresh, -⟩
      · exact hi
      · rcases hfresh with hnone | ⟨-, hnot⟩
        · obtain ⟨db, hdb, -⟩ := hread
          rw [hnone] at hdb
          cases hdb
        · exact absurd hread hnot
    · intro howed
      cases howed
  | read txn =>
    obtain ⟨db, -, rfl⟩ := h
    exact hi
  | commit txn res =>
    obtain ⟨r, s₁, he, rfl⟩ := h
    obtain ⟨etag, cat, -, ⟨e, -, -, rfl⟩ | ⟨e, -, rfl⟩⟩ := session_commitExecute he
    · exact fun _ => .inl rfl
    · intro howed
      rcases Bool.or_eq_true_iff.1 howed with howed | hrefused
      · exact hi howed
      · exact hok hrefused
  | outside etag =>
    obtain ⟨-, -, rfl⟩ := h
    exact hi
  | finish txn =>
    obtain rfl := h
    exact hi

/-- **A session recovers from a refused commit** in every run in which commits are refused only
where the table is dirty already or nothing is attached. -/
theorem recovers_of_refusedWhereDirty
    (h : t.sessions.ReachableWhile (t.RefusedWhereDirty) s) : t.Recovers s := by
  have hi : OwedIsDirty s := by
    refine h.invariant (I := OwedIsDirty) ?_ fun u l v hu hok hst => owedIsDirty_step hu hok hst
    intro s₀ h₀ howed
    rw [h₀] at howed
    cases howed
  intro howed txn r s' hnr he
  rcases session_internalAttach he with ⟨-, -, hne, hread⟩ | ⟨-, hre⟩
  · rcases hi howed with hdirty | hnone
    · exact absurd (hread hdirty) hnr
    · exact absurd hnone hne
  · refine ⟨hre.loads, ?_, ?_⟩
    · rcases hre.etag with ⟨hl, -⟩ | ⟨-, he⟩
      · exact .inl hl
      · exact .inr he
    · intro hl
      rcases hre.etag with ⟨-, hetag⟩ | ⟨hl', -⟩
      · rw [← hre.catalog] at hetag
        refine ⟨hetag, fun res hv => ?_⟩
        simp [CatalogTable.refuses, TableInformation.addCommit, hetag, hv]
      · omega

/-! ## Two runs -/

/-- An `InternalAttach` that finds a database and no reason to give it up keeps it. -/
theorem session_keeps (txn : ℕ) (hne : s.attached ≠ none)
    (hread : s.is_dirty = true → s.HasRead txn) :
    t.internalAttach.Exec (W := t.Session) txn s (.ok ()) s := by
  rw [TableInformation.internalAttach, session_withAttachLock]
  classical
  refine Prog.exec_bind.2 (.inl ⟨decide (s.HasRead txn), s,
    session_readByThisTransaction.2 ⟨rfl, _, rfl, decide_eq_true_iff⟩, ?_⟩)
  refine Prog.exec_bind.2 (.inl ⟨s.is_dirty, s, session_isDirty.2 ⟨rfl, rfl⟩, ?_⟩)
  rw [if_neg]
  · refine Prog.exec_bind.2 (.inl ⟨s.attached, s, session_attached.2 ⟨rfl, rfl⟩, ?_⟩)
    rw [if_pos (Option.isSome_iff_ne_none.2 hne)]
    exact ⟨rfl, rfl⟩
  · simpa using hread

/-- Attaching with an answer that lists no commits. -/
theorem session_attaches_fresh {txn : ℕ} {resp : HttpResponse} {result : UCAPICommitsResult}
    (hout : t.loadOutcome resp = .ok result) (hetag : result.etag = s.catalog.etag)
    (hnil : result.commits = []) :
    t.attachFresh.Exec (W := t.Session) txn s (.ok ()) { s with
      attached := some s.next_db, next_db := s.next_db + 1, loads := s.loads + 1
      loaded := s.loaded + 1, pending := none
      commit_state := ⟨result.etag, s.commit_state.backfilled_version⟩ } := by
  have hload : t.loadTable.Exec (W := t.Session) txn s (.ok result) { s with
      loads := s.loads + 1, loaded := s.loaded + 1, pending := none } := by
    refine session_request.2 ⟨.respond resp none, .ok resp, ?_, hout.symm⟩
    simp only [reply, hout]
    rw [if_pos hetag]
    rfl
  have hwm : ∀ {u : SessionState} {wm : Option ℕ},
      (t.newWatermark result.commits wm).Exec (W := t.Session) txn u (.ok wm) u := by
    intro u wm
    rw [hnil, TableInformation.newWatermark]
    split <;> exact ⟨rfl, rfl⟩
  have hcommits : t.loadCommits.Exec (W := t.Session) txn s (.ok result) { s with
      loads := s.loads + 1, loaded := s.loaded + 1, pending := none
      commit_state := ⟨result.etag, s.commit_state.backfilled_version⟩ } := by
    refine Prog.exec_bind.2 (.inl ⟨result, _, hload, ?_⟩)
    refine Prog.exec_bind.2 (.inl ⟨_, _, session_readCommitState.2 ⟨rfl, rfl⟩, ?_⟩)
    refine Prog.exec_bind.2 (.inl ⟨_, _, hwm, ?_⟩)
    exact Prog.exec_bind.2 (.inl ⟨(), _, session_updateCommitState.2 ⟨rfl, rfl⟩, rfl, rfl⟩)
  have hmanaged : t.loadManaged.Exec (W := t.Session) txn s (.ok (some result)) { s with
      loads := s.loads + 1, loaded := s.loaded + 1, pending := none
      commit_state := ⟨result.etag, s.commit_state.backfilled_version⟩ } := by
    rw [TableInformation.loadManaged, if_pos t.managed]
    exact Prog.exec_bind.2 (.inl ⟨result, _, hcommits, rfl, rfl⟩)
  refine Prog.exec_bind.2 (.inl ⟨some result, _, hmanaged, ?_⟩)
  refine Prog.exec_bind.2 (.inl ⟨s.next_db, _, session_attachDatabase.2 (.inl ⟨rfl, rfl⟩), ?_⟩)
  exact session_setAttached.2 ⟨rfl, rfl⟩

/-- An `InternalAttach` that finds nothing loads the table and attaches it with the etag it got. -/
theorem session_attaches (txn : ℕ) {resp : HttpResponse} {result : UCAPICommitsResult}
    (hnone : s.attached = none) (hclean : s.is_dirty = false)
    (hout : t.loadOutcome resp = .ok result) (hetag : result.etag = s.catalog.etag)
    (hnil : result.commits = []) :
    t.internalAttach.Exec (W := t.Session) txn s (.ok ()) { s with
      attached := some s.next_db, next_db := s.next_db + 1, loads := s.loads + 1
      loaded := s.loaded + 1, pending := none
      commit_state := ⟨result.etag, s.commit_state.backfilled_version⟩ } := by
  rw [TableInformation.internalAttach, session_withAttachLock]
  classical
  refine Prog.exec_bind.2 (.inl ⟨decide (s.HasRead txn), s,
    session_readByThisTransaction.2 ⟨rfl, _, rfl, decide_eq_true_iff⟩, ?_⟩)
  refine Prog.exec_bind.2 (.inl ⟨s.is_dirty, s, session_isDirty.2 ⟨rfl, rfl⟩, ?_⟩)
  rw [if_neg (by simp [hclean])]
  refine Prog.exec_bind.2 (.inl ⟨s.attached, s, session_attached.2 ⟨rfl, rfl⟩, ?_⟩)
  rw [if_neg (by simp [hnone])]
  exact session_attaches_fresh hout hetag hnil

/-- A commit that is refused leaves all as it was. -/
theorem session_refused {txn : ℕ} {res : StagedCommit} {resp : HttpResponse} {e : Exception}
    (hout : t.updateOutcome resp = .error e) :
    (t.commitExecute res).Exec (W := t.Session) txn s (.error e) { s with pending := none } := by
  refine Prog.exec_bind.2 (.inl ⟨_, _, session_readCommitState.2 ⟨rfl, rfl⟩, ?_⟩)
  refine Prog.exec_bind.2 (.inr ⟨e, session_request.2 ⟨.respond resp none, .ok resp, ?_, ?_⟩, rfl⟩)
  · simp only [reply, CatalogTable.take, Option.bind_some, hout]
    rfl
  · exact hout.symm

/-- A commit that the catalog takes stores the new etag and marks the entry. -/
theorem session_commits {txn : ℕ} {res : StagedCommit} {resp : HttpResponse} {e : String}
    {cat : CatalogTable} (hout : t.updateOutcome resp = .ok e)
    (hcat : s.catalog.take (t.addCommit res s.commit_state) (some e) = some cat) :
    (t.commitExecute res).Exec (W := t.Session) txn s (.ok ()) { s with
      catalog := cat, is_dirty := true, pending := none
      commit_state := { s.commit_state with etag := e } } := by
  have hupdate : (UCAPI.updateTable t.table_data.catalog_name t.table_data.schema_name
      t.table_data.name t.credentials (t.addCommit res s.commit_state)).Exec (W := t.Session) txn s
      (.ok e) { s with catalog := cat, pending := none } := by
    refine session_request.2 ⟨.respond resp (some e), .ok resp, ?_, hout.symm⟩
    simp only [reply, hcat, Option.bind_some, hout, if_true]
    rfl
  refine Prog.exec_bind.2 (.inl ⟨_, _, session_readCommitState.2 ⟨rfl, rfl⟩, ?_⟩)
  refine Prog.exec_bind.2 (.inl ⟨e, _, hupdate, ?_⟩)
  refine Prog.exec_bind.2
    (.inl ⟨(), _, session_withAttachLock.2 (session_setDirty.2 ⟨rfl, rfl⟩), ?_⟩)
  exact session_updateCommitState.2 ⟨rfl, rfl⟩

end ManagedTable

theorem example_loadOutcome :
    exampleManaged.loadOutcome (etagResponse "e1") = .ok { etag := "e1" } := by
  decide +kernel

theorem example_updateOutcome : exampleManaged.updateOutcome (etagResponse "e2") = .ok "e2" := by
  decide +kernel

theorem example_refuses :
    exampleManaged.updateOutcome conflictResponse = .error (requestFailed (tableUrl
      exampleTable.credentials "c" "s" "t") conflictResponse) := by
  rfl

namespace ManagedTable

open SessionState

/-- The session before its first attach, with the table at version 1. -/
def exampleStart : SessionState := { catalog := ⟨"e1", 1, []⟩ }

/-- After a transaction attached it. -/
def exampleAttached : SessionState :=
  { catalog := ⟨"e1", 1, []⟩, attached := some 0, next_db := 1, loads := 1, loaded := 1
    commit_state := ⟨"e1", none⟩ }

theorem example_attaches (ok : SessionState → SessionLabel → Prop)
    (hok : ok exampleStart (.attach 0)) :
    exampleManaged.sessions.ReachableWhile ok exampleAttached := by
  have hnr : ¬ exampleStart.HasRead 0 := fun ⟨_, h, _⟩ => nomatch h
  have he := session_attaches (t := exampleManaged) (s := exampleStart) 0 rfl rfl
    example_loadOutcome rfl rfl
  exact ⟨exampleStart, rfl, .tail (.attach 0) .refl hok ⟨_, _, he, .inr ⟨hnr, rfl⟩⟩⟩

/-- A commit that comes second is refused, and the next transaction finds the table clean, with the
stale etag. -/
theorem refused_commit_sticks :
    ∃ s, exampleManaged.sessions.Reachable s ∧ ¬ exampleManaged.Recovers s := by
  have h₁ := example_attaches (fun _ _ => True) trivial
  have h₂ : exampleManaged.sessions.Reachable
      { exampleAttached with catalog := ⟨"e2", 2, ["e1"]⟩ } :=
    h₁.run (.tail (.outside "e2") .refl trivial ⟨by decide, by decide, rfl⟩)
  have h₃ : exampleManaged.sessions.Reachable
      { exampleAttached with catalog := ⟨"e2", 2, ["e1"]⟩, owed := true } :=
    h₂.run (.tail (.commit 0 ⟨"/t/_delta_log/_staged_commits/f", 1, 1, 2, 1⟩) .refl trivial
      ⟨_, _, session_refused example_refuses, rfl⟩)
  refine ⟨_, h₃, fun hrec => ?_⟩
  have hnr : ¬ SessionState.HasRead
      { exampleAttached with catalog := ⟨"e2", 2, ["e1"]⟩, owed := true } 1 :=
    fun ⟨_, _, h⟩ => nomatch h
  have hkeep := session_keeps (t := exampleManaged)
    (s := { exampleAttached with catalog := ⟨"e2", 2, ["e1"]⟩, owed := true }) 1 nofun nofun
  obtain ⟨hloads, -⟩ := hrec rfl 1 _ _ hnr hkeep
  cases hloads

/-- A refused commit after one that went through: the table is dirty, and the session recovers. -/
theorem recovers_of_refusedWhereDirty_second :
    exampleManaged.Recovers { exampleAttached with
      catalog := ⟨"e3", 3, ["e2", "e1"]⟩, is_dirty := true, owed := true
      commit_state := ⟨"e2", none⟩ } := by
  have h₁ := example_attaches exampleManaged.RefusedWhereDirty trivial
  have h₂ := h₁.run (.tail (.commit 0 ⟨"/t/_delta_log/_staged_commits/f", 1, 1, 2, 1⟩) .refl
    (fun h => nomatch h) ⟨_, _, session_commits example_updateOutcome rfl, rfl⟩)
  have h₃ := h₂.run (.tail (.outside "e3") .refl trivial ⟨by decide, by decide, rfl⟩)
  have h₄ := h₃.run (.tail (.commit 0 ⟨"/t/_delta_log/_staged_commits/g", 1, 1, 3, 1⟩) .refl
    (fun _ => .inl rfl) ⟨_, _, session_refused example_refuses, rfl⟩)
  exact recovers_of_refusedWhereDirty h₄

end ManagedTable

end UnityCatalog
