import UnityCatalog.FileList

/-!
# A file list after a call that throws

`ExpandNextPath` works on the list in place: a token leaves the queue before it is exchanged, what
an answer hands back joins the queue before its tasks are looked at, and a file is listed before its
references are resolved. `unchanged_iff` says when a call that throws leaves the list as it was.
-/

namespace UnityCatalog

open Effectful

namespace UCMultiFileList

/-! ## What a call leaves -/

/-- The tokens an answer hands back. -/
def handedBack : Except Exception UCScanPlanResult → List String
  | .ok result => result.plan_tasks
  | .error _ => []

/-- The queue behind a call: each request takes a token, and each answer hands some back. -/
def queueAfter : List String → Answers → List String
  | queue, [] => queue
  | queue, answer :: answers => queueAfter (queue.tail ++ handedBack answer) answers

/-- No answer carries a file. -/
def CarryNothing (answers : Answers) : Prop :=
  ∀ result, .ok result ∈ answers → result.file_scan_tasks = []

/-- The members a call of `ExpandNextPath` works on are the same. -/
structure Unchanged (l l' : UCMultiFileList) : Prop where
  tokens : l'.remaining_tokens = l.remaining_tokens
  files : l'.expanded_files = l.expanded_files
  deletes : l'.file_deletes = l.file_deletes

variable {l l' : UCMultiFileList}

/-- Each task is listed before anything of it can fail. -/
theorem addFileScanTasks_length_lt {all_delete_files : List UCScanDeleteFile}
    {tasks : List UCScanPlanFileScanTask} {r : Except Exception Unit} (hne : tasks ≠ [])
    (h : l.addFileScanTasks all_delete_files tasks = (r, l')) :
    l.expanded_files.length < l'.expanded_files.length ∧
      l'.remaining_tokens = l.remaining_tokens := by
  induction tasks generalizing l with
  | nil => exact absurd rfl hne
  | cons task tasks ih =>
    rw [addFileScanTasks, addFileScanTask] at h
    cases hres : task.delete_file_references.mapM (resolveReference task all_delete_files) with
    | error e =>
      simp only [hres] at h
      obtain ⟨-, rfl⟩ := Prod.mk.inj h
      simp
    | ok resolved =>
      simp only [hres] at h
      cases tasks with
      | nil =>
        obtain ⟨-, rfl⟩ := Prod.mk.inj h
        simp
      | cons task' tasks =>
        obtain ⟨hlt, htokens⟩ := ih (List.cons_ne_nil _ _) h
        rw [List.length_append, List.length_singleton] at hlt
        exact ⟨by omega, htokens⟩

variable {W : World Client Exception} {c : W.Ctx} {s s' : W.State} {answers : Answers}
    {e : Exception}

/-- **What a call that throws leaves**: the queue behind all its answers, and the files as they were
exactly if no answer carries one. -/
theorem expandNextPathTelling_error {fuel : ℕ}
    (h : (l.expandNextPathTelling fuel).Exec c s (.ok ((some (.error e), l'), answers)) s') :
    l'.remaining_tokens = queueAfter l.remaining_tokens answers ∧
      (CarryNothing answers ∧ l'.expanded_files = l.expanded_files ∧
        l'.file_deletes = l.file_deletes ∨
        ¬ CarryNothing answers ∧ l.expanded_files.length < l'.expanded_files.length) := by
  -- the fuel bounds the tokens that one call may take
  induction fuel generalizing l answers s s' with
  | zero => cases h.1
  | succ fuel ih =>
    rw [expandNextPathTelling] at h
    split at h
    · cases h.1
    · rename_i token queue hqueue
      rcases Prog.exec_bind.1 h with ⟨answer, s₁, -, h⟩ | ⟨e, -, he⟩
      · rw [hqueue]
        cases answer with
        | error e =>
          obtain ⟨heq, -⟩ := h
          cases heq
          -- the exchange itself failed: the token is gone, and nothing came for it
          refine ⟨(List.append_nil _).symm, .inl ⟨?_, rfl, rfl⟩⟩
          intro result hmem
          simp at hmem
        | ok result =>
          dsimp only at h
          split at h
          · -- the token carried no file: the rest of the call is one on the next
            rename_i hempty
            rcases Prog.exec_bind.1 h with ⟨⟨x, rest⟩, s₂, hrest, heq, -⟩ | ⟨e, -, he⟩
            · cases heq
              obtain ⟨htokens, hfiles⟩ := ih hrest
              have hcarry : CarryNothing (.ok result :: rest) ↔ CarryNothing rest := by
                refine ⟨fun hall r hr => hall r (List.mem_cons_of_mem _ hr), fun hall r hr => ?_⟩
                rcases List.mem_cons.1 hr with hr | hr
                · rw [Except.ok.inj hr, List.isEmpty_iff.1 hempty]
                · exact hall r hr
              rw [hcarry]
              exact ⟨htokens, hfiles⟩
            · cases he
          · rename_i hne
            -- the tasks before the one that threw stay listed
            have hne : result.file_scan_tasks ≠ [] := fun hnil => hne (List.isEmpty_iff.2 hnil)
            obtain ⟨heq, -⟩ := h
            have htake := Prod.mk.inj (Except.ok.inj heq)
            obtain rfl := htake.2
            rw [takeIn] at htake
            cases hadd : addFileScanTasks { l with remaining_tokens := queue ++ result.plan_tasks }
                result.delete_files result.file_scan_tasks with
            | mk r l₁ =>
              rw [hadd] at htake
              obtain ⟨hlt, htokens⟩ := addFileScanTasks_length_lt hne hadd
              cases r with
              | ok u => cases htake.1
              | error e =>
                obtain ⟨-, rfl⟩ := Prod.mk.inj htake.1
                refine ⟨htokens, .inr ⟨fun hall => hne (hall result ?_), hlt⟩⟩
                exact List.mem_singleton_self _
      · cases he

/-- The answers carry no file, and what they hand back makes up for the tokens that were taken. -/
def Restores (l : UCMultiFileList) (answers : Answers) : Prop :=
  CarryNothing answers ∧ queueAfter l.remaining_tokens answers = l.remaining_tokens

/-- **A call that throws leaves the list as it was** exactly if its answers restore the queue and
carry no file: a failed exchange keeps its token, and a dangling reference its file. -/
theorem unchanged_iff {fuel : ℕ}
    (h : (l.expandNextPathTelling fuel).Exec c s (.ok ((some (.error e), l'), answers)) s') :
    Unchanged l l' ↔ l.Restores answers := by
  obtain ⟨htokens, hfiles⟩ := expandNextPathTelling_error h
  constructor
  · intro hsame
    refine ⟨?_, htokens.symm.trans hsame.tokens⟩
    rcases hfiles with ⟨hcarry, -⟩ | ⟨-, hlt⟩
    · exact hcarry
    · rw [hsame.files] at hlt
      omega
  · rintro ⟨hcarry, hqueue⟩
    rcases hfiles with ⟨-, hf, hd⟩ | ⟨hnot, -⟩
    · exact ⟨htokens.trans hqueue, hf, hd⟩
    · exact absurd hcarry hnot

end UCMultiFileList

/-! ### A reference that dangles -/

/-- Every token carries a file whose one reference names no delete file. -/
def danglingServer (_ : HttpRequest) : HttpResponse :=
  ⟨200, true, "", [], "\x7b\"file-scan-tasks\":[\x7b\"data-file\":\x7b\"file-path\":\"f1\"\x7d," ++
    "\"delete-file-references\":[0]\x7d]\x7d"⟩

/-- What is left of a list that held one file and one token: two files, one of them without its
deletes, and no token. -/
def isHalfDone : Except Exception (UCMultiFileList.Outcome × UCMultiFileList) → Bool
  | .ok (some (.error _), l) =>
    l.expanded_files.length == 2 && l.file_deletes.length == 1 && l.remaining_tokens.isEmpty
  | _ => false

/-- The call throws, and leaves a file listed without its delete files and a token lost. -/
theorem failed_expansion_half_done : ∃ l e l' s',
    UCMultiFileList.create chainedScan chainedPlan = .ok l ∧
      (l.expandNextPath 1).Exec (W := TaskServer danglingServer) () {} (.ok (some (.error e),
        l')) s' ∧
        ¬ UCMultiFileList.Unchanged l l' ∧ l'.expanded_files.length ≠ l'.file_deletes.length := by
  have h : isHalfDone ((chainedList.expandNextPath 1).eval (tasksAnswer danglingServer) {}).1 =
      true := by
    decide +kernel
  generalize hrun : (chainedList.expandNextPath 1).eval (tasksAnswer danglingServer) {} = run at h
  obtain ⟨r, s'⟩ := run
  match r, h with
  | .ok (some (.error e), l'), h =>
    have hleft : (l'.expanded_files.length = 2 ∧ l'.file_deletes.length = 1) ∧
        l'.remaining_tokens = [] := by
      simpa [isHalfDone] using h
    refine ⟨chainedList, e, l', s', rfl, Prog.exec_det.2 hrun, fun hsame => ?_, ?_⟩
    · cases hleft.2.symm.trans hsame.tokens
    · omega

/-! ### Tokens that come back -/

/-- The first token hands back the second and itself, and the second is refused. -/
def refusingServer (req : HttpRequest) : HttpResponse :=
  if req.body = taskBody "t1" then ⟨200, true, "", [], "\x7b\"plan-tasks\":[\"t2\",\"t1\"]\x7d"⟩
  else ⟨503, false, "", [], ""⟩

/-- Whether the call failed after the answers that hand back `t2` and `t1`, and nothing. -/
def handsBack : Except Exception ((UCMultiFileList.Outcome × UCMultiFileList) ×
    UCMultiFileList.Answers) → Bool
  | .ok ((some (.error _), _), [.ok result, .error _]) =>
    result.file_scan_tasks.isEmpty && result.plan_tasks == ["t2", "t1"]
  | _ => false

/-- The queue is what it was. -/
theorem failed_expansion_restored : ∃ e l' answers s',
    (chainedList.expandNextPathTelling 2).Exec (W := TaskServer refusingServer) () {}
      (.ok ((some (.error e), l'), answers)) s' ∧ UCMultiFileList.Unchanged chainedList l' := by
  have h :
    handsBack ((chainedList.expandNextPathTelling 2).eval (tasksAnswer refusingServer) {}).1 =
      true := by
    decide +kernel
  generalize hrun : (chainedList.expandNextPathTelling 2).eval (tasksAnswer refusingServer) {} =
    run at h
  obtain ⟨r, s'⟩ := run
  match r, h with
  | .ok ((some (.error e), l'), [.ok result, .error e']), h =>
    have hanswers : result.file_scan_tasks = [] ∧ result.plan_tasks = ["t2", "t1"] := by
      simpa [handsBack] using h
    have hexec := Prog.exec_det.2 hrun
    refine ⟨e, l', _, s', hexec, (UCMultiFileList.unchanged_iff hexec).2 ⟨?_, ?_⟩⟩
    · intro r hr
      simp only [List.mem_cons, Except.ok.injEq, reduceCtorEq, List.not_mem_nil, or_false] at hr
      rw [hr, hanswers.1]
    · simp [UCMultiFileList.queueAfter, UCMultiFileList.handedBack, hanswers.2, chainedList]

end UnityCatalog
