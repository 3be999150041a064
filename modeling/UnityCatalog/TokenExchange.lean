import UnityCatalog.AnsweredQueue
import UnityCatalog.FailedExpansion

/-!
# Token exchange at any server

`ExpandNextPath` exchanges whatever tokens the answers name, without a look at those it has
exchanged before. The server here may answer by everything it was asked, or fail;
`token_exchange_ends_iff` says at which servers calls come to an end, with every token exchanged
once.
-/

namespace UnityCatalog

open Effectful AnsweredQueue

/-! ## Any server -/

/-- A server: what it makes of the requests it was sent, the last of which it answers. -/
abbrev AnyServer := List HttpRequest → Except Exception HttpResponse

/-- What a scan meets at it. -/
def anyAnswer (server : AnyServer) (s : TasksState) (op : Op) :
    Except Exception op.Ans × TasksState :=
  match op with
  | .ensureHttpfs => (.ok (), s)
  | .issue req => (.ok (), ⟨some req, s.requests ++ [req]⟩)
  | .answer => (server s.requests, { s with pending := none })
  | _ => (.error (internalException "not there"), s)

/-- A scan at such a server. -/
abbrev AtServer (server : AnyServer) : World Client Exception := Prog.det (anyAnswer server)

/-- What the last of the exchanges comes to. -/
def replyTo (server : AnyServer) (t : ScanTarget) (taken : List String) :
    Except Exception UCScanPlanResult :=
  (server (taken.map t.taskRequest)).bind fun resp =>
    resp.decoded t.tasksUrl (decodeScanTasks t.tasksUrl)

/-- The tokens that the answer to a token names. -/
def namedTokens (server : AnyServer) (t : ScanTarget) (done : List String) (token : String) :
    List String :=
  UCMultiFileList.handedBack (replyTo server t (done ++ [token]))

/-- The files that it carries. -/
def filesBehind : Except Exception UCScanPlanResult → List OpenFileInfo
  | .ok result => filesOf result.carried
  | .error _ => []

/-- The list holds one part for each exchange, from the files that its answer carried. -/
def ListedOnce (server : AnyServer) (t : ScanTarget) (done : List String)
    (listed : List OpenFileInfo) : Prop :=
  ∃ parts : List (List OpenFileInfo), parts.length = done.length ∧ listed = parts.flatten ∧
    ∀ i part, parts[i]? = some part → part <+: filesBehind (replyTo server t (done.take (i + 1)))

theorem listedOnce_nil (server : AnyServer) (t : ScanTarget) : ListedOnce server t [] [] :=
  ⟨[], rfl, rfl, by simp⟩

theorem ListedOnce.append {server : AnyServer} {t : ScanTarget} {done : List String}
    {token : String} {listed part : List OpenFileInfo} (h : ListedOnce server t done listed)
    (hpart : part <+: filesBehind (replyTo server t (done ++ [token]))) :
    ListedOnce server t (done ++ [token]) (listed ++ part) := by
  obtain ⟨parts, hlen, rfl, hparts⟩ := h
  refine ⟨parts ++ [part], by simp [hlen], by simp, ?_⟩
  intro i p hp
  rcases Nat.lt_or_ge i parts.length with hlt | hge
  · rw [List.getElem?_append_left hlt] at hp
    rw [List.take_append_of_le_length (by omega)]
    exact hparts i p hp
  · rw [List.getElem?_append_right hge, List.getElem?_singleton] at hp
    split_ifs at hp with hi
    obtain rfl := Option.some.inj hp
    rw [List.take_of_length_le (by rw [List.length_append, List.length_singleton]; omega)]
    exact hpart

/-- An exchange that lists nothing. -/
theorem ListedOnce.skip {server : AnyServer} {t : ScanTarget} {done : List String}
    {listed : List OpenFileInfo} (h : ListedOnce server t done listed) (token : String) :
    ListedOnce server t (done ++ [token]) listed := by
  have hnone : ListedOnce server t (done ++ [token]) (listed ++ []) := h.append List.nil_prefix
  rwa [List.append_nil] at hnone

namespace UCMultiFileList

/-- Calls `ExpandNextPath` until it returns false; a call that throws is followed by the next. -/
def expandCalls (fuel : ℕ) : ℕ → UCMultiFileList → Run (Outcome × UCMultiFileList)
  | 0, l => return (none, l)
  | calls + 1, l => do
    let (outcome, l) ← l.expandNextPath fuel
    match outcome with
    | none => return (none, l)
    | some (.ok false) => return (outcome, l)
    | some _ => expandCalls fuel calls l

variable {server : AnyServer} {t : ScanTarget} {l l' : UCMultiFileList} {s s' : TasksState}

theorem any_fetchScanTasks {token : String} {r : Except Exception UCScanPlanResult}
    {done : List String} (hs : s.requests = done.map t.taskRequest)
    (h : (UCAPI.fetchScanTasks t token).Exec (W := AtServer server) () s r s') :
    r = replyTo server t (done ++ [token]) ∧ s'.requests = (done ++ [token]).map t.taskRequest := by
  rw [UCAPI.fetchScanTasks, Prog.bind_eq, makeRequest_decode_eq, taskBody_method] at h
  obtain ⟨_, _, s₁, he, h⟩ := h
  obtain ⟨rfl, rfl⟩ := Prod.mk.inj (Option.some.inj he)
  obtain ⟨_, _, s₂, hi, h⟩ := h
  obtain ⟨rfl, rfl⟩ := Prod.mk.inj (Option.some.inj hi)
  obtain ⟨_, _, s₃, ha, h⟩ := h
  obtain ⟨hx, rfl⟩ := Prod.mk.inj (Option.some.inj ha)
  have hrequests :
    s.requests ++ [(⟨.post, t.tasksUrl, t.credentials.token, taskBody token⟩ : HttpRequest)] =
      (done ++ [token]).map t.taskRequest := by
    rw [hs, List.map_append]
    rfl
  rw [replyTo, ← hrequests]
  subst hx
  dsimp only at h
  generalize server (s.requests ++ [⟨.post, t.tasksUrl, t.credentials.token, taskBody token⟩]) =
    x at h ⊢
  cases x with
  | ok resp =>
    obtain ⟨rfl, rfl⟩ := Prog.exec_ofExcept.1 h
    exact ⟨rfl, rfl⟩
  | error e =>
    obtain ⟨rfl, rfl⟩ := h
    exact ⟨rfl, rfl⟩

/-- Taking in a response's tasks lists some of its files, in order. The tokens stay. -/
theorem addFileScanTasks_listed {all_delete_files : List UCScanDeleteFile}
    {tasks : List UCScanPlanFileScanTask} {r : Except Exception Unit}
    (h : l.addFileScanTasks all_delete_files tasks = (r, l')) :
    (∃ part, part <+: filesOf (tasks.map fun task => (task, all_delete_files)) ∧
      l'.expanded_files = l.expanded_files ++ part) ∧
    l'.remaining_tokens = l.remaining_tokens ∧ l'.target = l.target := by
  induction tasks generalizing l with
  | nil =>
    obtain ⟨-, rfl⟩ := Prod.mk.inj h
    exact ⟨⟨[], List.nil_prefix, (List.append_nil _).symm⟩, rfl, rfl⟩
  | cons task tasks ih =>
    rw [addFileScanTasks, addFileScanTask] at h
    cases hres : task.delete_file_references.mapM (resolveReference task all_delete_files) with
    | error e =>
      simp only [hres] at h
      obtain ⟨-, rfl⟩ := Prod.mk.inj h
      exact ⟨⟨[makeOpenFileInfo task.data_file], ⟨_, rfl⟩, rfl⟩, rfl, rfl⟩
    | ok resolved =>
      simp only [hres] at h
      obtain ⟨⟨part, hpart, hfiles⟩, htokens, htarget⟩ := ih h
      refine ⟨⟨makeOpenFileInfo task.data_file :: part, List.prefix_cons_inj _ |>.2 hpart, ?_⟩,
        htokens, htarget⟩
      rw [hfiles]
      simp

/-- What calls have done: the tokens `done` are exchanged, and the list has `listed` behind the
files that `l` had. -/
structure Exchanged (server : AnyServer) (t : ScanTarget) (roots : List String)
    (files : List OpenFileInfo) (done : List String) (l : UCMultiFileList) (s : TasksState) :
      Prop where
  target : l.target = t
  taken : Taken (namedTokens server t) roots done l.remaining_tokens
  requests : s.requests = done.map t.taskRequest
  listed : ∃ listed, l.expanded_files = files ++ listed ∧ ListedOnce server t done listed

variable {roots : List String} {files : List OpenFileInfo} {done : List String}

/-- One call: it exchanges a token at least unless it returns false, and as many as its fuel where
it is cut off. -/
theorem expandNextPath_exchanged {fuel : ℕ} (h : Exchanged server t roots files done l s)
    {r : Except Exception (Outcome × UCMultiFileList)}
    (hexec : (l.expandNextPath fuel).Exec (W := AtServer server) () s r s') :
    ∃ outcome l' done', r = .ok (outcome, l') ∧ Exchanged server t roots files done' l' s' ∧
      (outcome = none → done'.length = done.length + fuel) ∧
      (outcome = some (.ok false) → l'.remaining_tokens = []) ∧
      (outcome ≠ none → outcome ≠ some (.ok false) → done.length < done'.length) := by
  -- the induction is on the fuel; the tokens that were exchanged are counted in `done`
  induction fuel generalizing l s done with
  | zero =>
    obtain ⟨rfl, rfl⟩ := hexec
    exact ⟨none, l, done, rfl, h, fun _ => rfl, fun hf => (by cases hf), fun hn => absurd rfl hn⟩
  | succ fuel ih =>
    rw [expandNextPath_succ] at hexec
    split at hexec
    · rename_i hq
      obtain ⟨rfl, rfl⟩ := hexec
      exact ⟨some (.ok false), l, done, rfl, h, fun hn => (by cases hn), fun _ => hq,
        fun _ hf => absurd rfl hf⟩
    · rename_i token queue hq
      obtain ⟨target, taken, requests, listed, hfiles, honce⟩ := h
      rw [hq] at taken
      simp only [Prog.bind_eq, Prog.exec_bind, Prog.exec_attempt] at hexec
      rcases hexec with ⟨x, s₁, ⟨y, hy, hf⟩, hexec⟩ | ⟨e, ⟨y, hy, -⟩, -⟩
      · obtain rfl := Except.ok.inj hy
        rw [target] at hf
        obtain ⟨rfl, hreq⟩ := any_fetchScanTasks requests hf
        have htake := taken.take
        rw [namedTokens] at htake
        cases hreply : replyTo server t (done ++ [token]) with
        | error e =>
          rw [hreply] at hexec htake
          obtain ⟨rfl, rfl⟩ := hexec
          refine ⟨some (.error e), _, done ++ [token], rfl,
            ⟨target, ?_, hreq, listed, hfiles, honce.skip token⟩, ?_⟩
          · simpa only [handedBack, List.append_nil] using htake
          · simp
        | ok result =>
          rw [hreply] at hexec htake
          dsimp only at hexec
          split at hexec
          · -- the token carried no file: on with the next
            have hnext : Exchanged server t roots files (done ++ [token])
                { l with remaining_tokens := queue ++ result.plan_tasks } s₁ :=
              ⟨target, htake, hreq, listed, hfiles, honce.skip token⟩
            obtain ⟨outcome, l', done', rfl, hdone, hcut, hfalse, hlt⟩ := ih hnext hexec
            rw [List.length_append, List.length_singleton] at hcut hlt
            refine ⟨outcome, l', done', rfl, hdone, ?_, hfalse, ?_⟩
            · intro hn
              rw [hcut hn]
              omega
            · intro hn hf
              have := hlt hn hf
              omega
          · -- the token carried files: the call ends with them, or with the first that dangles
            have hend : ∃ outcome l', r = .ok (some outcome, l') ∧ outcome ≠ .ok false ∧ s' = s₁ ∧
                ∃ u, addFileScanTasks { l with remaining_tokens := queue ++ result.plan_tasks }
                  result.delete_files result.file_scan_tasks = (u, l') := by
              split at hexec
              · rename_i l' hadd
                obtain ⟨rfl, rfl⟩ := hexec
                exact ⟨.ok true, l', rfl, by simp, rfl, _, hadd⟩
              · rename_i e l' hadd
                obtain ⟨rfl, rfl⟩ := hexec
                exact ⟨.error e, l', rfl, by simp, rfl, _, hadd⟩
            obtain ⟨outcome, l', rfl, hne, rfl, u, hadd⟩ := hend
            obtain ⟨⟨part, hpart, hfiles'⟩, htokens, htarget⟩ := addFileScanTasks_listed hadd
            refine ⟨some outcome, l', done ++ [token], rfl,
              ⟨htarget.trans target, htokens ▸ htake, hreq, listed ++ part, ?_, honce.append ?_⟩,
              ?_⟩
            · rw [hfiles', hfiles, List.append_assoc]
            · rw [hreply]
              exact hpart
            · simp [hne]
      · cases hy

/-- Calls until one returns false: each of the others exchanges a token. -/
theorem expandCalls_exchanged {fuel calls : ℕ} (h : Exchanged server t roots files done l s)
    {r : Except Exception (Outcome × UCMultiFileList)}
    (hexec : (l.expandCalls fuel calls).Exec (W := AtServer server) () s r s') :
    ∃ outcome l' done', r = .ok (outcome, l') ∧ Exchanged server t roots files done' l' s' ∧
      (outcome = some (.ok false) ∧ l'.remaining_tokens = [] ∨
        outcome = none ∧ done.length + min fuel calls ≤ done'.length) := by
  induction calls generalizing l s done with
  | zero =>
    obtain ⟨rfl, rfl⟩ := hexec
    exact ⟨none, l, done, rfl, h, .inr ⟨rfl, by simp⟩⟩
  | succ calls ih =>
    rw [expandCalls] at hexec
    simp only [Prog.bind_eq, Prog.exec_bind] at hexec
    rcases hexec with ⟨x, s₁, hcall, hexec⟩ | ⟨e, hcall, -⟩
    · obtain ⟨outcome, l₁, done₁, hx, hdone, hcut, hfalse, hlt⟩ := expandNextPath_exchanged h hcall
      obtain rfl := Except.ok.inj hx
      dsimp only at hexec
      split at hexec
      · obtain ⟨rfl, rfl⟩ := hexec
        refine ⟨none, l₁, done₁, rfl, hdone, .inr ⟨rfl, ?_⟩⟩
        rw [hcut rfl]
        exact Nat.add_le_add_left (Nat.min_le_left _ _) _
      · obtain ⟨rfl, rfl⟩ := hexec
        exact ⟨_, l₁, done₁, rfl, hdone, .inl ⟨rfl, hfalse rfl⟩⟩
      · rename_i outcome hne
        have hlt := hlt (by simp) (fun hf => hne (Option.some.inj hf))
        obtain ⟨outcome, l', done', rfl, hdone', hend⟩ := ih hdone hexec
        refine ⟨outcome, l', done', rfl, hdone', hend.imp_right ?_⟩
        rintro ⟨hn, hle⟩
        exact ⟨hn, by omega⟩
    · obtain ⟨outcome, l₁, done₁, hx, -⟩ := expandNextPath_exchanged h hcall
      cases hx

/-- A list that the constructor made. -/
theorem exchanged_create {plan : UCScanPlanResult} (hl : create t plan = .ok l) :
    Exchanged server t plan.plan_tasks l.expanded_files [] l {} := by
  have hcreate := create_spec t plan
  rw [hl] at hcreate
  obtain ⟨hgains, htokens⟩ := hcreate
  exact ⟨hgains.target, htokens ▸ .start, rfl, [], (List.append_nil _).symm,
    listedOnce_nil server t⟩

/-- Calls of `ExpandNextPath` exchange each token once at most, and end. -/
structure Ends (server : AnyServer) (l : UCMultiFileList) : Prop where
  once : ∀ fuel calls r s', (l.expandCalls fuel calls).Exec (W := AtServer server) () {} r s' →
    s'.requests.Nodup
  ends : ∃ n, ∀ fuel calls, n < fuel → n < calls → ∃ l' s',
    (l.expandCalls fuel calls).Exec (W := AtServer server) () {} (.ok (some (.ok false), l')) s' ∧
      s'.requests.length ≤ n

/-- **Token exchange ends, with every token exchanged once, exactly at the servers that name no
token twice.** At any server the list holds one part for each request, of the files that its answer
carried. -/
theorem token_exchange_ends_iff {plan : UCScanPlanResult} (hl : create t plan = .ok l)
    (hfinite : (named (namedTokens server t) plan.plan_tasks).Finite) :
    (∀ fuel calls r s', (l.expandCalls fuel calls).Exec (W := AtServer server) () {} r s' →
      ∃ outcome l' done listed, r = .ok (outcome, l') ∧ s'.requests = done.map t.taskRequest ∧
        l'.expanded_files = l.expanded_files ++ listed ∧ ListedOnce server t done listed) ∧
    (Ends server l ↔ NamesOnce (namedTokens server t) plan.plan_tasks) := by
  have hstart : Exchanged server t plan.plan_tasks l.expanded_files [] l {} := exchanged_create hl
  have hinj : Function.Injective t.taskRequest := fun _ _ => ScanTarget.taskRequest_inj.1
  constructor
  · intro fuel calls r s' hexec
    obtain ⟨outcome, l', done, rfl, hdone, -⟩ := expandCalls_exchanged hstart hexec
    obtain ⟨listed, hfiles, honce⟩ := hdone.listed
    exact ⟨outcome, l', done, listed, rfl, hdone.requests, hfiles, honce⟩
  constructor
  · rintro ⟨honce, n, hends⟩
    obtain ⟨l', s', hexec, -⟩ := hends (n + 1) (n + 1) (Nat.lt_succ_self n) (Nat.lt_succ_self n)
    obtain ⟨outcome, l₁, done, hr, hdone, hend⟩ := expandCalls_exchanged hstart hexec
    obtain ⟨rfl, rfl⟩ := Prod.mk.inj (Except.ok.inj hr)
    -- it ended with no token due, and each request was sent once
    have hempty : l'.remaining_tokens = [] := by
      rcases hend with ⟨-, hempty⟩ | ⟨hcut, -⟩
      · exact hempty
      · cases hcut
    have htaken := hdone.taken
    rw [hempty] at htaken
    have hrequests := honce _ _ _ _ hexec
    rw [hdone.requests] at hrequests
    exact namesOnce_of_end htaken hrequests.of_map
  · intro hnames
    refine ⟨?_, hfinite.toFinset.card, ?_⟩
    · intro fuel calls r s' hexec
      obtain ⟨outcome, l', done, rfl, hdone, -⟩ := expandCalls_exchanged hstart hexec
      rw [hdone.requests]
      exact (hnames.nodup hdone.taken).map hinj
    · intro fuel calls hfuel hcalls
      have hexec : (l.expandCalls fuel calls).Exec (W := AtServer server) () {}
          ((l.expandCalls fuel calls).eval (anyAnswer server) {}).1
          ((l.expandCalls fuel calls).eval (anyAnswer server) {}).2 := Prog.exec_det.2 rfl
      obtain ⟨outcome, l', done, hr, hdone, hend⟩ := expandCalls_exchanged hstart hexec
      -- no token is named twice, so there are no more exchanges than tokens
      have hle := hnames.length_le hfinite hdone.taken
      obtain ⟨rfl, -⟩ | ⟨-, hcut⟩ := hend
      · rw [hr] at hexec
        refine ⟨l', _, hexec, ?_⟩
        rw [hdone.requests, List.length_map]
        exact hle
      · rw [List.length_nil] at hcut
        omega

end UCMultiFileList

/-! ### Tokens in a chain -/

/-- A server that answers by the last request alone. -/
def byLast (server : HttpRequest → HttpResponse) : AnyServer := fun requests =>
  match requests.getLast? with
  | some req => .ok (server req)
  | none => .error (internalException "no request")

/-- Such a server answers an exchange of tokens as it answers the last of them. -/
theorem replyTo_byLast (server : HttpRequest → HttpResponse) (t : ScanTarget) (done : List String)
    (k : String) : replyTo (byLast server) t (done ++ [k]) = exchanged server t k := by
  rw [replyTo, List.map_append, List.map_singleton, byLast, List.getLast?_concat]
  rfl

/-- What can have been exchanged, and what waits. -/
def chainedStates : List (List String × List String) :=
  [([], ["t1"]), (["t1"], ["t2"]), (["t1", "t2"], ["t3"]), (["t1", "t2", "t3"], [])]

theorem chained_taken {done queue : List String}
    (h : Taken (namedTokens (byLast chainedServer) chainedScan) chainedPlan.plan_tasks done queue) :
    (done, queue) ∈ chainedStates := by
  have hnames : ∀ k ∈ ["t1", "t2", "t3"], ∀ done : List String,
      namedTokens (byLast chainedServer) chainedScan done k = (chainedAnswers k).plan_tasks := by
    intro k hk done
    rw [namedTokens, replyTo_byLast, chainedServer_answers k hk]
    rfl
  induction h with
  | start => exact List.mem_cons_self
  | @take done queue a _ ih =>
    simp only [chainedStates, List.mem_cons, Prod.mk.injEq, List.cons.injEq, List.not_mem_nil,
      or_false] at ih
    obtain ⟨rfl, rfl, rfl⟩ | ⟨rfl, rfl, rfl⟩ | ⟨rfl, rfl, rfl⟩ | ⟨-, hq⟩ := ih
    · rw [hnames "t1" (by decide)]
      decide
    · rw [hnames "t2" (by decide)]
      decide
    · rw [hnames "t3" (by decide)]
      decide
    · cases hq

/-- Every state holds each token once. -/
theorem chained_nodup :
    ∀ x ∈ chainedStates, (x.1 ++ x.2).Nodup ∧ x.1 ++ x.2 ⊆ ["t1", "t2", "t3"] := by
  decide

theorem chained_exchange_ends : UCMultiFileList.Ends (byLast chainedServer) chainedList := by
  have hfinite :
      (named (namedTokens (byLast chainedServer) chainedScan) chainedPlan.plan_tasks).Finite := by
    refine (List.finite_toSet ["t1", "t2", "t3"]).subset ?_
    rintro k ⟨done, queue, htaken, hk⟩
    exact (chained_nodup _ (chained_taken htaken)).2 hk
  refine (UCMultiFileList.token_exchange_ends_iff
    (show UCMultiFileList.create chainedScan chainedPlan = .ok chainedList from rfl) hfinite).2.2 ?_
  intro done queue htaken
  rw [← htaken.eq]
  exact (chained_nodup _ (chained_taken htaken)).1

/-! ### A token that names itself -/

/-- Every answer names the one token, and carries no file. -/
def circleServer : AnyServer := fun _ => .ok ⟨200, true, "", [], "\x7b\"plan-tasks\":[\"t1\"]\x7d"⟩

theorem replyTo_circleServer (taken : List String) : replyTo circleServer chainedScan taken =
    .ok { status := .completed, plan_tasks := ["t1"] } := by
  have hreply : replyTo circleServer chainedScan [] =
      .ok { status := .completed, plan_tasks := ["t1"] } := by
    decide +kernel
  exact hreply

/-- The call exchanges the token again and again, whatever its fuel. -/
theorem circle_call {fuel : ℕ} : ∀ {l : UCMultiFileList} {s s' : TasksState} {done : List String}
    {r : Except Exception (UCMultiFileList.Outcome × UCMultiFileList)}, l.target = chainedScan →
    l.remaining_tokens = ["t1"] → s.requests = done.map chainedScan.taskRequest →
    (l.expandNextPath fuel).Exec (W := AtServer circleServer) () s r s' →
    (∃ l', r = .ok (none, l')) ∧
      s'.requests = s.requests ++ List.replicate fuel (chainedScan.taskRequest "t1") := by
  induction fuel with
  | zero =>
    intro l s s' done r _ _ _ h
    obtain ⟨rfl, rfl⟩ := h
    exact ⟨⟨l, rfl⟩, (List.append_nil _).symm⟩
  | succ fuel ih =>
    intro l s s' done r htarget hq hs h
    rw [UCMultiFileList.expandNextPath_succ, hq] at h
    simp only [Prog.bind_eq, Prog.exec_bind, Prog.exec_attempt] at h
    rcases h with ⟨x, s₁, ⟨y, hy, hf⟩, h⟩ | ⟨e, ⟨y, hy, -⟩, -⟩
    · obtain rfl := Except.ok.inj hy
      rw [htarget] at hf
      obtain ⟨hx, hreq⟩ := UCMultiFileList.any_fetchScanTasks hs hf
      rw [replyTo_circleServer] at hx
      rw [hx] at h
      obtain ⟨hcut, hrequests⟩ := ih (l := { l with remaining_tokens := ["t1"] }) htarget rfl hreq h
      refine ⟨hcut, ?_⟩
      rw [hrequests, hreq, hs, List.map_append, List.replicate_succ, List.append_assoc]
      rfl
    · cases hy

/-- One token is all that the server ever names, and a call of `ExpandNextPath` does not return: it
sends the same request over and over. -/
theorem circle_never_ends :
    UCMultiFileList.create chainedScan chainedPlan = .ok chainedList ∧
    named (namedTokens circleServer chainedScan) chainedPlan.plan_tasks ⊆ {k | k = "t1"} ∧
    ∀ fuel, ∃ l' s', (chainedList.expandNextPath fuel).Exec (W := AtServer circleServer) () {}
      (.ok (none, l')) s' ∧ s'.requests = List.replicate fuel (chainedScan.taskRequest "t1") := by
  refine ⟨rfl, ?_, ?_⟩
  · rintro k ⟨done, queue, htaken, hk⟩
    have hall : ∀ a ∈ done ++ queue, a = "t1" := by
      clear hk
      induction htaken with
      | start => simp [chainedPlan]
      | @take done queue a _ ih =>
        intro b hb
        rw [namedTokens, replyTo_circleServer] at hb
        simp only [List.mem_append, List.mem_cons, List.not_mem_nil, or_false,
          UCMultiFileList.handedBack] at hb ih
        obtain (hb | rfl) | hb | rfl := hb
        · exact ih b (.inl hb)
        · exact ih b (.inr (.inl rfl))
        · exact ih b (.inr (.inr hb))
        · rfl
    exact hall k hk
  · intro fuel
    have hexec : (chainedList.expandNextPath fuel).Exec (W := AtServer circleServer) () {}
        ((chainedList.expandNextPath fuel).eval (anyAnswer circleServer) {}).1
        ((chainedList.expandNextPath fuel).eval (anyAnswer circleServer) {}).2 :=
          Prog.exec_det.2 rfl
    obtain ⟨⟨l', hcut⟩, hrequests⟩ := @circle_call fuel chainedList {} _ [] _ rfl rfl rfl hexec
    rw [hcut] at hexec
    exact ⟨l', _, hexec, hrequests⟩

end UnityCatalog
