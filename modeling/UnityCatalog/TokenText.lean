import UnityCatalog.ExactAnswers
import UnityCatalog.TokenExchange
import UnityCatalog.YyjsonText

/-!
# The text of a token

A token is the server's business: it comes as a JSON string, waits in the queue as a C++ string and
goes back as a JSON string. `ParseScanTasksPayload` copies it as a C string, which ends at U+0000,
and `FetchScanTasks` escapes quotes and backslashes and nothing else. `tokens_come_back_iff` is
about whole runs: a token comes back as it was sent exactly if it holds no control character.
-/

namespace UnityCatalog

open Effectful Yyjson AnsweredQueue

/-! ## What is sent and what is posted -/

/-- The strings a payload has under `plan-tasks`. -/
def tokensSent (root : Option Val) : List String :=
  (items (objGet root "plan-tasks")).filterMap fun v => getStr (some v)

/-- The token that a request names, to a server that reads its body; none if there is none to
read. -/
def postedToken (req : HttpRequest) : Option String :=
  match req.body with
  | .text body => getStr (objGet (read body) "plan-task")
  | _ => none

/-- No control character stands in a text. -/
def Writable (s : String) : Prop := ∀ c ∈ s.toList, 0x20 ≤ c.toNat

instance decidableWritable (s : String) : Decidable (Writable s) :=
  List.decidableBAll (p := fun c : Char => 0x20 ≤ c.toNat) s.toList

/-- A text without U+0000 is all of its C string. -/
theorem Writable.cString {s : String} (h : Writable s) : cString s = s := by
  rw [cString_eq_self]
  intro hnul
  exact absurd (h _ hnul) (by decide)

/-! ## One token -/

/-- What `FetchScanTasks` writes for a character. -/
def escapedChar (c : Char) : List Char := if c = '"' ∨ c = '\\' then ['\\', c] else [c]

theorem escapedChar_escapes : Escapes escapedChar fun c => 0x20 ≤ c.toNat where
  short c hc := by
    by_cases hmem : c = '"' ∨ c = '\\'
    · right
      refine ⟨c, if_pos hmem, ?_⟩
      obtain rfl | rfl := hmem
      · exact fun rest => rfl
      · exact fun rest => rfl
    · left
      obtain ⟨hquote, hback⟩ := not_or.1 hmem
      exact ⟨if_neg hmem, hquote, hback, hc⟩
  raw c hc := by
    have hlow : c.toNat < 0x20 := Nat.not_le.1 hc
    refine ⟨if_neg ?_, hlow⟩
    rintro (rfl | rfl)
    · exact absurd hlow (by decide)
    · exact absurd hlow (by decide)

/-- The body a token is exchanged with is read as an object that names the token, or not at all. -/
theorem reads_taskBody (token : String) : ∃ body, taskBody token = .text body ∧
    read body = if Writable token then some (.obj [("plan-task", .str token)]) else none := by
  have hvalue := reads_quote escapedChar_escapes token (p := Writable token) Iff.rfl
  have hmember : Member.Ok ⟨"plan-task", '"' :: (escaped token ++ ['"']),
      if Writable token then some (.str token) else none⟩ :=
    ⟨by simp [Plain], hvalue⟩
  have hobject := (reads_object (List.cons_ne_nil _ []) (List.forall_mem_singleton.2 hmember)).read
  refine ⟨_, rfl, ?_⟩
  have htext : "\x7b\"plan-task\":\"" ++ String.ofList (escaped token) ++ "\"\x7d" =
      String.ofList ('{' :: (membersText [⟨"plan-task", '"' :: (escaped token ++ ['"']),
        if Writable token then some (.str token) else none⟩] ++ ['}'])) := by
    rw [← String.toList_inj]
    simp [membersText, Member.write]
  rw [htext, hobject]
  split <;> rfl

/-- What is posted for a token that waits in the queue. -/
theorem postedToken_taskRequest (t : ScanTarget) (token : String) :
    postedToken (t.taskRequest token) = if Writable token then some token else none := by
  obtain ⟨body, hbody, hread⟩ := reads_taskBody token
  rw [postedToken, ScanTarget.taskRequest, hbody]
  dsimp only
  rw [hread]
  split <;> rfl

/-- A token, from the string that was sent to the string that is posted. -/
theorem postedToken_iff (t : ScanTarget) (token : String) :
    postedToken (t.taskRequest (cString token)) = some token ↔ Writable token := by
  rw [postedToken_taskRequest]
  constructor
  · intro h
    split at h
    · rename_i hwritable
      rwa [Option.some.inj h] at hwritable
    · cases h
  · intro h
    rw [h.cString, if_pos h]

/-! ## Runs -/

theorem parseScanTasksPayload_plan_tasks {root : Option Val} {result result' : UCScanPlanResult}
    (h : parseScanTasksPayload root result = .ok result') :
    result'.plan_tasks = result.plan_tasks ++ (tokensSent root).map cString := by
  obtain ⟨delete_files, -, h⟩ := except_bind_eq_ok.1 h
  obtain ⟨file_scan_tasks, -, h⟩ := except_bind_eq_ok.1 h
  obtain ⟨storage_credentials, -, h⟩ := except_bind_eq_ok.1 h
  obtain rfl := Except.ok.inj h
  rw [tokensSent, List.map_filterMap]

/-- The tokens in the last answer, if the exchange comes to an answer. -/
def tokensAnswered (server : AnyServer) (t : ScanTarget) (taken : List String) : List String :=
  match server (taken.map t.taskRequest) with
  | .error _ => []
  | .ok resp =>
    match resp.decoded t.tasksUrl (decodeScanTasks t.tasksUrl) with
    | .ok _ => tokensSent (read resp.body)
    | .error _ => []

/-- The tokens, as they were sent, in answer to a token, as it was sent. -/
def tokensFor (server : AnyServer) (t : ScanTarget) (sent : List String) (token : String) :
    List String :=
  tokensAnswered server t (sent.map cString ++ [cString token])

/-- What joins the queue is what the answer sent. -/
theorem handedBack_replyTo (server : AnyServer) (t : ScanTarget) (taken : List String) :
    UCMultiFileList.handedBack (replyTo server t taken) =
      (tokensAnswered server t taken).map cString := by
  rw [replyTo, tokensAnswered]
  cases server (taken.map t.taskRequest) with
  | error e => rfl
  | ok resp =>
    dsimp only [Except.bind]
    cases hdecoded : resp.decoded t.tasksUrl (decodeScanTasks t.tasksUrl) with
    | error e => rfl
    | ok result =>
      rw [HttpResponse.decoded] at hdecoded
      split at hdecoded
      · rw [decodeScanTasks] at hdecoded
        split at hdecoded
        · cases hdecoded
        · exact parseScanTasksPayload_plan_tasks hdecoded
      · cases hdecoded

theorem namedTokens_map (server : AnyServer) (t : ScanTarget) (sent : List String)
    (token : String) :
    namedTokens server t (sent.map cString) (cString token) =
      (tokensFor server t sent token).map cString := by
  rw [namedTokens, handedBack_replyTo, tokensFor]

/-- **A token comes back as it was sent if and only if it holds no control character.** At any
server, and whatever calls of `ExpandNextPath` come to, the requests are one for each string that
was sent, in queue order, and all of them when no token is left. -/
theorem tokens_come_back_iff {server : AnyServer} {t : ScanTarget} {root : Option Val}
    {result plan : UCScanPlanResult} {l : UCMultiFileList} (hfresh : result.plan_tasks = [])
    (hplan : parseScanTasksPayload root result = .ok plan)
    (hl : UCMultiFileList.create t plan = .ok l)
    {fuel calls : ℕ} {r : Except Exception (UCMultiFileList.Outcome × UCMultiFileList)}
    {s' : TasksState}
    (hexec : (l.expandCalls fuel calls).Exec (W := AtServer server) () {} r s') :
    ∃ sent queue, Taken (tokensFor server t) (tokensSent root) sent queue ∧
      (∀ l', r = .ok (some (.ok false), l') → queue = []) ∧
      List.Forall₂ (fun req token => postedToken req = some token ↔
        Writable token) s'.requests sent := by
  have hroots : plan.plan_tasks = (tokensSent root).map cString := by
    rw [parseScanTasksPayload_plan_tasks hplan, hfresh, List.nil_append]
  obtain ⟨outcome, l', done, rfl, hdone, hend⟩ :=
    UCMultiFileList.expandCalls_exchanged (UCMultiFileList.exchanged_create hl) hexec
  obtain ⟨sent, queue, htaken, rfl, hqueue⟩ := hdone.taken.of_map hroots (namedTokens_map server t)
  refine ⟨sent, queue, htaken, ?_, ?_⟩
  · intro l'' hr
    obtain ⟨rfl, rfl⟩ := Prod.mk.inj (Except.ok.inj hr)
    rcases hend with ⟨-, hempty⟩ | ⟨hcut, -⟩
    · rw [hempty] at hqueue
      exact List.map_eq_nil_iff.1 hqueue.symm
    · cases hcut
  · rw [hdone.requests, List.map_map, List.forall₂_map_left_iff, List.forall₂_same]
    exact fun token _ => postedToken_iff t token

/-! ### Three tokens -/

/-- A plan with three tokens: one has a line feed, one U+0000 and one a quote. -/
def threeTokens : String :=
  "\x7b\"status\":\"completed\",\"plan-tasks\":[\"a\\u000ab\",\"a\\u0000b\",\"a\\\"b\"]\x7d"

/-- What it decodes to. -/
def threeTokensPlan : UCScanPlanResult :=
  { status := .completed, plan_tasks := ["a\nb", "a", "a\"b"] }

/-- The list that is made of it. -/
def threeTokensList : UCMultiFileList :=
  { target := chainedScan, remaining_tokens := ["a\nb", "a", "a\"b"] }

/-- A server that has nothing to say. -/
def silentServer : AnyServer := fun _ => .ok ⟨200, true, "", [], "\x7b\x7d"⟩

theorem threeTokens_parse :
    parseScanTasksPayload (read threeTokens) { status := .completed } = .ok threeTokensPlan := by
  decide +kernel

/-- All three are exchanged. -/
theorem threeTokens_come_back : ∃ r s' sent queue,
    (threeTokensList.expandCalls 4 4).Exec (W := AtServer silentServer) () {} r s' ∧
    Taken (tokensFor silentServer chainedScan) (tokensSent (read threeTokens)) sent queue ∧
    List.Forall₂ (fun req token => postedToken req = some token ↔
      Writable token) s'.requests sent := by
  have hexec : (threeTokensList.expandCalls 4 4).Exec (W := AtServer silentServer) () {}
      ((threeTokensList.expandCalls 4 4).eval (anyAnswer silentServer) {}).1
      ((threeTokensList.expandCalls 4 4).eval (anyAnswer silentServer) {}).2 := Prog.exec_det.2 rfl
  obtain ⟨sent, queue, htaken, -, hall⟩ := tokens_come_back_iff rfl threeTokens_parse
    (show UCMultiFileList.create chainedScan threeTokensPlan = .ok threeTokensList from rfl) hexec
  exact ⟨_, _, sent, queue, hexec, htaken, hall⟩

/-- The body of the first is no JSON, and the second is cut off. -/
theorem control_characters_are_lost :
    parseScanPlanResponse threeTokens = .ok threeTokensPlan ∧
    UCMultiFileList.create chainedScan threeTokensPlan = .ok threeTokensList ∧
    tokensSent (read threeTokens) = ["a\nb", "a\x00b", "a\"b"] ∧
    ∃ r s', (threeTokensList.expandCalls 4 4).Exec (W := AtServer silentServer) () {} r s' ∧
      s'.requests.map postedToken = [none, some "a", some "a\"b"] := by
  have hexec : (threeTokensList.expandCalls 4 4).Exec (W := AtServer silentServer) () {}
      ((threeTokensList.expandCalls 4 4).eval (anyAnswer silentServer) {}).1
      ((threeTokensList.expandCalls 4 4).eval (anyAnswer silentServer) {}).2 := Prog.exec_det.2 rfl
  have hparse : parseScanPlanResponse threeTokens = .ok threeTokensPlan := by decide +kernel
  have hsent : tokensSent (read threeTokens) = ["a\nb", "a\x00b", "a\"b"] := by decide +kernel
  refine ⟨hparse, rfl, hsent, _, _, hexec, ?_⟩
  decide +kernel

end UnityCatalog
