import Mathlib.Data.List.TakeWhile
import UnityCatalog.ScanPlan

/-!
# The delays of the poll loop

What `ParseRetryAfterMs` makes of a header, and how long `PlanTableScan` sleeps: the server may ask
for a delay before each poll, the loop has one of its own, and a budget is looked at before each
sleep.
-/

namespace UnityCatalog

open Effectful Yyjson

/-! ## `Retry-After` -/

/-- The number of a text that is digits and nothing else. -/
def plainInteger (text : String) : Option ℕ :=
  if text.toList ≠ [] ∧ text.toList.all Char.isDigit then some (digitsValue text.toList) else none

/-- What a `Retry-After` of this text is meant to do. -/
structure HonoursRetryAfter (text : String) : Prop where
  /-- the product is a 64-bit number -/
  no_overflow : ∀ secs, stoll text = some secs → 0 ≤ secs → secs * 1000 < 2 ^ 63
  /-- a plain integer is slept, up to the clamp -/
  slept : ∀ n, plainInteger text = some n → ∀ resp : HttpResponse,
    resp.header "Retry-After" = some text →
    ∀ backoff_ms, pollMinSleepMs ≤ backoff_ms → backoff_ms ≤ pollMaxSleepMs →
      sleepMs (parseRetryAfterMs resp) backoff_ms = min (max (1000 * n) 100) 60000
  /-- another text is as none -/
  absent : plainInteger text = none → ∀ resp : HttpResponse, resp.header "Retry-After" = some text →
    parseRetryAfterMs resp = -1 ∧
      ∀ backoff_ms, pollMinSleepMs ≤ backoff_ms → backoff_ms ≤ pollMaxSleepMs →
        sleepMs (parseRetryAfterMs resp) backoff_ms = backoff_ms

/-- A plain integer of at most ⌊(2^63 - 1) / 1000⌋, or another text that does not begin with a
number `std::stoll` reads as one that is not negative. -/
def ReadAsMeant (text : String) : Prop :=
  (∃ n ≤ 9223372036854775, plainInteger text = some n) ∨
    plainInteger text = none ∧ ∀ secs, stoll text = some secs → secs < 0

theorem readDigits_all {ds : List Char} (h : ds.all Char.isDigit = true) :
    readDigits ds = (ds, []) := by
  have hall := List.all_eq_true.1 h
  have htake : ds.takeWhile Char.isDigit = ds := List.takeWhile_eq_self_iff.2 hall
  have hdrop : ds.dropWhile Char.isDigit = [] := List.dropWhile_eq_nil_iff.2 hall
  rw [readDigits, List.span_eq_takeWhile_dropWhile, htake, hdrop]

/-- `std::stoll` reads digits, unless they are out of range. -/
theorem stoll_of_plainInteger {text : String} {n : ℕ} (h : plainInteger text = some n) :
    stoll text = if (n : ℤ) < 2 ^ 63 then some (n : ℤ) else none := by
  rw [plainInteger] at h
  split_ifs at h with hplain
  obtain ⟨hne, hall⟩ := hplain
  obtain rfl := Option.some.inj h
  have hdigits := readDigits_all hall
  obtain ⟨d, rest, hd⟩ := List.exists_cons_of_ne_nil hne
  have hdigit : d.isDigit = true := List.all_eq_true.1 hall d (hd ▸ List.mem_cons_self)
  rw [hd] at hdigits
  have hspace : ¬ (d = ' ' ∨ '\x09' ≤ d ∧ d ≤ '\x0d') := by
    rintro (rfl | ⟨-, hle⟩)
    · exact absurd hdigit (by decide)
    · simp only [Char.isDigit, Bool.and_eq_true, decide_eq_true_eq] at hdigit
      have hlow : d.val ≤ 13 := hle
      have hhigh := hdigit.1
      simp only [ge_iff_le, UInt32.le_iff_toNat_le] at hlow hhigh
      exact absurd (hhigh.trans hlow) (by decide)
  have hminus : d ≠ '-' := by
    rintro rfl
    exact absurd hdigit (by decide)
  have hplus : d ≠ '+' := by
    rintro rfl
    exact absurd hdigit (by decide)
  have hdrop : List.dropWhile (fun c => decide (c = ' ' ∨ '\x09' ≤ c ∧ c ≤ '\x0d')) (d :: rest) =
      d :: rest :=
    List.dropWhile_cons_of_neg (by simpa using hspace)
  rw [stoll, hd, hdrop]
  -- no sign stands in front of a digit
  split
  rename_i hsign
  split at hsign
  · rename_i hcons
    exact absurd (List.cons.inj hcons).1 hminus
  · rename_i hcons
    exact absurd (List.cons.inj hcons).1 hplus
  · obtain ⟨rfl, rfl⟩ := Prod.mk.inj hsign
    simp [hdigits]

theorem parseRetryAfterMs_eq {text : String} {resp : HttpResponse}
    (h : resp.header "Retry-After" = some text)
    {secs : ℤ} (hsecs : stoll text = some secs) (hpos : 0 ≤ secs) :
    parseRetryAfterMs resp = Int.bmod (secs * 1000) (2 ^ 64) := by
  rw [parseRetryAfterMs, h, Option.bind_some, hsecs]
  exact if_pos hpos

theorem parseRetryAfterMs_absent {text : String} {resp : HttpResponse}
    (h : resp.header "Retry-After" = some text)
    (hsecs : ∀ secs, stoll text = some secs → secs < 0) :
    parseRetryAfterMs resp = -1 := by
  rw [parseRetryAfterMs, h, Option.bind_some]
  cases hs : stoll text with
  | none => rfl
  | some secs => exact if_neg (Int.not_le.2 (hsecs secs hs))

theorem sleepMs_absent {backoff_ms : ℤ} (hmin : pollMinSleepMs ≤ backoff_ms)
    (hmax : backoff_ms ≤ pollMaxSleepMs) :
    sleepMs (-1) backoff_ms = backoff_ms := by
  simp only [sleepMs, pollMinSleepMs, pollMaxSleepMs, pollMaxRetryAfterMs] at *
  rw [if_neg (by decide)]
  omega

/-- A response with one header. -/
def retryAfterResponse (text : String) : HttpResponse :=
    ⟨200, true, "", [("Retry-After", text)], ""⟩

theorem header_retryAfterResponse (text : String) :
    (retryAfterResponse text).header "Retry-After" = some text := by
  simp [HttpResponse.header, retryAfterResponse]

theorem honoursRetryAfter_iff (text : String) : HonoursRetryAfter text ↔ ReadAsMeant text := by
  constructor
  · intro h
    have hresp := header_retryAfterResponse text
    cases hplain : plainInteger text with
    | none =>
      refine .inr ⟨hplain, fun secs hsecs => ?_⟩
      by_contra hpos
      have hlt := h.no_overflow secs hsecs (Int.not_lt.1 hpos)
      -- a leading number is read all the same, and its delay is no default
      have habsent := (h.absent hplain _ hresp).1
      rw [parseRetryAfterMs_eq hresp hsecs (Int.not_lt.1 hpos)] at habsent
      simp only [Int.bmod] at habsent
      omega
    | some n =>
      refine .inl ⟨n, ?_, hplain⟩
      have hread := stoll_of_plainInteger hplain
      by_cases hn : (n : ℤ) < 2 ^ 63
      · rw [if_pos hn] at hread
        have hlt := h.no_overflow n hread (Int.natCast_nonneg n)
        omega
      · -- `std::stoll` throws, and the delay is the loop's own
        rw [if_neg hn] at hread
        have hnone : ∀ secs, stoll text = some secs → secs < 0 := by
          intro secs hsecs
          cases hread.symm.trans hsecs
        have hslept := h.slept n hplain _ hresp pollMinSleepMs (by decide) (by decide)
        rw [parseRetryAfterMs_absent hresp hnone, sleepMs_absent (by decide) (by decide),
          pollMinSleepMs] at hslept
        omega
  · rintro (⟨n, hn, hplain⟩ | ⟨hplain, hneg⟩)
    · have hread : stoll text = some (n : ℤ) := by
        rw [stoll_of_plainInteger hplain, if_pos (by omega)]
      refine ⟨fun secs hsecs _ => ?_, fun m hm resp hresp backoff_ms hmin hmax => ?_,
        fun hnone => ?_⟩
      · obtain rfl := Option.some.inj (hread.symm.trans hsecs)
        omega
      · obtain rfl := Option.some.inj (hplain.symm.trans hm)
        -- below the bound the product does not wrap
        have hbmod : Int.bmod ((n : ℤ) * 1000) (2 ^ 64) = n * 1000 := by
          simp only [Int.bmod]
          omega
        rw [parseRetryAfterMs_eq hresp hread (Int.natCast_nonneg n), hbmod]
        simp only [sleepMs, pollMinSleepMs, pollMaxRetryAfterMs]
        omega
      · cases hplain.symm.trans hnone
    · refine ⟨fun secs hsecs hpos => ?_, fun m hm => ?_, fun _ resp hresp => ?_⟩
      · exact absurd (hneg secs hsecs) (Int.not_lt.2 hpos)
      · cases hplain.symm.trans hm
      · rw [parseRetryAfterMs_absent hresp hneg]
        exact ⟨rfl, fun backoff_ms hmin hmax => sleepMs_absent hmin hmax⟩

/-- **A `Retry-After` is honoured exactly where it is read as meant**, and of two that are, a larger
one is not slept shorter. -/
theorem retryAfter_honoured_iff (text : String) :
    (HonoursRetryAfter text ↔ ReadAsMeant text) ∧
    ∀ (text' : String) (n n' : ℕ) (resp resp' : HttpResponse) (backoff_ms backoff_ms' : ℤ),
      ReadAsMeant text → ReadAsMeant text' → plainInteger text = some n →
        plainInteger text' = some n' → n ≤ n' →
      resp.header "Retry-After" = some text → resp'.header "Retry-After" = some text' →
      pollMinSleepMs ≤ backoff_ms → backoff_ms ≤ pollMaxSleepMs →
      pollMinSleepMs ≤ backoff_ms' → backoff_ms' ≤ pollMaxSleepMs →
        sleepMs (parseRetryAfterMs resp) backoff_ms ≤
          sleepMs (parseRetryAfterMs resp') backoff_ms' := by
  refine ⟨honoursRetryAfter_iff text, ?_⟩
  intro text' n n' resp resp' b b' hread hread' hplain hplain' hle hresp hresp' hmin hmax
    hmin' hmax'
  rw [((honoursRetryAfter_iff text).2 hread).slept n hplain resp hresp b hmin hmax,
    ((honoursRetryAfter_iff text').2 hread').slept n' hplain' resp' hresp' b' hmin' hmax']
  omega

/-- From some 292 million years on, the delay is the shortest; and what begins with a number is
one. -/
theorem longRetryAfter_is_dropped :
    sleepMs (parseRetryAfterMs (retryAfterResponse "9223372036854775")) 100 = 60000 ∧
    sleepMs (parseRetryAfterMs (retryAfterResponse "9223372036854776")) 100 = 100 ∧
    sleepMs (parseRetryAfterMs (retryAfterResponse "9223372036854775808")) 100 = 100 ∧
    sleepMs (parseRetryAfterMs (retryAfterResponse "5 minutes")) 100 = 5000 ∧
    ¬ HonoursRetryAfter "9223372036854776" ∧ ¬ HonoursRetryAfter "5 minutes" := by
  refine ⟨by
    decide +kernel, by
    decide +kernel, by decide +kernel, by decide +kernel, fun h => ?_, fun h => ?_⟩
  · have hslept :=
      h.slept 9223372036854776 (by decide +kernel) _ (header_retryAfterResponse _) 100 (by decide)
      (by decide)
    exact absurd hslept (by decide +kernel)
  · have habsent := (h.absent (by decide +kernel) _ (header_retryAfterResponse _)).1
    exact absurd habsent (by decide +kernel)

/-! ## The rounds of the loop -/

/-- A round: the delays in force, what is slept of them, and what the poll is answered. -/
structure PollRound where
  plan_id : String
  retry_after_ms : ℤ
  backoff_ms : ℤ
  /-- the chunks that were slept -/
  chunks : List ℤ
  /-- whether the check before a chunk threw -/
  interrupted : Bool
  /-- the response, or what the HTTP layer threw, where a request was sent -/
  poll : Option (Except Exception HttpResponse)
  /-- what the round comes to -/
  answer : Except Exception UCScanPlanResult

namespace PollRound

variable (t : ScanTarget) (round : PollRound)

/-- The delay that is asked for. -/
def sleep_ms : ℤ := sleepMs round.retry_after_ms round.backoff_ms

/-- What is seen of the round: a check before each chunk. -/
def events : List WireEvent :=
  (round.chunks.flatMap fun ms => [.check, .slept ms]) ++
    (if round.interrupted then [.check] else []) ++
    round.poll.toList.map fun x => .exchange (pollRequest t round.plan_id) x

/-- The chunks are short, and add up to the delay unless the round is interrupted. -/
structure Sleeps : Prop where
  chunk : ∀ ms ∈ round.chunks, 0 < ms ∧ ms ≤ 100
  whole : round.interrupted = false → round.chunks.sum = round.sleep_ms
  part : round.interrupted = true → round.chunks.sum < round.sleep_ms ∧ round.poll = none ∧
    round.answer = .error interruptException

end PollRound

/-- How the loop ends. -/
inductive PollEnd where
  /-- with a status that is not submitted -/
  | status (result : UCScanPlanResult)
  /-- out of budget -/
  | budget (plan_id : String)
  /-- with what a round threw -/
  | thrown (e : Exception)

/-- What the call returns or throws then. -/
def PollEnd.outcome (t : ScanTarget) : PollEnd → Except Exception UCScanPlanResult
  | .status result => .ok result
  | .budget plan_id => .error (budgetExceeded t plan_id)
  | .thrown e => .error e

/-- The rounds from an answer on, with the delays then in force and what was slept before. -/
inductive PollTrace : UCScanPlanResult → ℤ → ℤ → ℤ → List PollRound → PollEnd → Prop where
  | status {result : UCScanPlanResult} {retry_after_ms backoff_ms elapsed_ms : ℤ} :
    result.status ≠ .submitted →
      PollTrace result retry_after_ms backoff_ms elapsed_ms [] (.status result)
  | budget {result : UCScanPlanResult} {retry_after_ms backoff_ms elapsed_ms : ℤ} :
    result.status = .submitted → pollBudgetMs ≤ elapsed_ms →
      PollTrace result retry_after_ms backoff_ms elapsed_ms [] (.budget result.plan_id)
  | thrown {result : UCScanPlanResult} {retry_after_ms backoff_ms elapsed_ms : ℤ}
    {round : PollRound} {e : Exception} : result.status = .submitted → elapsed_ms < pollBudgetMs →
      round.plan_id = result.plan_id → round.retry_after_ms = retry_after_ms →
        round.backoff_ms = backoff_ms →
      round.Sleeps → round.answer = .error e →
      PollTrace result retry_after_ms backoff_ms elapsed_ms [round] (.thrown e)
  | next {result next : UCScanPlanResult} {retry_after_ms backoff_ms elapsed_ms : ℤ}
    {round : PollRound} {rounds : List PollRound} {resp : HttpResponse} {ending : PollEnd} :
      result.status = .submitted → elapsed_ms < pollBudgetMs →
      round.plan_id = result.plan_id → round.retry_after_ms = retry_after_ms →
        round.backoff_ms = backoff_ms →
      round.Sleeps → round.interrupted = false → round.poll = some (.ok resp) →
      parseScanPlanResponse resp.body = .ok next → round.answer = .ok next →
      PollTrace next (parseRetryAfterMs resp) (min (backoff_ms * 2) pollMaxSleepMs)
        (elapsed_ms + round.sleep_ms) rounds ending →
      PollTrace result retry_after_ms backoff_ms elapsed_ms (round :: rounds) ending

/-- The answer the loop last looks at. -/
def lastAnswer (result : UCScanPlanResult) (rounds : List PollRound) :
    Except Exception UCScanPlanResult := (rounds.getLast?.map PollRound.answer).getD (.ok result)

/-- The pace of the rounds after an answer. -/
structure Paced (result : UCScanPlanResult) (rounds : List PollRound) (ending : PollEnd) :
    Prop where
  sleeps : ∀ round ∈ rounds, 100 ≤ round.sleep_ms ∧ round.sleep_ms ≤ 60000
  chunks : ∀ round ∈ rounds, round.Sleeps
  backoffs : ∀ round ∈ rounds, 100 ≤ round.backoff_ms ∧ round.backoff_ms ≤ 1000
  polls : rounds.length ≤ 3000
  total : (rounds.map PollRound.sleep_ms).sum < 360000
  /-- the budget error is thrown where enough was slept and the answer after that is still no end -/
  budget : (∃ plan_id, ending = .budget plan_id) ↔ 300000 ≤ (rounds.map PollRound.sleep_ms).sum ∧
    ∃ answer, lastAnswer result rounds = .ok answer ∧ answer.status = .submitted
  /-- and otherwise it ends with the last answer -/
  ended : ∀ answer, ending = .status answer →
    lastAnswer result rounds = .ok answer ∧ answer.status ≠ .submitted
  thrown : ∀ e, ending = .thrown e → lastAnswer result rounds = .error e

theorem sleepMs_bounds (retry_after_ms backoff_ms : ℤ) :
    100 ≤ sleepMs retry_after_ms backoff_ms ∧ sleepMs retry_after_ms backoff_ms ≤ 60000 := by
  simp only [sleepMs, pollMinSleepMs, pollMaxRetryAfterMs]
  omega

theorem lastAnswer_cons (result : UCScanPlanResult) {next : UCScanPlanResult} {round : PollRound}
    (h : round.answer = .ok next) (rounds : List PollRound) :
    lastAnswer result (round :: rounds) = lastAnswer next rounds := by
  cases rounds with
  | nil => exact h
  | cons round' rounds =>
    rw [lastAnswer, lastAnswer, List.getLast?_cons_cons]
    cases hlast : (round' :: rounds).getLast? with
    | none => simp at hlast
    | some last => rfl

section

variable {result : UCScanPlanResult} {retry_after_ms backoff_ms elapsed_ms : ℤ}
    {rounds : List PollRound} {ending : PollEnd}

/-- The delays, by induction on the rounds that are left. -/
theorem PollTrace.delays (h : PollTrace result retry_after_ms backoff_ms elapsed_ms rounds ending)
    (hmin : 100 ≤ backoff_ms) (hmax : backoff_ms ≤ 1000) :
    ∀ round ∈ rounds, round.Sleeps ∧ 100 ≤ round.backoff_ms ∧ round.backoff_ms ≤ 1000 := by
  induction h with
  | status _ => exact List.forall_mem_nil _
  | budget _ _ => exact List.forall_mem_nil _
  | thrown _ _ _ _ hbackoff hsleeps _ =>
    exact List.forall_mem_singleton.2 ⟨hsleeps, by omega, by omega⟩
  | next _ _ _ _ hbackoff hsleeps _ _ _ _ _ ih =>
    refine List.forall_mem_cons.2 ⟨⟨hsleeps, by omega, by omega⟩, ih ?_ ?_⟩ <;>
      rw [pollMaxSleepMs] <;> omega

/-- Each round takes a part of the budget. -/
theorem PollTrace.within (h : PollTrace result retry_after_ms backoff_ms elapsed_ms rounds ending)
    (hlow : 0 ≤ elapsed_ms) (hhigh : elapsed_ms < 360000) :
    (rounds = [] ∨ 100 * (rounds.length : ℤ) + elapsed_ms < 300100) ∧
      elapsed_ms + (rounds.map PollRound.sleep_ms).sum < 360000 := by
  induction h with
  | status _ => simpa using hhigh
  | budget _ _ => simpa using hhigh
  | @thrown _ _ _ _ round _ _ hbudget _ _ _ _ _ =>
    have hsleep := sleepMs_bounds round.retry_after_ms round.backoff_ms
    rw [pollBudgetMs] at hbudget
    simp only [PollRound.sleep_ms, List.map_cons, List.map_nil, List.sum_cons, List.sum_nil,
      List.length_singleton]
    omega
  | @next _ _ _ _ _ round rounds _ _ _ hbudget _ _ _ _ _ _ _ _ _ ih =>
    have hsleep := sleepMs_bounds round.retry_after_ms round.backoff_ms
    rw [pollBudgetMs] at hbudget
    simp only [PollRound.sleep_ms, List.map_cons, List.sum_cons, List.length_cons] at ih ⊢
    obtain ⟨hcount, hsum⟩ := ih (by omega) (by omega)
    refine ⟨.inr ?_, by omega⟩
    rcases hcount with rfl | hcount
    · simp only [List.length_nil]
      omega
    · push_cast
      omega

/-- Which way it ends. -/
theorem PollTrace.ends (h : PollTrace result retry_after_ms backoff_ms elapsed_ms rounds ending) :
    ((∃ plan_id, ending = .budget plan_id) ↔
      300000 ≤ elapsed_ms + (rounds.map PollRound.sleep_ms).sum ∧
      ∃ answer, lastAnswer result rounds = .ok answer ∧ answer.status = .submitted) ∧
    (∀ answer, ending = .status answer → lastAnswer result rounds = .ok answer ∧
      answer.status ≠ .submitted) ∧
    ∀ e, ending = .thrown e → lastAnswer result rounds = .error e := by
  induction h with
  | status hdone =>
    refine ⟨iff_of_false (fun h => ?_) fun h => ?_, fun answer heq => ?_, fun e heq => ?_⟩
    · obtain ⟨plan_id, heq⟩ := h
      cases heq
    · obtain ⟨-, answer, hlast, hsubmitted⟩ := h
      cases hlast
      exact hdone hsubmitted
    · cases heq
      exact ⟨rfl, hdone⟩
    · cases heq
  | budget hsubmitted hbudget =>
    rw [pollBudgetMs] at hbudget
    refine ⟨iff_of_true ⟨_, rfl⟩ ⟨?_, _, rfl, hsubmitted⟩, fun answer heq => ?_, fun e heq => ?_⟩
    · rw [List.map_nil, List.sum_nil]
      omega
    · cases heq
    · cases heq
  | thrown _ _ _ _ _ _ hanswer =>
    refine ⟨iff_of_false (fun h => ?_) fun h => ?_, fun answer heq => ?_, fun e heq => ?_⟩
    · obtain ⟨plan_id, heq⟩ := h
      cases heq
    · obtain ⟨-, answer, hlast, -⟩ := h
      cases hanswer.symm.trans hlast
    · cases heq
    · cases heq
      exact hanswer
  | next _ _ _ _ _ _ _ _ _ hanswer _ ih =>
    rw [lastAnswer_cons _ hanswer, List.map_cons, List.sum_cons, ← Int.add_assoc]
    exact ih

theorem PollTrace.paced (h : PollTrace result retry_after_ms 100 0 rounds ending) :
    Paced result rounds ending := by
  have hdelays := h.delays (by decide) (by decide)
  obtain ⟨hcount, hsum⟩ := h.within (by decide) (by decide)
  obtain ⟨hbudget, hended, hthrown⟩ := h.ends
  rw [Int.zero_add] at hsum hbudget
  refine ⟨fun round _ => sleepMs_bounds _ _, fun round hround => (hdelays round hround).1,
    fun round hround => (hdelays round hround).2, ?_, hsum, hbudget, hended, hthrown⟩
  rcases hcount with rfl | hcount
  · decide
  · omega

end

/-! ## What a call does on the wire -/

section

variable {t : ScanTarget} {s s' : WireState}

theorem wire_interruptCheck {r : Except Exception Unit}
    (h : interruptCheck.Exec (W := Wire) () s r s') :
    (r = .ok () ∨ r = .error interruptException) ∧ s'.events = s.events ++ [.check] := by
  obtain ⟨ch, ha⟩ := Prog.exec_perform.1 h
  rcases ch with _ | resp | e
  · obtain ⟨rfl, rfl⟩ := Prod.mk.inj (Option.some.inj ha)
    exact ⟨.inl rfl, rfl⟩
  · cases ha
  · simp only [Wire, wireAnswer] at ha
    split at ha
    · rename_i he
      obtain ⟨rfl, rfl⟩ := Prod.mk.inj (Option.some.inj ha)
      exact ⟨.inr (congrArg _ he), rfl⟩
    · cases ha

theorem wire_sleepFor {ms : ℤ} {r : Except Exception Unit}
    (h : (sleepFor ms).Exec (W := Wire) () s r s') :
    r = .ok () ∧ s'.events = s.events ++ [.slept ms] := by
  obtain ⟨ch, ha⟩ := Prog.exec_perform.1 h
  rcases ch with _ | resp | e
  · obtain ⟨rfl, rfl⟩ := Prod.mk.inj (Option.some.inj ha)
    exact ⟨rfl, rfl⟩
  · cases ha
  · cases ha

/-- A sleep: whole, or up to the check that threw. -/
theorem wire_sleepChunks {sleep_ms slept : ℤ} {r : Except Exception Unit}
    (h : (sleepInChunks sleep_ms slept).Exec (W := Wire) () s r s') :
    ∃ chunks : List ℤ, (∀ ms ∈ chunks, 0 < ms ∧ ms ≤ 100) ∧
      (r = .ok () ∧ chunks.sum = max (sleep_ms - slept) 0 ∧
          s'.events = s.events ++ chunks.flatMap (fun ms => [.check, .slept ms]) ∨
        r = .error interruptException ∧ chunks.sum < sleep_ms - slept ∧
          s'.events =
            s.events ++ (chunks.flatMap (fun ms => [.check, .slept ms]) ++ [.check])) := by
  induction slept using sleepInChunks.induct (sleep_ms) generalizing s with
  | case1 slept hlt ih =>
    rw [sleepInChunks, if_pos hlt] at h
    rcases Prog.exec_bind.1 h with ⟨_, s₁, hcheck, h⟩ | ⟨e, hcheck, rfl⟩
    · obtain ⟨-, hevents⟩ := wire_interruptCheck hcheck
      rcases Prog.exec_bind.1 h with ⟨_, s₂, hsleep, h⟩ | ⟨e, hsleep, -⟩
      · obtain ⟨-, hevents'⟩ := wire_sleepFor hsleep
        obtain ⟨chunks, hchunks, hrest⟩ := ih h
        have hchunk : 0 < min pollMinSleepMs (sleep_ms - slept) ∧
            min pollMinSleepMs (sleep_ms - slept) ≤ 100 := by
          rw [pollMinSleepMs]
          omega
        refine ⟨min pollMinSleepMs (sleep_ms - slept) :: chunks,
          List.forall_mem_cons.2 ⟨hchunk, hchunks⟩, ?_⟩
        simp only [List.sum_cons, List.flatMap_cons]
        rw [hevents', hevents] at hrest
        simp only [pollMinSleepMs] at *
        rcases hrest with ⟨rfl, hsum, hrest⟩ | ⟨rfl, hsum, hrest⟩
        · refine .inl ⟨rfl, by omega, ?_⟩
          rw [hrest]
          simp
        · refine .inr ⟨rfl, by omega, ?_⟩
          rw [hrest]
          simp
      · cases (wire_sleepFor hsleep).1
    · obtain ⟨hr, hevents⟩ := wire_interruptCheck hcheck
      rcases hr with hr | hr
      · cases hr
      · refine ⟨[], List.forall_mem_nil _, .inr ⟨congrArg _ (Except.error.inj hr), ?_, hevents⟩⟩
        rw [List.sum_nil]
        omega
  | case2 slept hge =>
    rw [sleepInChunks, if_neg hge] at h
    obtain ⟨rfl, rfl⟩ := h
    refine ⟨[], List.forall_mem_nil _, .inl ⟨rfl, ?_, (List.append_nil _).symm⟩⟩
    rw [List.sum_nil]
    omega

/-- A poll whose answer decodes, with the delay that it asks for. -/
theorem wire_fetched {plan_id : String} {a : UCScanPlanResult × ℤ}
    (h : (fetchPlanningResult t plan_id).Exec (W := Wire) () s (.ok a) s') :
    ∃ resp, s'.events = s.events ++ [.exchange (pollRequest t plan_id) (.ok resp)] ∧
      parseScanPlanResponse resp.body = .ok a.1 ∧ a.2 = parseRetryAfterMs resp := by
  simp only [fetchPlanningResult, Prog.bind_eq, Prog.exec_bind, Prog.exec_ofExcept] at h
  rcases h with ⟨resp, s₁, hm, h⟩ | ⟨e, -, he⟩
  · rcases wire_makeRequestResp hm with ⟨e, he, -⟩ | ⟨x, hx, rfl, -⟩
    · cases he
    rcases h with ⟨result, s₂, ⟨hp, rfl⟩, h⟩ | ⟨e, -, he⟩
    · obtain ⟨ha, rfl⟩ := h
      obtain rfl := Except.ok.inj ha
      exact ⟨resp, hx, hp.symm, rfl⟩
    · cases he
  · cases he

/-- A poll that throws: at most one request. -/
theorem wire_fetch_threw {plan_id : String} {e : Exception}
    (h : (fetchPlanningResult t plan_id).Exec (W := Wire) () s (.error e) s') :
    ∃ poll : Option (Except Exception HttpResponse),
      s'.events = s.events ++ poll.toList.map fun x => .exchange (pollRequest t plan_id) x := by
  rcases wire_fetchPlanningResult h with ⟨e', -, hs⟩ | ⟨x, hx, -⟩
  · exact ⟨none, by simp [hs]⟩
  · exact ⟨some x, hx⟩

/-- A cancel is seen as one request, if any. -/
theorem wire_abandoned {α : Type} {plan_id : String} {e : Exception} {r : Except Exception α}
    (h : (abandon t plan_id e).Exec (W := Wire) () s r s') :
    r = .error e ∧ ∃ cancel : Option (Except Exception HttpResponse), s'.events = s.events ++
      cancel.toList.map fun x =>
        .exchange ⟨.delete, t.planIdUrl plan_id, t.credentials.token, .empty⟩ x := by
  refine ⟨(wire_abandon h).1, ?_⟩
  simp only [abandon, Prog.bind_eq, Prog.exec_bind] at h
  rcases h with ⟨_, s₁, h, -, rfl⟩ | ⟨e', h, -⟩
  · rw [cancelPlan] at h
    split at h
    · simp only [Prog.tryCatch_eq', Prog.bind_eq, Prog.exec_tryCatch, Prog.exec_bind, wire_issue]
        at h
      rcases h with ⟨a, h, -⟩ | ⟨e', s₂, h, -, rfl⟩
      · rcases h with ⟨_, s₂, ⟨-, rfl⟩, ⟨resp, s₃, ha, -, rfl⟩ | ⟨e', -, he⟩⟩ | ⟨e', -, he⟩
        · rw [wire_answer rfl] at ha
          subst ha
          exact ⟨some (.ok resp), rfl⟩
        · cases he
        · cases he
      · rcases h with ⟨_, s₃, ⟨-, rfl⟩, ⟨resp, s₄, -, he, -⟩ | ⟨e'', ha, -⟩⟩ | ⟨e'', ⟨he, -⟩, -⟩
        · cases he
        · rw [wire_answer rfl] at ha
          subst ha
          exact ⟨some _, rfl⟩
        · cases he
    · obtain ⟨-, rfl⟩ := h
      exact ⟨none, by simp⟩
  · cases (wire_cancelPlan h).1

/-- A round that is answered. -/
theorem wire_round_answered {q : String} {retry_after_ms backoff_ms : ℤ} {a : UCScanPlanResult × ℤ}
    (h : (Prog.tryCatch ((sleepInChunks (sleepMs retry_after_ms backoff_ms) 0).bind fun _ =>
      fetchPlanningResult t q) (abandon t q)).Exec (W := Wire) () s (.ok a) s') :
    ∃ (round : PollRound) (resp : HttpResponse), round.plan_id = q ∧
      round.retry_after_ms = retry_after_ms ∧
      round.backoff_ms = backoff_ms ∧ round.Sleeps ∧ round.interrupted = false ∧
        round.poll = some (.ok resp) ∧
      parseScanPlanResponse resp.body = .ok a.1 ∧ round.answer = .ok a.1 ∧
        a.2 = parseRetryAfterMs resp ∧
      s'.events = s.events ++ round.events t := by
  rw [Prog.exec_tryCatch] at h
  rcases h with ⟨a', h, hr⟩ | ⟨e, s₁, -, hab⟩
  · obtain rfl := Except.ok.inj hr
    rcases Prog.exec_bind.1 h with ⟨_, s₁, hsleep, hfetch⟩ | ⟨e, -, he⟩
    · obtain ⟨chunks, hchunks, hslept⟩ := wire_sleepChunks hsleep
      obtain ⟨resp, hpoll, hparse, hretry⟩ := wire_fetched hfetch
      rcases hslept with ⟨-, hsum, hevents⟩ | ⟨he, -⟩
      · have hpos := sleepMs_bounds retry_after_ms backoff_ms
        have hwhole : chunks.sum = sleepMs retry_after_ms backoff_ms := by omega
        refine ⟨⟨q, retry_after_ms, backoff_ms, chunks, false, some (.ok resp), .ok a.1⟩, resp, rfl,
          rfl, rfl, ⟨hchunks, fun _ => hwhole, fun hint => Bool.noConfusion hint⟩, rfl, rfl, hparse,
          rfl, hretry, ?_⟩
        rw [hpoll, hevents]
        simp [PollRound.events]
      · cases he
    · cases he
  · cases (wire_abandoned hab).1

/-- A round that throws, and the cancel. -/
theorem wire_round_threw {q : String} {retry_after_ms backoff_ms : ℤ} {e : Exception}
    (h : (Prog.tryCatch ((sleepInChunks (sleepMs retry_after_ms backoff_ms) 0).bind fun _ =>
      fetchPlanningResult t q) (abandon t q)).Exec (W := Wire) () s (.error e) s') :
    ∃ (round : PollRound) (cancel : Option (Except Exception HttpResponse)), round.plan_id = q ∧
      round.retry_after_ms = retry_after_ms ∧ round.backoff_ms = backoff_ms ∧ round.Sleeps ∧
      round.answer = .error e ∧ s'.events = s.events ++ round.events t ++ cancel.toList.map fun x =>
        .exchange ⟨.delete, t.planIdUrl q, t.credentials.token, .empty⟩ x := by
  rw [Prog.exec_tryCatch] at h
  rcases h with ⟨a, -, hr⟩ | ⟨e', s₁, h, hab⟩
  · cases hr
  · obtain ⟨he, cancel, hcancel⟩ := wire_abandoned hab
    obtain rfl := Except.error.inj he
    have hpos := sleepMs_bounds retry_after_ms backoff_ms
    rcases Prog.exec_bind.1 h with ⟨_, s₂, hsleep, hfetch⟩ | ⟨e', hsleep, he⟩
    · obtain ⟨chunks, hchunks, hslept⟩ := wire_sleepChunks hsleep
      obtain ⟨poll, hpoll⟩ := wire_fetch_threw hfetch
      rcases hslept with ⟨-, hsum, hevents⟩ | ⟨he, -⟩
      · have hwhole : chunks.sum = sleepMs retry_after_ms backoff_ms := by omega
        refine ⟨⟨q, retry_after_ms, backoff_ms, chunks, false, poll, .error e⟩, cancel, rfl,
          rfl, rfl, ⟨hchunks, fun _ => hwhole, fun hint => Bool.noConfusion hint⟩, rfl, ?_⟩
        rw [hcancel, hpoll, hevents]
        simp [PollRound.events]
      · cases he
    · obtain rfl := Except.error.inj he
      obtain ⟨chunks, hchunks, hslept⟩ := wire_sleepChunks hsleep
      rcases hslept with ⟨hok, -⟩ | ⟨hint, hsum, hevents⟩
      · cases hok
      · obtain rfl := Except.error.inj hint
        have hpart : chunks.sum < sleepMs retry_after_ms backoff_ms := by omega
        refine ⟨⟨q, retry_after_ms, backoff_ms, chunks, true, none, .error interruptException⟩,
          cancel, rfl, rfl, rfl,
          ⟨hchunks, fun hnot => Bool.noConfusion hnot, fun _ => ⟨hpart, rfl, rfl⟩⟩, rfl, ?_⟩
        rw [hcancel, hevents]
        simp [PollRound.events]

/-- **The loop, round by round.** -/
theorem wire_pollLoop (result : UCScanPlanResult) (retry_after_ms backoff_ms elapsed_ms : ℤ)
    {r : Except Exception UCScanPlanResult} {s s' : WireState}
    (h : (pollLoop t result retry_after_ms backoff_ms elapsed_ms).Exec (W := Wire) () s r s') :
    ∃ (rounds : List PollRound) (ending : PollEnd) (plan_id : String)
      (cancel : Option (Except Exception HttpResponse)),
      PollTrace result retry_after_ms backoff_ms elapsed_ms rounds ending ∧ r = ending.outcome t ∧
      s'.events = s.events ++ rounds.flatMap (PollRound.events t) ++ cancel.toList.map fun x =>
        .exchange ⟨.delete, t.planIdUrl plan_id, t.credentials.token, .empty⟩ x := by
  induction result, retry_after_ms, backoff_ms,
  elapsed_ms using pollLoop.induct generalizing s s' r with
  | case1 result retry backoff elapsed hsub hbudget =>
    rw [pollLoop, if_pos hsub, if_pos hbudget] at h
    obtain ⟨rfl, cancel, hevents⟩ := wire_abandoned h
    exact ⟨[], .budget result.plan_id, result.plan_id, cancel, .budget hsub hbudget, rfl,
      by simpa using hevents⟩
  | case2 result retry backoff elapsed hsub hbudget sleep =>
    rename_i ih
    have hlt : elapsed < pollBudgetMs := by omega
    rw [pollLoop, if_pos hsub, if_neg hbudget] at h
    simp only [Prog.bind_eq, Prog.tryCatch_eq'] at h
    rcases Prog.exec_bind.1 h with ⟨a, s₁, hround, h⟩ | ⟨e, hround, rfl⟩
    · obtain ⟨round, resp, hid, hretry, hback, hsleeps, hint, hpoll, hparse, hanswer, hnext,
        hevents⟩ :=
        wire_round_answered hround
      obtain ⟨rounds, ending, plan_id, cancel, htrace, hr, hrest⟩ := ih a.1 a.2 h
      refine ⟨round :: rounds, ending, plan_id, cancel, ?_, hr, ?_⟩
      · refine .next hsub hlt hid hretry hback hsleeps hint hpoll hparse hanswer ?_
        rw [PollRound.sleep_ms, hretry, hback, ← hnext]
        exact htrace
      · rw [hrest, hevents, List.flatMap_cons, List.append_assoc, List.append_assoc,
          List.append_assoc, List.append_assoc]
    · obtain ⟨round, cancel, hid, hretry, hback, hsleeps, hanswer, hevents⟩ :=
        wire_round_threw hround
      refine ⟨[round], .thrown e, result.plan_id, cancel,
        .thrown hsub hlt hid hretry hback hsleeps hanswer, rfl, ?_⟩
      simpa using hevents
  | case3 result retry backoff elapsed hsub =>
    rw [pollLoop, if_neg hsub] at h
    obtain ⟨rfl, rfl⟩ := h
    exact ⟨[], .status result, "", none, .status hsub, rfl, by simp⟩

/-- **The poll loop ends within its budget.** A call throws before it has slept, or it goes round by
round: each delay is between 100 and 60000 ms, slept in chunks of at most 100 ms behind a check
each, which add up to it; there are at most 3000 polls and less than 360000 ms of sleep; the budget
error comes exactly where 300000 ms were slept and the latest answer is still submitted, and
otherwise the call returns the latest answer, which is not submitted, or throws what the last round
threw. -/
theorem planTableScan_paced {filter_json : String} {r : Except Exception UCScanPlanResult}
    (h : (UCAPI.planTableScan t filter_json).Exec (W := Wire) () {} r s') :
    (∃ (e : Exception) (submission : Option (Except Exception HttpResponse)), r = .error e ∧
      s'.events = submission.toList.map fun x =>
        .exchange ⟨.post, t.planUrl, t.credentials.token, planBody filter_json⟩ x) ∨
    ∃ (resp : HttpResponse) (result : UCScanPlanResult) (rounds : List PollRound) (ending : PollEnd)
      (plan_id : String) (cancel : Option (Except Exception HttpResponse)),
      parseScanPlanResponse resp.body = .ok result ∧
      PollTrace result (parseRetryAfterMs resp) 100 0 rounds ending ∧ Paced result rounds ending ∧
      r = ending.outcome t ∧
      s'.events =
        [.exchange ⟨.post, t.planUrl, t.credentials.token, planBody filter_json⟩ (.ok resp)] ++
        rounds.flatMap (PollRound.events t) ++ cancel.toList.map fun x =>
          .exchange ⟨.delete, t.planIdUrl plan_id, t.credentials.token, .empty⟩ x := by
  simp only [UCAPI.planTableScan, Prog.bind_eq, Prog.exec_bind, Prog.exec_ofExcept] at h
  rcases h with ⟨resp, s₁, hm, h⟩ | ⟨e, hm, rfl⟩
  · rcases wire_makeRequestResp hm with ⟨e, he, -⟩ | ⟨x, hx, rfl, -⟩
    · cases he
    rw [planBody_method] at hx
    rcases h with ⟨result, s₂, ⟨hparse, rfl⟩, h⟩ | ⟨e, ⟨-, rfl⟩, rfl⟩
    · obtain ⟨rounds, ending, plan_id, cancel, htrace, hr, hevents⟩ := wire_pollLoop _ _ _ _ h
      rw [hx] at hevents
      exact .inr ⟨resp, result, rounds, ending, plan_id, cancel, hparse.symm, htrace, htrace.paced,
        hr, hevents⟩
    · exact .inl ⟨e, some (.ok resp), rfl, hx⟩
  · rcases wire_makeRequestResp hm with ⟨e', -, hs⟩ | ⟨x, hx, -⟩
    · exact .inl ⟨e, none, rfl, hs⟩
    · rw [planBody_method] at hx
      exact .inl ⟨e, some x, rfl, hx⟩

end

/-- One round, which is cancelled at its start. -/
theorem planTableScan_paced_cancelled : ∃ r s',
    (UCAPI.planTableScan lostScan "").Exec (W := Wire) () {} r s' ∧
      ((∃ (e : Exception) (submission : Option (Except Exception HttpResponse)), r = .error e ∧
        s'.events = submission.toList.map fun x =>
          .exchange ⟨.post, lostScan.planUrl, lostScan.credentials.token, planBody ""⟩ x) ∨
      ∃ (resp : HttpResponse) (result : UCScanPlanResult) (rounds : List PollRound)
        (ending : PollEnd) (plan_id : String) (cancel : Option (Except Exception HttpResponse)),
        parseScanPlanResponse resp.body = .ok result ∧
        PollTrace result (parseRetryAfterMs resp) 100 0 rounds ending ∧ Paced result rounds ending ∧
        r = ending.outcome lostScan ∧
        s'.events =
          [.exchange ⟨.post, lostScan.planUrl, lostScan.credentials.token, planBody ""⟩ (.ok resp)]
          ++
          rounds.flatMap (PollRound.events lostScan) ++ cancel.toList.map fun x =>
            .exchange ⟨.delete, lostScan.planIdUrl plan_id, lostScan.credentials.token,
              .empty⟩ x) :=
  ⟨_, _, lost_run "" rfl rfl lostSubmission_parse lostPoll_parse (by decide),
    planTableScan_paced (lost_run "" rfl rfl lostSubmission_parse lostPoll_parse (by decide))⟩

/-- A submission that is not answered as submitted ends the call. -/
theorem returned_run (t : ScanTarget) (filter_json : String) {submission : HttpResponse}
    {result : UCScanPlanResult} (hs : submission.accepted statusInvalid = true)
    (hresult : parseScanPlanResponse submission.body = .ok result)
    (hstatus : result.status ≠ .submitted) :
    (UCAPI.planTableScan t filter_json).Exec (W := Wire) () {} (.ok result)
      ⟨none,
        [.exchange ⟨(planBody filter_json).method, t.planUrl, t.credentials.token,
        planBody filter_json⟩
        (.ok submission)]⟩ := by
  refine Prog.exec_bind.2 (.inl ⟨submission, _, wire_respond hs, ?_⟩)
  refine Prog.exec_bind.2 (.inl ⟨_, _, Prog.exec_ofExcept.2 ⟨hresult.symm, rfl⟩, ?_⟩)
  rw [pollLoop, if_neg hstatus]
  exact ⟨rfl, rfl⟩

/-- A submission that is answered with a status of the server's own. -/
def queuedSubmission : HttpResponse := ⟨200, true, "", [], "\x7b\"status\":\"queued\"\x7d"⟩

/-- It ends the call, with a status that is none of the three and no error. -/
theorem queued_is_returned :
    ¬ ∀ (r : Except Exception UCScanPlanResult) (s' : WireState),
      (UCAPI.planTableScan lostScan "").Exec (W := Wire) () {} r s' →
        (∃ e, r = .error e) ∨ ∃ result, r = .ok result ∧
          (result.status = .completed ∨ result.status = .failed ∨ result.status = .cancelled) := by
  intro h
  have hparse : parseScanPlanResponse queuedSubmission.body = .ok {} := by
    decide +kernel
  have haccepted : queuedSubmission.accepted statusInvalid = true := by decide
  have hrun := returned_run lostScan "" haccepted hparse (by decide)
  rcases h _ _ hrun with ⟨e, he⟩ | ⟨result, hr, hstatus⟩
  · cases he
  · obtain rfl := Except.ok.inj hr
    revert hstatus
    decide

end UnityCatalog
