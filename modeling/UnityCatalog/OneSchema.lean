import UnityCatalog.BoundPath
import UnityCatalog.EntryKeys

/-!
# One schema a transaction

The lookups of one transaction on one table, at its latest version: any number of threads run
`GetVersion` while other sessions commit, mark the latch and ask it, and the clock goes on. What a
lookup resolves from the Delta log it keeps in the transaction, and later ones are given it. UC's
report is kept nowhere: **every lookup decides anew** whether to return it.
-/

namespace UnityCatalog

open Effectful

/-! ## The lookups -/

/-- What a lookup decides on. -/
inductive Decision where
  | report | log
  deriving DecidableEq

/-- What the lookups share. -/
structure LookupState where
  gate : ScanPlanGate := {}
  now : ℤ := 0
  /-- whether the table's log holds a schema -/
  schema : Bool := false
  /-- `table_entries` of the transaction -/
  entries : List (String × UCTableEntry) := []
  /-- what the lookups decided on first -/
  decided : Option Decision := none
  /-- what they returned -/
  returned : List UCTableEntry := []

namespace LookupState

/-- The entry under a key. -/
def held (s : LookupState) (key : String) : Option UCTableEntry :=
  (s.entries.find? fun x => x.1 == key).map Prod.snd

/-- A lookup decides; the first decision stays. -/
def decide (s : LookupState) (d : Decision) : LookupState :=
  { s with decided := some (s.decided.getD d) }

/-- All lookups returned the same entry. -/
def OneEntry (s : LookupState) : Prop := ∀ e ∈ s.returned, ∀ e' ∈ s.returned, e = e'

end LookupState

/-- What other sessions and the clock do. -/
inductive LookupEnv where
  | tick (n : ℕ)
  /-- a plan of theirs is completed -/
  | available
  /-- one fails -/
  | unavailable
  /-- they ask the latch -/
  | asked
  /-- commits of theirs give the log a schema, or it loses the one it had -/
  | schema (b : Bool)

namespace TableInformation

variable (t : TableInformation)

/-- The key of the table at its latest version. -/
def latestKey : String := t.schema_name ++ "." ++ t.table_data.name

/-- Whether the report can be returned. -/
def readable : Bool := t.reported.isSome && t.unreadable_columns.isEmpty

/-- Whether there is no log the lookups could turn to. -/
def hasNoLog : Bool := t.reported.isSome && t.table_data.data_source_format != "DELTA"

/-- The operations of a lookup. UC and the rest of the session answer whatever they like; the Delta
extension finds some version of the table where its log holds a schema. -/
def lookupAnswer (s : LookupState) (op : Op) (ch : (op : Op) → Except Exception op.Ans) :
    Option (Except Exception op.Ans × LookupState) :=
  match op with
  | .scanPlanGate f =>
    let s' := { s with gate := (f s.gate s.now).2 }
    some (.ok (f s.gate s.now).1,
      if (f s.gate s.now).1 && t.readable then s'.decide .report else s')
  | .lookupEntry db at_clause =>
    match ch (.lookupEntry db at_clause) with
    | .error e => some (.error e, s)
    | .ok table =>
      if table.isSome = s.schema then
        some (.ok table, if table.isSome then s.decide .log
          else if t.readable then s.decide .report else s)
      else none
  | .getTableEntry key => some (.ok (s.held key), s)
  | .setTableEntry key entry =>
    match s.held key with
    | some stored => some (.ok stored, s)
    | none => some (.ok entry, { s with entries := (key, entry) :: s.entries })
  | op => some (ch op, s)

/-- What happens around them. -/
def lookupEnv (s : LookupState) : LookupEnv → LookupState
  | .tick n => { s with now := s.now + n }
  | .available => { s with gate.scan_plan_state := .available }
  | .unavailable => { s with gate := ⟨.unavailable, s.now⟩ }
  | .asked => if s.gate.allows s.now then
      { s with gate.scan_plan_state :=
          if s.gate.scan_plan_state = .unavailable then .unknown else s.gate.scan_plan_state }
    else s
  | .schema b => { s with schema := b }

/-- The threads of a transaction at their lookups of the table. Nothing is kept under its key before
the first. -/
def transaction : Pool Client Exception UCTableEntry where
  Ctx := ℕ
  State := LookupState
  Choice := (op : Op) → Except Exception op.Ans
  answer _ s op ch := t.lookupAnswer s op ch
  Call := Unit
  start s _ _ := some (t.getVersion none, s)
  finish s _ r :=
    match r with
    | .ok entry => { s with returned := entry :: s.returned }
    | .error _ => s
  Env := LookupEnv
  env s e := some (lookupEnv s e)
  init s := s.held t.latestKey = none ∧ s.returned = [] ∧
    s.decided = if t.hasNoLog then some .report else none

instance : DecidableEq t.transaction.Ctx := inferInstanceAs (DecidableEq ℕ)

/-- No lookup decides against an earlier one: none is let through by the latch, or finds no schema
in the log, after one that found a schema; none finds a schema after one that returned the
report. -/
def decidesAlike : Guard t.transaction where
  op (s : LookupState) _ op ch :=
    match op with
    | .scanPlanGate _ =>
      s.gate.allows s.now = true → t.readable = true → s.decided ≠ some .log
    | .lookupEntry db at_clause => ∀ table, ch (.lookupEntry db at_clause) = .ok table →
      (s.schema = true → s.decided ≠ some .report) ∧
        (s.schema = false → t.readable = true → s.decided ≠ some .log)
    | _ => True
  env _ _ := True

variable {t}

/-! ## Every run -/

/-- What holds in every state. -/
structure LookupInv (t : TableInformation) (s : LookupState) : Prop where
  undecided : s.decided = none → s.held t.latestKey = none ∧ s.returned = []
  report : s.decided = some .report →
    s.held t.latestKey = none ∧ ∀ e ∈ s.returned, t.reported = some e
  log : s.decided = some .log → ∀ e ∈ s.returned, s.held t.latestKey = some e
  noLog : t.hasNoLog = true → s.decided = some .report

/-- What one lookup relies on: a decision and an entry that is kept both stay. -/
structure LookupRely (t : TableInformation) (s s' : LookupState) : Prop where
  decided : ∀ d, s.decided = some d → s'.decided = some d
  held : ∀ e, s.held t.latestKey = some e → s'.held t.latestKey = some e

theorem LookupRely.refl (t : TableInformation) (s : LookupState) : LookupRely t s s :=
  ⟨fun _ h => h, fun _ h => h⟩

/-- The lookups, one beside the others. -/
def deciding (t : TableInformation) : Outline t.transaction where
  guard := t.decidesAlike
  inv := t.LookupInv
  rely _ s s' := LookupRely t s s'
  rely_refl _ s := .refl t s
  rely_trans _ _ _ _ h h' :=
    ⟨fun d hd => h'.decided d (h.decided d hd), fun e he => h'.held e (h.held e he)⟩

section

variable {s s' : LookupState}

/-- A state that differs in the latch, the clock and the log only. -/
theorem LookupInv.same (hs : t.LookupInv s) (hd : s'.decided = s.decided)
    (he : s'.entries = s.entries) (hr : s'.returned = s.returned) :
    t.LookupInv s' ∧ LookupRely t s s' := by
  have hheld : s'.held t.latestKey = s.held t.latestKey :=
    by rw [LookupState.held, he, LookupState.held]
  refine ⟨⟨?_, ?_, ?_, ?_⟩, fun d h => hd.trans h, fun e h => hheld.trans h⟩
  · rw [hd, hheld, hr]
    exact hs.undecided
  · rw [hd, hheld, hr]
    exact hs.report
  · rw [hd, hheld, hr]
    exact hs.log
  · rw [hd]
    exact hs.noLog

/-- A decision that is not against an earlier one. -/
theorem LookupInv.decide (hs : t.LookupInv s) {d : Decision}
    (hd : ∀ d', s.decided = some d' → d' = d) :
    t.LookupInv (s.decide d) ∧ LookupRely t s (s.decide d) ∧ (s.decide d).decided = some d := by
  rcases h : s.decided with _ | d'
  · obtain ⟨hheld, hreturned⟩ := hs.undecided h
    have hdecided : (s.decide d).decided = some d := by rw [LookupState.decide, h, Option.getD_none]
    refine ⟨⟨?_, ?_, ?_, ?_⟩, ⟨?_, fun e he => he⟩, hdecided⟩
    · intro hnone
      cases hdecided.symm.trans hnone
    · exact fun _ => ⟨hheld, fun e he => absurd (hreturned ▸ he) List.not_mem_nil⟩
    · exact fun _ e he => absurd (hreturned ▸ he) List.not_mem_nil
    · intro hno
      cases h.symm.trans (hs.noLog hno)
    · intro d' hd'
      cases h.symm.trans hd'
  · obtain rfl := hd d' h
    have hsame : s.decide d' = s := by
      rw [LookupState.decide, h, Option.getD_some, ← h]
    rw [hsame]
    exact ⟨hs, .refl t s, h⟩

end

variable {c : t.transaction.Ctx} {s : t.transaction.State}

/-- What an answer of the latch is worth: where it lets a lookup through, the report is decided
on. -/
theorem stable_letsThrough (r : Except Exception Bool) :
    (deciding t).Stable c fun s : LookupState =>
      r = .ok true → t.readable = true → s.decided = some .report :=
  fun _ _ hr _ _ h hrt ht => hr.decided _ (h hrt ht)

/-- An operation on the latch that answers what it allows. -/
theorem safe_scanPlanGate {f : ScanPlanGate → ℤ → Bool × ScanPlanGate}
    (hf : ∀ g now, (f g now).1 = g.allows now) :
    (deciding t).Safe c (scanPlanGate f)
      (fun r (s : LookupState) => r = .ok true → t.readable = true →
        s.decided = some .report) s := by
  refine Outline.safe_perform (fun r => stable_letsThrough r) ?_
  intro (s : LookupState) _ (hs : t.LookupInv s) ch x s' hguard ha
  obtain ⟨rfl, rfl⟩ := Prod.mk.inj (Option.some.inj ha)
  have hsame : t.LookupInv { s with gate := (f s.gate s.now).2 } ∧
      LookupRely t s { s with gate := (f s.gate s.now).2 } := hs.same rfl rfl rfl
  obtain ⟨hs', hrely⟩ := hsame
  by_cases hthrough : ((f s.gate s.now).1 && t.readable) = true
  · obtain ⟨hallows, hreadable⟩ := Bool.and_eq_true_iff.1 hthrough
    rw [hf] at hallows
    -- the guard: no lookup found a schema in the log before
    have hagrees : ∀ d, s.decided = some d → d = .report := by
      intro d hd
      cases d with
      | report => rfl
      | log => exact absurd hd (hguard hallows hreadable)
    obtain ⟨hinv, hdecides, hdecided⟩ := hs'.decide hagrees
    simp only [if_pos hthrough]
    exact ⟨hinv, fun d _ => (deciding t).rely_trans d _ _ _ hrely hdecides, fun _ _ => hdecided⟩
  · simp only [if_neg hthrough]
    refine ⟨hs', fun d _ => hrely, fun hr hreadable => absurd ?_ hthrough⟩
    rw [Except.ok.inj hr, hreadable]
    rfl

/-- Asking the latch. -/
theorem safe_shouldTryScanPlan (credentials : UCCredentials) :
    (deciding t).Safe c (shouldTryScanPlan credentials)
      (fun r (s : LookupState) => r = .ok true → t.readable = true →
        s.decided = some .report) s := by
  rw [shouldTryScanPlan]
  split
  · refine safe_scanPlanGate fun g now => ?_
    rw [ScanPlanGate.allows]
    by_cases hstate : g.scan_plan_state = .unavailable
    · by_cases hrecent : now - g.scan_plan_unavailable_since < scanPlanReProbe
      · simp [hstate, hrecent]
      · simp [hstate, hrecent]
    · simp [hstate]
  · exact fun s' _ _ hr => by cases hr

theorem safe_readsReport (hs : t.LookupInv s) :
    (deciding t).Safe c (t.readsReport none)
      (fun r (s : LookupState) => r = .ok true → t.readable = true →
        s.decided = some .report) s := by
  rw [readsReport]
  by_cases hr : t.reported.isSome = true
  · have hfirst : ((none : Option BoundAtClause).isSome || t.reported.isNone) = false := by
      simpa using hr
    simp only [hfirst, Bool.false_eq_true, if_false]
    -- a table without a log is decided on from the start
    have hno : (t.table_data.data_source_format != "DELTA") = true → t.hasNoLog = true := by
      intro hformat
      rw [hasNoLog, hr, hformat]
      rfl
    split
    · refine (safe_shouldTryScanPlan _).bind hs ?_ fun e s _ _ s' _ _ h => by cases h
      intro planned (s : LookupState) (hs : t.LookupInv s) hplanned s' hrely hs' hb hreadable
      rcases Bool.or_eq_true_iff.1 (Except.ok.inj hb) with h | h
      · exact hrely.decided _ (hplanned (congrArg _ h) hreadable)
      · exact hs'.noLog (hno h)
    · exact fun s' _ hs' hb _ => hs'.noLog (hno (Except.ok.inj hb))
  · have hfirst : ((none : Option BoundAtClause).isSome || t.reported.isNone) = true := by
      simpa using hr
    simp only [hfirst, if_true]
    exact fun s' _ _ hb => by cases hb

/-! ### The log -/

theorem lookupAnswer_of_attachStep {op : Op} (hop : t.AttachStep op)
    {ch : (op : Op) → Except Exception op.Ans} {x : Except Exception op.Ans} {s s' : LookupState}
    (h : t.lookupAnswer s op ch = some (x, s')) : s' = s := by
  cases op <;> first | exact (Prod.mk.inj (Option.some.inj h)).2.symm | exact hop.elim

theorem lookupAnswer_of_refreshStep {op : Op} (hop : t.RefreshStep op)
    {ch : (op : Op) → Except Exception op.Ans} {x : Except Exception op.Ans} {s s' : LookupState}
    (h : t.lookupAnswer s op ch = some (x, s')) : s' = s := by
  cases op <;> first | exact (Prod.mk.inj (Option.some.inj h)).2.symm | exact hop.elim

/-- What a look at the log decides: for the log where it holds a schema, for a readable report where
it does not. -/
def FoundDecides (t : TableInformation) (found : Bool) (s : LookupState) : Prop :=
  (found = true → s.decided = some .log) ∧
    (found = false → t.readable = true → s.decided = some .report)

theorem stable_foundDecides (r : Except Exception (Option DeltaTable)) :
    (deciding t).Stable c fun s : LookupState => ∀ table, r = .ok table →
      t.FoundDecides table.isSome s :=
  fun _ _ hr _ _ h table htable => ⟨fun hfound => hr.decided _ ((h table htable).1 hfound),
    fun hfound hreadable => hr.decided _ ((h table htable).2 hfound hreadable)⟩

/-- Looking the table up in the log. -/
theorem safe_lookupEntry (db : AttachedDatabase) (at_clause : Option BoundAtClause) :
    (deciding t).Safe c (lookupEntry db at_clause)
      (fun r (s : LookupState) => ∀ table, r = .ok table → t.FoundDecides table.isSome s) s := by
  refine Outline.safe_perform (fun r => stable_foundDecides r) ?_
  intro (s : LookupState) _ (hs : t.LookupInv s) ch x s' hguard ha
  have hanswer : t.lookupAnswer s (.lookupEntry db at_clause) ch = some (x, s') := ha
  simp only [lookupAnswer] at hanswer
  cases hch : ch (.lookupEntry db at_clause) with
  | error e =>
    simp only [hch] at hanswer
    obtain ⟨rfl, rfl⟩ := Prod.mk.inj (Option.some.inj hanswer)
    exact ⟨hs, fun d _ => .refl t _, fun table htable => nomatch htable⟩
  | ok table =>
    -- the guard: this lookup's outcome is the one that was bound before, if any was
    obtain ⟨hschema, hnone⟩ := hguard table hch
    simp only [hch] at hanswer
    split at hanswer
    · rename_i hsome
      obtain ⟨rfl, rfl⟩ := Prod.mk.inj (Option.some.inj hanswer)
      cases hfound : table.isSome with
      | true =>
        have hagrees : ∀ d, s.decided = some d → d = .log := by
          intro d hd
          cases d with
          | log => rfl
          | report => exact absurd hd (hschema (hsome.symm.trans hfound))
        obtain ⟨hinv, hrely, hdecided⟩ := hs.decide hagrees
        refine ⟨hinv, fun d _ => hrely, fun table' htable => ?_⟩
        obtain rfl := Except.ok.inj htable
        exact ⟨fun _ => hdecided, fun h => nomatch hfound.symm.trans h⟩
      | false =>
        simp only [Bool.false_eq_true, if_false]
        -- no table in the log: the report decides, where it can be read
        by_cases hreadable : t.readable = true
        · have hagrees : ∀ d, s.decided = some d → d = .report := by
            intro d hd
            cases d with
            | report => rfl
            | log => exact absurd hd (hnone (hsome.symm.trans hfound) hreadable)
          obtain ⟨hinv, hrely, hdecided⟩ := hs.decide hagrees
          rw [if_pos hreadable]
          refine ⟨hinv, fun d _ => hrely, fun table' htable => ?_⟩
          obtain rfl := Except.ok.inj htable
          exact ⟨fun h => (nomatch hfound.symm.trans h), fun _ _ => hdecided⟩
        · rw [if_neg hreadable]
          refine ⟨hs, fun d _ => .refl t _, fun table' htable => ?_⟩
          obtain rfl := Except.ok.inj htable
          exact ⟨fun h => (nomatch hfound.symm.trans h), fun _ h => absurd h hreadable⟩
    · cases hanswer

theorem safe_entryFromDeltaLog (hs : t.LookupInv s) :
    (deciding t).Safe c (t.entryFromDeltaLog none)
      (fun r (s : LookupState) => ∀ entry, r = .ok entry → t.FoundDecides entry.isSome s) s := by
  have hrefresh : (deciding t).Keeps c t.refreshCredentials :=
    Outline.keeps_of_uses t.uses_refreshCredentials fun _ _ _ _ _ hop ha =>
      lookupAnswer_of_refreshStep hop ha
  have hattach : ∀ {α : Type} {p : Run α}, p.Uses t.AttachStep → (deciding t).Keeps c p :=
    fun hp => Outline.keeps_of_uses hp fun _ _ _ _ _ hop ha => lookupAnswer_of_attachStep hop ha
  have htable : (deciding t).Safe c (t.deltaTable none)
      (fun r (s : LookupState) => ∀ table, r = .ok table → t.FoundDecides table.isSome s) s := by
    refine (hrefresh s hs).bind hs (fun _ s hs _ => ?_) fun e s _ _ s' _ _ table h => nomatch h
    refine (hattach t.uses_internalAttach_steps s hs).bind hs (fun _ s hs _ => ?_)
      fun e s _ _ s' _ _ table h => nomatch h
    exact (hattach uses_getInternalCatalog s hs).bind hs (fun db s _ _ => safe_lookupEntry db none)
      fun e s _ _ s' _ _ table h => nomatch h
  refine htable.bind hs ?_ fun e s _ _ s' _ _ entry h => nomatch h
  intro table (s : LookupState) _ htable s' hrely _ entry hentry
  obtain rfl := Except.ok.inj hentry
  rw [Option.isSome_map]
  have hfound := htable table rfl
  exact ⟨fun h => hrely.decided _ (hfound.1 h), fun h hr => hrely.decided _ (hfound.2 h hr)⟩

/-! ### A whole lookup -/

/-- What a lookup that returns `e` leaves: the report was decided on and is `e`, or the log was and
`e` is kept. -/
def Settled (t : TableInformation) (e : UCTableEntry) (s : LookupState) : Prop :=
  (s.decided = some .report ∧ t.reported = some e) ∨
    (s.decided = some .log ∧ s.held t.latestKey = some e)

theorem Settled.rely {e : UCTableEntry} {s s' : LookupState} (h : t.Settled e s)
    (hr : LookupRely t s s') : t.Settled e s' := by
  rcases h with ⟨hd, he⟩ | ⟨hd, he⟩
  · exact .inl ⟨hr.decided _ hd, he⟩
  · exact .inr ⟨hr.decided _ hd, hr.held _ he⟩

/-- What a lookup is to leave. -/
abbrev LookupPost (t : TableInformation) (r : Except Exception UCTableEntry) (s : LookupState) :
    Prop :=
  ∀ e, r = .ok e → t.Settled e s

theorem stable_lookupPost (r : Except Exception UCTableEntry) :
    (deciding t).Stable c fun s : LookupState => t.LookupPost r s :=
  fun _ _ hr _ _ h e he => (h e he).rely hr

theorem safe_lookup_throw (e : Exception) (s : t.transaction.State) :
    (deciding t).Safe c (.throw e : Run UCTableEntry) (fun r (s : LookupState) =>
      t.LookupPost r s) s :=
  fun _ _ _ _ h => nomatch h

theorem readableReport_ok {e : UCTableEntry} (h : t.readableReport = .ok e) :
    t.reported = some e ∧ t.readable = true := by
  rw [readableReport] at h
  cases hr : t.reported with
  | none =>
    rw [hr] at h
    cases h
  | some reported =>
    rw [hr] at h
    have hcols : t.unreadable_columns = [] ∧ reported = e := by
      rw [throwIfUnreadableColumns] at h
      cases hcols : t.unreadable_columns with
      | nil =>
        rw [hcols] at h
        exact ⟨rfl, Except.ok.inj h⟩
      | cons column rest =>
        rw [hcols] at h
        cases h
    obtain ⟨hcols, rfl⟩ := hcols
    refine ⟨rfl, ?_⟩
    rw [readable, hr, hcols]
    rfl

/-- Returning the report. -/
theorem safe_readableReport {s : LookupState}
    (hdecided : t.readable = true → s.decided = some .report) (hs : t.LookupInv s) :
    (deciding t).Safe c (Prog.ofExcept t.readableReport) (fun r (s : LookupState) =>
      t.LookupPost r s)
      s := by
  refine Outline.safe_ofExcept (stable_lookupPost _) hs ?_
  intro e he
  obtain ⟨hr, hreadable⟩ := readableReport_ok he
  exact .inl ⟨hdecided hreadable, hr⟩

/-- An entry that is kept was decided on. -/
theorem LookupInv.decided_of_held {s : LookupState} (hs : t.LookupInv s) {e : UCTableEntry}
    (he : s.held t.latestKey = some e) : s.decided = some .log := by
  rcases hd : s.decided with _ | _ | _
  · cases he.symm.trans (hs.undecided hd).1
  · cases he.symm.trans (hs.report hd).1
  · rfl

/-- Keeping an entry, where none is kept. -/
theorem LookupInv.keep {s : LookupState} (hs : t.LookupInv s) (hlog : s.decided = some .log)
    (hnone : s.held t.latestKey = none) (e : UCTableEntry) :
    t.LookupInv { s with entries := (t.latestKey, e) :: s.entries } ∧
      LookupRely t s { s with entries := (t.latestKey, e) :: s.entries } ∧
        LookupState.held { s with entries := (t.latestKey, e) :: s.entries } t.latestKey =
          some e := by
  have hheld : LookupState.held { s with entries := (t.latestKey, e) :: s.entries } t.latestKey =
      some e := by
    simp [LookupState.held]
  refine ⟨⟨?_, ?_, ?_, hs.noLog⟩, ⟨fun _ h => h, ?_⟩, hheld⟩
  · intro h
    cases hlog.symm.trans h
  · intro h
    cases hlog.symm.trans h
  · intro _ e' he'
    -- nothing was returned: it would be kept
    cases hnone.symm.trans (hs.log hlog e' he')
  · intro e' he'
    cases hnone.symm.trans he'

/-- Storing what was found in the log. -/
theorem safe_setTableEntry (entry : UCTableEntry) {s : LookupState}
    (hlog : s.decided = some .log) :
    (deciding t).Safe c (setTableEntry t.latestKey entry)
      (fun r (s : LookupState) => t.LookupPost r s) s := by
  refine Outline.safe_perform (fun r => stable_lookupPost r) ?_
  intro (s₁ : LookupState) hr (hs₁ : t.LookupInv s₁) ch x s' _ ha
  have hlog₁ := hr.decided _ hlog
  have hanswer : t.lookupAnswer s₁ (.setTableEntry t.latestKey entry) ch = some (x, s') := ha
  simp only [lookupAnswer] at hanswer
  cases hheld : s₁.held t.latestKey with
  | some stored =>
    simp only [hheld] at hanswer
    obtain ⟨rfl, rfl⟩ := Prod.mk.inj (Option.some.inj hanswer)
    refine ⟨hs₁, fun d _ => .refl t _, fun e he => ?_⟩
    obtain rfl := Except.ok.inj he
    exact .inr ⟨hlog₁, hheld⟩
  | none =>
    simp only [hheld] at hanswer
    obtain ⟨rfl, rfl⟩ := Prod.mk.inj (Option.some.inj hanswer)
    obtain ⟨hinv, hrely, hkept⟩ := hs₁.keep hlog₁ hheld entry
    refine ⟨hinv, fun d _ => hrely, fun e he => ?_⟩
    obtain rfl := Except.ok.inj he
    exact .inr ⟨hlog₁, hkept⟩

/-- An entry the transaction keeps. -/
theorem safe_getTableEntry {s : LookupState} :
    (deciding t).Safe c (getTableEntry t.latestKey)
      (fun r (s : LookupState) => ∀ bound, r = .ok (some bound) → t.Settled bound s) s := by
  refine Outline.safe_perform (fun r s s' hr _ _ h bound hb => (h bound hb).rely hr) ?_
  intro (s₁ : LookupState) _ (hs₁ : t.LookupInv s₁) ch x s' _ ha
  obtain ⟨rfl, rfl⟩ := Prod.mk.inj (Option.some.inj ha)
  refine ⟨hs₁, fun d _ => .refl t _, fun bound hb => ?_⟩
  have hheld := Except.ok.inj hb
  exact .inr ⟨hs₁.decided_of_held hheld, hheld⟩

/-- **One lookup**, whatever the others do. -/
theorem safe_getVersion {s : LookupState} (hs : t.LookupInv s) :
    (deciding t).Safe c (t.getVersion none) (fun r (s : LookupState) => t.LookupPost r s) s := by
  rw [getVersion_eq]
  have hinterval : (deciding t).Safe c (Prog.ofExcept t.throwIfIntervalColumns)
      (fun _ _ => True) s :=
    Outline.safe_ofExcept (fun _ _ _ _ _ h => h) hs trivial
  refine hinterval.bind hs ?_ fun e s _ _ => safe_lookup_throw e s
  intro _ (s : LookupState) (hs : t.LookupInv s) _
  refine (safe_readsReport hs).bind hs ?_ fun e s _ _ => safe_lookup_throw e s
  intro report (s : LookupState) (hs : t.LookupInv s) hreport
  cases report with
  | true =>
    rw [if_pos rfl]
    exact safe_readableReport (hreport rfl) hs
  | false =>
    rw [if_neg Bool.false_ne_true]
    refine safe_getTableEntry.bind hs ?_ fun e s _ _ => safe_lookup_throw e s
    intro bound (s : LookupState) (hs : t.LookupInv s) hbound
    cases bound with
    | some bound =>
      intro s' hr _ e he
      obtain rfl := Except.ok.inj he
      exact (hbound bound rfl).rely hr
    | none =>
      refine (safe_entryFromDeltaLog hs).bind hs ?_ fun e s _ _ => safe_lookup_throw e s
      intro entry (s : LookupState) (hs : t.LookupInv s) hentry
      have hfound := hentry entry rfl
      cases entry with
      | some entry => exact safe_setTableEntry entry (hfound.1 rfl)
      | none => exact safe_readableReport (hfound.2 rfl) hs

/-- One more entry that was returned. -/
theorem LookupInv.return {s : LookupState} (hs : t.LookupInv s) {e : UCTableEntry}
    (he : t.Settled e s) : t.LookupInv { s with returned := e :: s.returned } := by
  rcases he with ⟨hd, he⟩ | ⟨hd, he⟩
  · refine ⟨?_, fun _ => ?_, ?_, hs.noLog⟩
    · intro h
      cases hd.symm.trans h
    · obtain ⟨hheld, hall⟩ := hs.report hd
      exact ⟨hheld, List.forall_mem_cons.2 ⟨he, hall⟩⟩
    · intro h
      cases hd.symm.trans h
  · refine ⟨?_, ?_, fun _ => ?_, hs.noLog⟩
    · intro h
      cases hd.symm.trans h
    · intro h
      cases hd.symm.trans h
    · exact List.forall_mem_cons.2 ⟨he, hs.log hd⟩

theorem LookupInv.oneEntry {s : LookupState} (hs : t.LookupInv s) : s.OneEntry := by
  intro e he e' he'
  rcases hd : s.decided with _ | _ | _
  · exact absurd ((hs.undecided hd).2 ▸ he) List.not_mem_nil
  · have hall := (hs.report hd).2
    exact Option.some.inj ((hall e he).symm.trans (hall e' he'))
  · have hall := hs.log hd
    exact Option.some.inj ((hall e he).symm.trans (hall e' he'))

/-- **A transaction keeps one schema of a table** in every run in which no lookup decides against an
earlier one. -/
theorem oneEntry_of_decidesAlike (t : TableInformation) {cfg : t.transaction.Config}
    (h : t.transaction.system.ReachableWhile t.decidesAlike.Meets cfg) :
      LookupState.OneEntry cfg.state := by
  refine LookupInv.oneEntry (t := t) (Outline.sound (O := deciding t)
    (Q := fun _ r (s : LookupState) => t.LookupPost r s) ?_ ?_ ?_ ?_ h).1
  · rintro s ⟨hheld, hreturned, hdecided⟩
    refine ⟨fun _ => ⟨hheld, hreturned⟩, fun _ => ⟨hheld, fun e he => ?_⟩, fun _ e he => ?_, ?_⟩
    · exact absurd (hreturned ▸ he) List.not_mem_nil
    · exact absurd (hreturned ▸ he) List.not_mem_nil
    · intro hno
      rw [hdecided, if_pos hno]
  · intro s c call p s' hs hst
    obtain ⟨rfl, rfl⟩ := Prod.mk.inj (Option.some.inj hst)
    exact ⟨hs, fun d _ => .refl t _, safe_getVersion hs⟩
  · intro (s : LookupState) c r (hs : t.LookupInv s) hpost
    cases r with
    | ok e => exact ⟨hs.return (hpost e rfl), fun d _ => ⟨fun _ h => h, fun _ h => h⟩⟩
    | error e => exact ⟨hs, fun d _ => .refl t _⟩
  · intro (s : LookupState) e s' (hs : t.LookupInv s) _ he
    obtain rfl := Option.some.inj he
    have hsame : (lookupEnv s e).decided = s.decided ∧ (lookupEnv s e).entries = s.entries ∧
        (lookupEnv s e).returned = s.returned := by
      cases e with
      | asked =>
        rw [lookupEnv]
        split <;> exact ⟨rfl, rfl, rfl⟩
      | _ => exact ⟨rfl, rfl, rfl⟩
    obtain ⟨hs', hrely⟩ := hs.same hsame.1 hsame.2.1 hsame.2.2
    exact ⟨hs', fun _ => hrely⟩

end TableInformation

/-! ### A plan that fails between two lookups -/

/-- A transaction on the table, whose log holds a schema. -/
def exampleTransaction : reportedTable.transaction.Config :=
  ⟨({ schema := true } : LookupState), fun _ => none⟩

theorem exampleTransaction_init : reportedTable.transaction.system.init exampleTransaction :=
  ⟨⟨rfl, rfl, rfl⟩, rfl⟩

/-- Operations in a session that has the table's database attached; its log holds another column. -/
def exampleLogAnswer : (op : Op) → Except Exception op.Ans
  | .lookupEntry _ _ => .ok (some ⟨[⟨"b", .bigint⟩]⟩)
  | op => exampleEntryAnswer op

/-- A lookup of `n` operations. -/
def exampleVersion (c : ℕ) (n : ℕ) : List reportedTable.transaction.Label :=
  [.start c ()] ++ List.replicate n (.op c exampleLogAnswer) ++ [.finish c]

/-- The names of the columns the lookups returned, the latest first. -/
def LookupState.columns (s : LookupState) : List (List String) :=
  s.returned.map fun e => e.columns.map ColumnDefinition.name

theorem LookupState.OneEntry.columns_eq {s : LookupState} (h : s.OneEntry)
    {names names' : List String}
    {rest : List (List String)} (hs : s.columns = names :: names' :: rest) : names = names' := by
  obtain ⟨e, es, hes, rfl, hrest⟩ := List.map_eq_cons_iff.1 hs
  obtain ⟨e', es', rfl, rfl, -⟩ := List.map_eq_cons_iff.1 hrest
  have heq : e = e' := by
    apply h e
    · rw [hes]
      exact List.mem_cons_self
    · rw [hes]
      exact List.mem_cons_of_mem _ List.mem_cons_self
  rw [heq]

/-- The first lookup returns the report and the second, after a plan that failed, the log's
entry. -/
theorem transaction_sees_two_schemas : ∃ cfg, reportedTable.transaction.system.Reachable cfg ∧
    ¬ LookupState.OneEntry cfg.state := by
  have h : (reportedTable.transaction.replay (fun _ _ => true)
      (exampleVersion 0 1 ++ [.env .unavailable] ++ exampleVersion 1 11) exampleTransaction).map
        (fun cfg : reportedTable.transaction.Config => LookupState.columns cfg.state) =
      some [["b"], ["a"]] := by
    decide +kernel
  obtain ⟨cfg, hcfg, hst⟩ := Option.map_eq_some_iff.1 h
  refine ⟨cfg, ⟨_, exampleTransaction_init, Pool.run_of_replay (fun _ _ _ => trivial) hcfg⟩, ?_⟩
  intro hone
  exact absurd (hone.columns_eq hst) (by decide)

/-- The guard, to be evaluated: the latch lets nobody through, and the log holds a schema. -/
def decidesAlikeCheck (cfg : reportedTable.transaction.Config)
    (_ : reportedTable.transaction.Label) :
    Bool :=
  let s : LookupState := cfg.state
  !s.gate.allows s.now && s.schema && s.decided != some .report

theorem decidesAlikeCheck_meets (cfg : reportedTable.transaction.Config)
    (l : reportedTable.transaction.Label) (h : decidesAlikeCheck cfg l = true) :
    reportedTable.decidesAlike.Meets cfg l := by
  have hs : ((LookupState.gate cfg.state).allows (LookupState.now cfg.state) = false ∧
      LookupState.schema cfg.state = true) ∧ LookupState.decided cfg.state ≠ some .report := by
    simpa [decidesAlikeCheck] using h
  cases l with
  | op c ch =>
    intro op k _
    cases op with
    | scanPlanGate f => exact fun hallows => nomatch hs.1.1.symm.trans hallows
    | lookupEntry db at_clause =>
      exact fun table _ => ⟨fun _ => hs.2, fun hschema => nomatch hs.1.2.symm.trans hschema⟩
    | _ => trivial
  | _ => trivial

/-- Where planning is off throughout, two lookups return what the log holds. -/
theorem transaction_sees_one_schema : ∃ cfg : reportedTable.transaction.Config,
    LookupState.columns cfg.state = [["b"], ["b"]] ∧ LookupState.OneEntry cfg.state := by
  have h : (reportedTable.transaction.replay decidesAlikeCheck
      (exampleVersion 0 11 ++ exampleVersion 1 2)
      ⟨({ gate := ⟨.unavailable, 0⟩, schema := true } : LookupState), fun _ => none⟩).map
        (fun cfg : reportedTable.transaction.Config => LookupState.columns cfg.state) =
      some [["b"], ["b"]] := by
    decide +kernel
  obtain ⟨cfg, hcfg, hst⟩ := Option.map_eq_some_iff.1 h
  exact ⟨cfg, hst, TableInformation.oneEntry_of_decidesAlike reportedTable
    ⟨_, ⟨⟨rfl, rfl, rfl⟩, rfl⟩, Pool.run_of_replay decidesAlikeCheck_meets hcfg⟩⟩

end UnityCatalog
