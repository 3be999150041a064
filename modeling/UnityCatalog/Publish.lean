import UnityCatalog.Session
import UnityCatalog.Threads

/-!
# Publishing staged commits

The sessions of one catalog-managed table, which all call `InternalAttach` and on the way copy
ratified commits from `_delta_log/_staged_commits` to `_delta_log`. They share the files and the
catalog and interleave operation by operation, chunk by chunk: a copy may fail at every point, and
leaves behind what it has written.

The watermark a session keeps, `backfilled_version`, says that everything up to it is published, and
goes to Unity Catalog with the session's next commit. It is true as long as whoever finds a file
already there finds all of it.
-/

namespace UnityCatalog

open Effectful

/-! ## Paths -/

/-- Where a version is published, at a location. -/
def logFile (location : String) (version : ℕ) : String :=
  location ++ "/_delta_log/" ++ pad20 version ++ ".json"

/-- Where a commit is staged, at a location. -/
def stagedFile (location file_name : String) : String :=
  location ++ "/_delta_log/_staged_commits/" ++ file_name

/-- The number is read off its padded digits: the zeros in front count for nothing. -/
theorem ofDigitChars_pad20 (n : ℕ) : Nat.ofDigitChars 10 (pad20 n).toList 0 = n := by
  rw [pad20, String.toList_ofList, Nat.ofDigitChars_append, Nat.ofDigitChars_replicate_zero,
    Nat.mul_zero]
  simp

/-- Two versions have two names, also when they have more than twenty digits. -/
theorem pad20_injective : Function.Injective pad20 := by
  intro m n h
  rw [← ofDigitChars_pad20 m, h, ofDigitChars_pad20]

/-- Two log files of one table are the same file only if they have the same version. -/
theorem logFile_inj {location : String} {m n : ℕ} :
    logFile location m = logFile location n ↔ m = n := by
  refine ⟨fun h => ?_, fun h => h ▸ rfl⟩
  simp only [logFile, String.ext_iff, String.toList_append, List.append_cancel_right_eq,
    List.append_cancel_left_eq, List.append_assoc] at h
  exact pad20_injective (String.ext h)

/-- A log file's name is digits up to its dot, which a staged file's directory is not. -/
theorem underscore_notMem_pad20 (n : ℕ) : '_' ∉ (pad20 n).toList := by
  simp [pad20, Nat.underscore_not_in_toDigits]

/-- A version has at least one digit. -/
theorem pad20_ne_nil (n : ℕ) : (pad20 n).toList ≠ [] := by
  simp [pad20, Nat.toDigits_ne_nil]

/-- A published file is named by digits, a staged one is in a directory. -/
theorem logFile_ne_stagedFile (location : String) (version : ℕ) (file_name : String) :
    logFile location version ≠ stagedFile location file_name := by
  intro h
  have hstaged : "/_delta_log/_staged_commits/" = "/_delta_log/" ++ "_staged_commits/" := by decide
  rw [stagedFile, hstaged, logFile] at h
  simp only [String.ext_iff, String.toList_append, List.append_assoc,
    List.append_cancel_left_eq] at h
  rcases hd : (pad20 version).toList with _ | ⟨d, ds⟩
  · exact pad20_ne_nil version hd
  · rw [hd] at h
    have hhead : d = '_' := (List.cons.inj h).1
    exact underscore_notMem_pad20 version (by rw [hd, hhead]; exact List.mem_cons_self)

/-! ## The sessions -/

/-- One table as its sessions see it: each has its own `TableInformation`, all of one location. -/
structure SharedTable where
  session : ℕ → ManagedTable
  location : String
  at_location : ∀ c, (session c).table_data.storage_location = location

/-- A version and the file it is staged as. -/
abbrev Staged := ℕ × String

/-- What `LoadTable` says of a commit. -/
def UCAPICommit.staged (c : UCAPICommit) : Staged := (c.version, c.file_name)

/-- The table's files, the catalog, and what each session holds. -/
structure LogState where
  files : String → Option Bytes := fun _ => none
  /-- the ratified commits -/
  ratified : List Staged := []
  /-- the latest version UC was told is published -/
  published : Option ℕ := none
  commit_state : ℕ → UCCommitState := fun _ => {}
  /-- the list UC made for a session's `LoadTable` -/
  listed : ℕ → Option (List Staged) := fun _ => none
  /-- the commits a session has taken from such lists -/
  taken : ℕ → List Staged := fun _ => []
  /-- what is left of the file a session reads -/
  reading : ℕ → Bytes := fun _ => []
  /-- the file a session has created -/
  writing : ℕ → Option String := fun _ => none

/-- What UC lists: the ratified commits it does not know to be published. -/
def LogState.unpublished (s : LogState) : List Staged :=
  s.ratified.filter fun x => !backfilled s.published x.1

/-- What the surroundings may do with an operation. -/
inductive LogChoice where
  | proceed
  | respond (resp : HttpResponse)
  | fail (e : Exception)
  | flag (b : Bool)
  | database (db : Option AttachedDatabase)
  /-- a read of at most `n` bytes -/
  | bytes (n : ℕ)
  /-- a write that fails after `n` bytes -/
  | torn (n : ℕ) (e : Exception)

/-- What else happens to the table. -/
inductive LogEnv where
  /-- a writer stages a commit -/
  | stage (file_name : String) (bytes : Bytes)
  /-- UC ratifies one -/
  | ratify (version : ℕ) (file_name : String)
  /-- UC makes the list for a session's `LoadTable` -/
  | load (session : ℕ)
  /-- a commit of a session tells UC how far it has published -/
  | publish (session version : ℕ)

namespace SharedTable

variable (T : SharedTable)

/-- The answer to `LoadTable` lists what UC made the list of. -/
def listReply (s : LogState) (session : ℕ) :
    LogChoice → Option (Except Exception HttpResponse × LogState)
  | .respond resp =>
    match (T.session session).loadOutcome resp, s.listed session with
    | .ok result, some l =>
      if (∀ x ∈ result.commits, x.staged ∈ l) ∧ ∀ x ∈ l, x ∈ result.commits.map UCAPICommit.staged
      then
        some (.ok resp, { s with
          taken := Function.update s.taken session (l ++ s.taken session) })
      else none
    | .ok _, none => none
    | .error _, _ => some (.ok resp, s)
  | .fail e => some (.error e, s)
  | _ => none

/-- The operations of `InternalAttach`. What a session has attached, whether it is dirty and what
its transactions have read depends on its other calls, and may be anything here. -/
def logAnswer (session : ℕ) (s : LogState) : (op : Op) → LogChoice →
    Option (Except Exception op.Ans × LogState)
  | .ensureHttpfs, .proceed => some (.ok (), s)
  | .ensureHttpfs, .fail e => some (.error e, s)
  | .issue _, .proceed => some (.ok (), { s with
      listed := Function.update s.listed session none })
  | .answer, ch => T.listReply s session ch
  | .lockAttach, .proceed => some (.ok (), s)
  | .unlockAttach, .proceed => some (.ok (), s)
  | .isDirty, .flag b => some (.ok b, s)
  | .setDirty _, .proceed => some (.ok (), s)
  | .attached, .database db => some (.ok db, s)
  | .setAttached _, .proceed => some (.ok (), s)
  | .readCommitState, .proceed => some (.ok (s.commit_state session), s)
  | .updateCommitState f, .proceed => some (.ok (), { s with
      commit_state := Function.update s.commit_state session (f (s.commit_state session)) })
  | .tryGetTransaction _, .flag b => some (.ok b, s)
  | .attachDatabase _, .database (some db) => some (.ok db, s)
  | .attachDatabase _, .fail e => some (.error e, s)
  | .detachDatabase _, .proceed => some (.ok (), s)
  | .detachDatabase _, .fail e => some (.error e, s)
  | .openRead path, .proceed => (s.files path).map fun bytes =>
      (.ok bytes.length, { s with reading := Function.update s.reading session bytes })
  | .openRead _, .fail e => some (.error e, s)
  | .openExclusive path, .proceed =>
    match s.files path with
    | some _ => some (.ok false, s)
    | none => some (.ok true, { s with
        files := Function.update s.files path (some [])
        writing := Function.update s.writing session (some path) })
  | .openExclusive _, .fail e => some (.error e, s)
  | .readFile _ n, .bytes k =>
    if 0 < k ∧ k ≤ n then
      some (.ok ((s.reading session).take k), { s with
        reading := Function.update s.reading session ((s.reading session).drop k) })
    else none
  | .readFile _ _, .fail e => some (.error e, s)
  | .writeFile path bytes, .proceed => (s.files path).map fun written =>
      (.ok (), { s with files := Function.update s.files path (some (written ++ bytes)) })
  | .writeFile path bytes, .torn n e => (s.files path).map fun written =>
      (.error e, { s with
        files := Function.update s.files path (some (written ++ bytes.take n)) })
  | .closeFile _, .proceed => some (.ok (), s)
  | .closeFile _, .fail e => some (.error e, s)
  | _, _ => none

/-- The sessions attaching; one call of `InternalAttach` at a time in each, by `attach_lock`. -/
def attaches : Pool Client Exception Unit where
  Ctx := ℕ
  State := LogState
  Choice := LogChoice
  answer session s op ch := T.logAnswer session s op ch
  Call := Unit
  start s session _ := some ((T.session session).internalAttach, s)
  finish s _ _ := s
  Env := LogEnv
  env s
    | .stage file_name bytes =>
      match s.files (stagedFile T.location file_name) with
      | none => some { s with
          files := Function.update s.files (stagedFile T.location file_name) (some bytes) }
      | some _ => none
    | .ratify version file_name =>
      if (s.files (stagedFile T.location file_name)).isSome ∧ ∀ x ∈ s.ratified, x.1 < version then
        some { s with ratified := (version, file_name) :: s.ratified }
      else none
    | .load session => some { s with
        listed := Function.update s.listed session (some s.unpublished) }
    | .publish session version =>
      match (s.commit_state session).backfilled_version with
      | some w => if version ≤ w then some { s with published := some version } else none
      | none => none
  init s := s = {}

instance : DecidableEq T.attaches.Ctx := inferInstanceAs (DecidableEq ℕ)

/-- A ratified commit is published with exactly the bytes it was staged with. -/
def Whole (s : LogState) (x : Staged) : Prop :=
  ∃ bytes, s.files (stagedFile T.location x.2) = some bytes ∧
    s.files (logFile T.location x.1) = some bytes

/-- What a session has taken from a list and counts as published is published whole. -/
def PublishesWhole (s : LogState) : Prop :=
  ∀ session, ∀ x ∈ s.taken session, ∀ w,
    (s.commit_state session).backfilled_version = some w → x.1 ≤ w → T.Whole s x

/-- The runs in which an exclusive create that finds the file of a ratified commit already there
finds it whole. -/
def findsWhole : Guard T.attaches where
  op s _ op ch := ch = .proceed → ∀ path, op = .openExclusive path → s.files path ≠ none →
    ∀ x ∈ s.ratified, logFile T.location x.1 = path → T.Whole s x
  env _ _ := True

/-! ## The invariant -/

/-- Everything up to the watermark is published whole, and later commits come after it. -/
def Covered (s : LogState) (watermark : Option ℕ) : Prop :=
  ∀ w, watermark = some w → (∃ x ∈ s.ratified, w ≤ x.1) ∧ ∀ x ∈ s.ratified, x.1 ≤ w → T.Whole s x

/-- A list of ratified commits leaves out only what is published whole, or came later. -/
structure Listing (s : LogState) (l : List Staged) : Prop where
  ratified : ∀ x ∈ l, x ∈ s.ratified
  complete : ∀ x ∈ s.ratified, x ∈ l ∨ T.Whole s x ∨ ∀ y ∈ l, y.1 < x.1

/-- The invariant of the shared state. -/
structure LogInv (s : LogState) : Prop where
  distinct : ∀ x ∈ s.ratified, ∀ y ∈ s.ratified, x.1 = y.1 → x = y
  staged : ∀ x ∈ s.ratified, s.files (stagedFile T.location x.2) ≠ none
  published : T.Covered s s.published
  covered : ∀ c, T.Covered s (s.commit_state c).backfilled_version
  listed : ∀ c l, s.listed c = some l → T.Listing s l
  taken : ∀ c, ∀ x ∈ s.taken c, x ∈ s.ratified
  /-- a file is written by the one session that created it -/
  owner : ∀ c p, s.writing c = some p → s.files p ≠ none ∧
    (∀ file_name, p ≠ stagedFile T.location file_name) ∧ ∀ d, s.writing d = some p → d = c

/-- What only grows. -/
structure Grows (s s' : LogState) : Prop where
  ratified : ∀ x ∈ s.ratified, x ∈ s'.ratified
  later : ∀ x ∈ s'.ratified, x ∈ s.ratified ∨ ∀ y ∈ s.ratified, y.1 < x.1
  staged : ∀ file_name bytes, s.files (stagedFile T.location file_name) = some bytes →
    s'.files (stagedFile T.location file_name) = some bytes
  whole : ∀ x ∈ s.ratified, T.Whole s x → T.Whole s' x

/-- What a session relies on: the others leave its own part alone, and its file. -/
structure LogRely (c : ℕ) (s s' : LogState) : Prop extends T.Grows s s' where
  commit_state : s'.commit_state c = s.commit_state c
  reading : s'.reading c = s.reading c
  writing : s'.writing c = s.writing c
  written : ∀ p, s.writing c = some p → s'.files p = s.files p

variable {T} {c : ℕ} {s s' s'' : LogState}

/-- The invariant has what is to be shown in it: what is published is covered, and what is covered
is whole. -/
theorem LogInv.publishesWhole (hs : T.LogInv s) : T.PublishesWhole s :=
  fun c x hx w hw hle => ((hs.covered c) w hw).2 x (hs.taken c x hx) hle

/-- A log grows by nothing. -/
theorem Grows.refl (s : LogState) : T.Grows s s :=
  ⟨fun _ h => h, fun _ h => .inl h, fun _ _ h => h, fun _ _ h => h⟩

/-- The same files and the same ratified commits. -/
theorem Grows.of_eq (hf : s'.files = s.files) (hr : s'.ratified = s.ratified) : T.Grows s s' where
  ratified x hx := by rwa [hr]
  later x hx := .inl (by rwa [hr] at hx)
  staged f b hb := by rwa [hf]
  whole x hx hw := by rwa [Whole, hf]

/-- A log that grows and grows again has grown, so that a session may rely on it over any number of
the others' steps. -/
theorem Grows.trans (h : T.Grows s s') (h' : T.Grows s' s'') : T.Grows s s'' where
  ratified x hx := h'.ratified x (h.ratified x hx)
  later x hx := by
    rcases h'.later x hx with hx' | hx'
    · exact h.later x hx'
    · exact .inr fun y hy => hx' y (h.ratified y hy)
  staged f b hb := h'.staged f b (h.staged f b hb)
  whole x hx hw := h'.whole x (h.ratified x hx) (h.whole x hx hw)

/-- What a session relies on holds where nothing happened. -/
theorem LogRely.refl (c : ℕ) (s : LogState) : T.LogRely c s s :=
  ⟨.refl s, rfl, rfl, rfl, fun _ _ => rfl⟩

/-- What a session relies on holds over any number of the others' steps if it does over each. -/
theorem LogRely.trans (h : T.LogRely c s s') (h' : T.LogRely c s' s'') : T.LogRely c s s'' where
  toGrows := h.toGrows.trans h'.toGrows
  commit_state := h'.commit_state.trans h.commit_state
  reading := h'.reading.trans h.reading
  writing := h'.writing.trans h.writing
  written p hp := (h'.written p (h.writing.trans hp)).trans (h.written p hp)

/-- A watermark stays true: what is ratified later comes after it. -/
theorem Grows.covered (h : T.Grows s s') {wm : Option ℕ} (hc : T.Covered s wm) :
    T.Covered s' wm := by
  intro w hw
  obtain ⟨⟨y, hy, hwy⟩, hall⟩ := hc w hw
  refine ⟨⟨y, h.ratified y hy, hwy⟩, fun x hx hle => ?_⟩
  rcases h.later x hx with hx | hx
  · exact h.whole x hx (hall x hx hle)
  · have := hx y hy
    omega

/-- A list that was true of a log is true of one that has grown: a commit that has gone from it
since is covered. -/
theorem Grows.listing (h : T.Grows s s') {l : List Staged} (hl : T.Listing s l) :
    T.Listing s' l where
  ratified x hx := h.ratified x (hl.ratified x hx)
  complete x hx := by
    rcases h.later x hx with hx | hx
    · exact (hl.complete x hx).imp_right fun h' => h'.imp_left (h.whole x hx)
    · exact .inr (.inr fun y hy => hx y (hl.ratified y hy))

end SharedTable

end UnityCatalog
