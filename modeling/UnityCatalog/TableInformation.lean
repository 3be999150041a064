import UnityCatalog.Api
import Mathlib.Data.List.Sort

/-!
# `TableInformation`

The part of `uc_table_set.cpp` that attaches one table's Delta database: `InternalAttach` with the
backfill it does on the way, `InternalDetach`, and, from `uc_delta_ccv2_commit.cpp`, the commit that
goes out through the table. What is fixed about a table is a field of `TableInformation`; what its
threads change (`is_dirty`, the attached database, `commit_state`) is read and written by
operations.
-/

namespace UnityCatalog

open Effectful Yyjson

/-! ## The table -/

/-- What is fixed about a `TableInformation`: the attached catalog it belongs to and the table. -/
structure TableInformation where
  /-- `catalog.GetName()`, the name it is attached under -/
  catalog_name : String
  /-- `access_mode == AccessMode::READ_ONLY` -/
  read_only : Bool
  credentials : UCCredentials
  /-- `schema.name` -/
  schema_name : String
  table_data : UCAPITable
  /-- what UC reports of the table -/
  reported : Option UCTableEntry := none
  /-- columns of `reported` of a type that cannot be read, with the type's text -/
  unreadable_columns : List (String × String) := []

/-- A property's value, if it is set. -/
def UCAPITable.property (td : UCAPITable) (key : String) : Option String :=
  (td.properties.find? fun p => p.1 == key).map Prod.snd

/-- `HasDeltaFeature` -/
def TableInformation.hasDeltaFeature (t : TableInformation) (feature : String) : Bool :=
  t.table_data.property ("delta.feature." ++ feature) == some "supported"

/-- `IsCatalogManaged` -/
def TableInformation.isCatalogManaged (t : TableInformation) : Bool :=
  t.hasDeltaFeature "catalogOwned-preview" || t.hasDeltaFeature "catalogManaged"

/-- `AttachedCatalogName` -/
def TableInformation.attachedCatalogName (t : TableInformation) : String :=
  "__unity_catalog_internal_" ++ t.catalog_name ++ "_" ++ t.table_data.schema_name ++ "_" ++
    t.table_data.name

/-- `UCAPI::LoadTable` for this table. -/
def TableInformation.loadTable (t : TableInformation) : Run UCAPICommitsResult :=
  UCAPI.loadTable t.table_data.catalog_name t.table_data.schema_name t.table_data.name t.credentials

/-! ## Backfill -/

/-- Where UC's writers stage commits. -/
def TableInformation.stagedPath (t : TableInformation) (file_name : String) : String :=
  t.table_data.storage_location ++ "/_delta_log/_staged_commits/" ++ file_name

/-- `%020llu` -/
def pad20 (n : ℕ) : String :=
  String.ofList (List.replicate (20 - (toString n).length) '0' ++ (toString n).toList)

/-- Where a version is published. -/
def TableInformation.publishedPath (t : TableInformation) (version : ℕ) : String :=
  t.table_data.storage_location ++ "/_delta_log/" ++ pad20 version ++ ".json"

/-- `BUFFER_SIZE` -/
def bufferSize : ℕ := 8 * 1024 * 1024

/-- The copying loop; it ends at the first read of nothing. A file of `n` bytes is read from at most
`n + 1` times, so the loop is given that many rounds. -/
def copyLoop (src dst : String) : ℕ → Run Unit
  | 0 => return ()
  | rounds + 1 => do
    let buf ← readFile src bufferSize
    if buf = [] then return ()
    else
      writeFile dst buf
      copyLoop src dst rounds

/-- `CopyStagedCommitToDeltaLog`: false if `dst` exists already. -/
def copyStagedCommitToDeltaLog (src dst : String) : Run Bool := do
  let size ← openRead src
  let created ← openExclusive dst
  if created then
    copyLoop src dst (size + 1)
    closeFile dst
    return true
  else return false

/-- `commit.version <= backfilled_version`, where that is valid. -/
def backfilled (backfilled_version : Option ℕ) (version : ℕ) : Bool :=
  match backfilled_version with
  | some w => version ≤ w
  | none => false

theorem backfilled_eq_true {wm : Option ℕ} {version : ℕ} :
    backfilled wm version = true ↔ ∃ w, wm = some w ∧ version ≤ w := by
  cases wm <;> simp [backfilled]

/-- The `try` block of `BackfillCommits`: true where this session copied the file, false where it
was there already; to set the watermark is part of it. -/
def TableInformation.backfillOne (t : TableInformation) (commit : UCAPICommit) : Run Bool := do
  let copied ← copyStagedCommitToDeltaLog (t.stagedPath commit.file_name)
    (t.publishedPath commit.version)
  let _ ← Prog.ofExcept (optionalIdx commit.version)
  return copied

/-- A commit that was attempted, and what came of it. -/
abbrev Attempt : Type := UCAPICommit × Except Exception Bool

/-- The loop of `BackfillCommits`, with what it attempted: it stops at the first commit that cannot
be copied. -/
def TableInformation.backfillLoopTelling (t : TableInformation) :
    List UCAPICommit → Option ℕ → Run (Option ℕ × List Attempt)
  | [], backfilled_version => return (backfilled_version, [])
  | commit :: rest, backfilled_version =>
    if backfilled backfilled_version commit.version
      then t.backfillLoopTelling rest backfilled_version
    else do
      -- whether this session copied the file or found it there makes no difference
      let outcome ← (t.backfillOne commit).attempt
      match outcome with
      | .ok _ =>
        let x ← t.backfillLoopTelling rest (some commit.version)
        return (x.1, (commit, outcome) :: x.2)
      | .error _ => return (backfilled_version, [(commit, outcome)])

/-- The loop of `BackfillCommits`. -/
def TableInformation.backfillLoop (t : TableInformation) (commits : List UCAPICommit)
    (backfilled_version : Option ℕ) : Run (Option ℕ) := do
  let x ← t.backfillLoopTelling commits backfilled_version
  return x.1

/-- One round of it. -/
theorem TableInformation.backfillLoop_cons (t : TableInformation) (commit : UCAPICommit)
    (rest : List UCAPICommit) (wm : Option ℕ) :
    t.backfillLoop (commit :: rest) wm =
      if backfilled wm commit.version then t.backfillLoop rest wm
      else (((t.backfillOne commit).bind fun _ => Prog.ret (some commit.version)).tryCatch
        fun _ => Prog.ret none).bind fun copied =>
          match copied with
          | some version => t.backfillLoop rest (some version)
          | none => Prog.ret wm := by
  rw [backfillLoop, backfillLoopTelling]
  split
  · rfl
  · rw [Prog.bind_ret_tryCatch, Prog.bind_eq, Prog.bind_eq, Prog.bind_assoc, Prog.bind_assoc]
    refine congrArg _ (funext fun outcome => ?_)
    cases outcome with
    | ok copied => exact Prog.bind_assoc ..
    | error e => rfl

/-- The commits in ascending order. -/
def orderedCommits (commits : List UCAPICommit) : List UCAPICommit :=
  commits.insertionSort fun a b => a.version ≤ b.version

/-- `BackfillCommits` -/
def TableInformation.backfillCommits (t : TableInformation) (commits : List UCAPICommit)
    (backfilled_version : Option ℕ) : Run (Option ℕ) :=
  t.backfillLoop (orderedCommits commits) backfilled_version

/-- The operations of a backfill. -/
def Op.IsFile : Op → Prop
  | .openRead _ => True
  | .openExclusive _ => True
  | .readFile _ _ => True
  | .writeFile _ _ => True
  | .closeFile _ => True
  | _ => False

theorem uses_copyLoop (src dst : String) (rounds : ℕ) :
    (copyLoop src dst rounds).Uses Op.IsFile := by
  induction rounds with
  | zero => trivial
  | succ rounds ih =>
    refine (Prog.uses_perform trivial).bind fun buf => ?_
    split
    · trivial
    · exact (Prog.uses_perform trivial).bind fun _ => ih

theorem uses_copyStagedCommitToDeltaLog (src dst : String) :
    (copyStagedCommitToDeltaLog src dst).Uses Op.IsFile := by
  refine (Prog.uses_perform trivial).bind fun size => ?_
  refine (Prog.uses_perform trivial).bind fun created => ?_
  split
  · refine (uses_copyLoop src dst _).bind fun _ => ?_
    exact (Prog.uses_perform trivial).bind fun _ => trivial
  · trivial

/-- A backfill only touches files. -/
theorem TableInformation.uses_backfillLoop (t : TableInformation) (commits : List UCAPICommit)
    (wm : Option ℕ) : (t.backfillLoop commits wm).Uses Op.IsFile := by
  induction commits generalizing wm with
  | nil => trivial
  | cons commit rest ih =>
    rw [backfillLoop_cons]
    split
    · exact ih wm
    · refine Prog.Uses.bind (Prog.Uses.tryCatch (Prog.Uses.bind ?_ fun _ => trivial) fun _ =>
        trivial)
        fun copied => ?_
      · refine (uses_copyStagedCommitToDeltaLog _ _).bind fun _ => ?_
        cases optionalIdx commit.version <;> trivial
      · cases copied with
        | some version => exact ih (some version)
        | none => trivial

/-- A backfill never throws. -/
theorem TableInformation.exec_backfillLoop {W : World Client Exception} {c : W.Ctx}
    (t : TableInformation) (commits : List UCAPICommit) {wm : Option ℕ} {s s' : W.State}
    {r : Except Exception (Option ℕ)} (h : (t.backfillLoop commits wm).Exec c s r s') :
    ∃ wm', r = .ok wm' := by
  induction commits generalizing wm s with
  | nil => exact ⟨wm, h.1⟩
  | cons commit rest ih =>
    rw [backfillLoop_cons] at h
    split at h
    · exact ih h
    · rcases Prog.exec_bind.1 h with ⟨copied, s₁, -, h⟩ | ⟨e, h, -⟩
      · cases copied with
        | some version => exact ih h
        | none => exact ⟨wm, h.1⟩
      · rcases Prog.exec_tryCatch.1 h with ⟨a, -, h⟩ | ⟨e', s₁, -, h⟩
        · cases h
        · cases h.1

/-! ## Attaching and detaching -/

/-- One commit in the log tail. -/
def logTailCommit (storage_location : String) (commit : UCAPICommit) : Value :=
  .struct [("version", .bigint (int64 commit.version)), ("timestamp", .bigint commit.timestamp),
    ("file_name",
      .varchar (storage_location ++ "/_delta_log/_staged_commits/" ++ commit.file_name)),
    ("file_size", .bigint commit.file_size),
    ("file_modification_timestamp", .bigint commit.file_modification_timestamp)]

/-- `BuildLogTailFromCommits` -/
def buildLogTailFromCommits (commits : UCAPICommitsResult) (storage_location : String) : Value :=
  .list (commits.commits.map (logTailCommit storage_location))

/-- What Delta is told of a catalog-managed table. -/
def TableInformation.managedOptions (t : TableInformation) (commits : UCAPICommitsResult) :
    List (String × Value) :=
  [("parent_catalog", .varchar t.catalog_name), ("parent_catalog_schema", .varchar t.schema_name),
    ("parent_commit", .boolean true),
    ("max_catalog_version", .bigint (int64 commits.ratified_version))] ++
  if commits.commits = [] then []
  else [("log_tail", buildLogTailFromCommits commits t.table_data.storage_location)]

/-- The `AttachInfo` of `InternalAttach`; `managed` is what `LoadTable` returned. -/
def TableInformation.attachInfo (t : TableInformation) (managed : Option UCAPICommitsResult) :
    AttachInfo where
  name := t.attachedCatalogName
  path := t.table_data.storage_location
  options :=
    [("type", .varchar "Delta"), ("child_catalog_mode", .boolean true),
      ("internal_table_name", .varchar t.table_data.name),
      ("unity_table_id", .varchar t.table_data.table_id)] ++
    match managed with
    | some commits => t.managedOptions commits
    | none => []

/-- `InternalDetach` -/
def TableInformation.internalDetach (t : TableInformation) : Run Unit := do
  let db ← attached
  if db.isSome then
    detachDatabase t.attachedCatalogName
    setAttached none

/-- `MarkDirty` -/
def markDirty : Run Unit := setDirty true

/-- Whether the calling transaction has read the attached database. -/
def readByThisTransaction : Run Bool := do
  let db ← attached
  match db with
  | some db => tryGetTransaction db
  | none => return false

/-- The new watermark: backfill is a writer's duty, which a read-only attach skips. -/
def TableInformation.newWatermark (t : TableInformation) (commits : List UCAPICommit)
    (start_wm : Option ℕ) : Run (Option ℕ) :=
  if t.read_only then return start_wm else t.backfillCommits commits start_wm

/-- The catalog-managed half of `InternalAttach`: load the table, backfill unless read-only, and
publish the etag with the watermark. -/
def TableInformation.loadCommits (t : TableInformation) : Run UCAPICommitsResult := do
  let commits ← t.loadTable
  let state ← readCommitState
  let new_wm ← t.newWatermark commits.commits state.backfilled_version
  updateCommitState fun s => { s with etag := commits.etag, backfilled_version := new_wm }
  return commits

/-- What `InternalAttach` asks the catalog before it attaches: nothing, for a table it does not
manage. -/
def TableInformation.loadManaged (t : TableInformation) : Run (Option UCAPICommitsResult) :=
  if t.isCatalogManaged then do
    let commits ← t.loadCommits
    return some commits
  else return none

/-- `InternalAttach` from where nothing is attached. -/
def TableInformation.attachFresh (t : TableInformation) : Run Unit := do
  let managed ← t.loadManaged
  let db ← attachDatabase (t.attachInfo managed)
  setAttached (some db)

/-- `InternalAttach` -/
def TableInformation.internalAttach (t : TableInformation) : Run Unit :=
  withAttachLock do
    let read_by_this_transaction ← readByThisTransaction
    let is_dirty ← isDirty
    if is_dirty && !read_by_this_transaction then
      t.internalDetach
      setDirty false
    let db ← attached
    if db.isSome then return ()
    else t.attachFresh

/-! ## Committing -/

/-- What Delta hands `__internal_delta_ccv2_commit_staged`. -/
structure StagedCommit where
  commit_file_path : String
  commit_file_size : ℕ
  commit_timestamp : ℕ
  version : ℕ
  file_modification_timestamp : ℕ
  deriving DecidableEq

/-- `substr(find_last_of("/\\") + 1)` -/
def baseName (path : String) : String :=
  String.ofList (path.toList.reverse.takeWhile fun c => c ≠ '/' ∧ c ≠ '\\').reverse

/-- The add-commit request made of a staged commit and a snapshot of `commit_state`. -/
def TableInformation.addCommit (t : TableInformation) (res : StagedCommit) (cs : UCCommitState) :
    AddCommit where
  table_id := t.table_data.table_id
  etag := cs.etag
  version := res.version
  timestamp := res.commit_timestamp
  file_name := baseName res.commit_file_path
  file_size := res.commit_file_size
  file_modification_timestamp := res.file_modification_timestamp
  backfill_version := cs.backfilled_version

/-- `UCDeltaCCV2CommitExecute` -/
def TableInformation.commitExecute (t : TableInformation) (res : StagedCommit) : Run Unit := do
  let cs ← readCommitState
  let new_etag ← UCAPI.updateTable t.table_data.catalog_name t.table_data.schema_name
    t.table_data.name t.credentials (t.addCommit res cs)
  withAttachLock markDirty
  updateCommitState fun s => { s with etag := new_etag }

/-- A catalog-managed table, for the runs on fixed inputs. -/
def exampleTable : TableInformation where
  catalog_name := "uc"
  read_only := false
  credentials := { endpoint := "http://uc", token := "" }
  schema_name := "s"
  table_data :=
    { table_id := "id", name := "t", catalog_name := "c", schema_name := "s"
      storage_location := "/t"
      properties := [("delta.feature.catalogManaged", "supported")] }

theorem exampleTable_isCatalogManaged : exampleTable.isCatalogManaged = true := by decide

end UnityCatalog
