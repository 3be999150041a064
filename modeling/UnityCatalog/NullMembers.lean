import UnityCatalog.PositionDeletes

/-!
# Members that are null

`TemplatedTryGetYYJson` takes a member that is null for one that is absent. `ParseDataFile` and
`ParseDeleteFile` read some of their members another way: present if the pointer is, and then by
`yyjson_get_sint`, which makes 0 of a null. `nullMembers_unchanged_iff` says for which members this
is seen; of a delete file, it is what tells a deletion vector from rows of positions.
-/

namespace UnityCatalog

open Effectful Yyjson

/-! ## The counts of a data file -/

/-- `ParseCountMap`: the map it fills. -/
def parseCountMap (map_val : Option Val) : ℕ → Option ℤ :=
  let key_vec := (items (objGet map_val "keys")).map fun k => uint32 (getUint (some k))
  (key_vec.zip (items (objGet map_val "values"))).foldl
    (fun out kv => Function.update out kv.1 (some (getSint (some kv.2)))) fun _ => none

/-- The counts of `UCScanPlanDataFile`. -/
structure UCScanPlanCounts where
  column_sizes : ℕ → Option ℤ
  value_counts : ℕ → Option ℤ
  null_value_counts : ℕ → Option ℤ
  nan_value_counts : ℕ → Option ℤ

/-- The rest of `ParseDataFile`, which nothing fails in. -/
def parseCounts (df_val : Option Val) : UCScanPlanCounts :=
  ⟨parseCountMap (objGet df_val "column-sizes"), parseCountMap (objGet df_val "value-counts"),
    parseCountMap (objGet df_val "null-value-counts"),
    parseCountMap (objGet df_val "nan-value-counts")⟩

/-! ## Objects that differ by nulls -/

/-- A member is null in one object and absent from the other. -/
def Blank (v w : Option Val) : Prop := v = some .null ∧ w = none ∨ v = none ∧ w = some .null

/-- Two objects have the same members, save that so many are null in one and absent from the
other. -/
structure DiffersByNulls (toggled : Set String) (v w : Option Val) : Prop where
  blank : ∀ k ∈ toggled, Blank (objGet v k) (objGet w k)
  same : ∀ k ∉ toggled, objGet v k = objGet w k

section

variable {k : String} {ms : List (String × Val)}

/-- A null member removed. -/
theorem differsByNulls_filter (h : objGet (some (.obj ms)) k = some .null) :
    DiffersByNulls {k} (some (.obj ms)) (some (.obj (ms.filter fun m => m.1 != k))) := by
  constructor
  · intro k' hk'
    obtain rfl : k' = k := hk'
    exact .inl ⟨h, by simp [objGet]⟩
  · intro k' hk'
    have hne : k' ≠ k := hk'
    simp only [objGet, List.find?_filter]
    congr 2
    funext m
    by_cases hm : m.1 = k'
    · simp [hm, hne]
    · simp [hm]

/-- An absent member added as null. -/
theorem differsByNulls_append (h : objGet (some (.obj ms)) k = none) :
    DiffersByNulls {k} (some (.obj ms)) (some (.obj (ms ++ [(k, .null)]))) := by
  have hnone : ms.find? (fun m => m.1 == k) = none := by
    simpa [objGet] using h
  constructor
  · intro k' hk'
    obtain rfl : k' = k := hk'
    exact .inr ⟨h, by simp [objGet, List.find?_append, hnone]⟩
  · intro k' hk'
    have hne : k ≠ k' := Ne.symm hk'
    simp [objGet, List.find?_append, hne]

end

section

variable {toggled : Set String} {v w : Option Val} (h : DiffersByNulls toggled v w)
include h

/-- A member is the same, or missing from both. -/
theorem DiffersByNulls.same_or_missing (k : String) :
    objGet v k = objGet w k ∨
      ((objGet v k).isSome && !isNull (objGet v k)) = false ∧
      ((objGet w k).isSome && !isNull (objGet w k)) = false := by
  by_cases hk : k ∈ toggled
  · right
    obtain ⟨hv, hw⟩ | ⟨hv, hw⟩ := h.blank k hk <;> simp [hv, hw, isNull]
  · exact .inl (h.same k hk)

/-- What `TemplatedTryGetYYJson` makes of them is the same. -/
theorem templatedTryGetYYJson_congr {α : Type} (is_type : Option Val → Bool) (get : Option Val → α)
    (field : String) (default_val : α) (fail_on_missing : Bool) :
    templatedTryGetYYJson is_type get v field default_val fail_on_missing =
      templatedTryGetYYJson is_type get w field default_val fail_on_missing := by
  simp only [templatedTryGetYYJson]
  obtain hsame | ⟨hv, hw⟩ := h.same_or_missing field
  · rw [hsame]
  · simp only [hv, hw, Bool.false_eq_true, if_false]

theorem tryGetStr_congr (field : String) (fail_on_missing : Bool) :
    tryGetStrFromObject v field fail_on_missing = tryGetStrFromObject w field fail_on_missing :=
  templatedTryGetYYJson_congr h _ _ _ _ _

theorem tryGetNum_congr (field : String) (fail_on_missing : Bool) :
    tryGetNumFromObject v field fail_on_missing = tryGetNumFromObject w field fail_on_missing :=
  templatedTryGetYYJson_congr h _ _ _ _ _

/-- An array that is null has no more items than one that is absent. -/
theorem items_congr (k : String) : items (objGet v k) = items (objGet w k) := by
  by_cases hk : k ∈ toggled
  · obtain ⟨hv, hw⟩ | ⟨hv, hw⟩ := h.blank k hk <;> rw [hv, hw] <;> rfl
  · rw [h.same k hk]

/-- Nor has a map of counts. -/
theorem parseCountMap_congr (k : String) : parseCountMap (objGet v k) =
    parseCountMap (objGet w k) := by
  by_cases hk : k ∈ toggled
  · obtain ⟨hv, hw⟩ | ⟨hv, hw⟩ := h.blank k hk <;> rw [hv, hw] <;> rfl
  · rw [h.same k hk]

theorem parseCounts_congr : parseCounts v = parseCounts w := by
  simp only [parseCounts, parseCountMap_congr h]

end

/-! ## The other way to read a member -/

/-- A member read by its pointer: 0 where it is null, -1 where it is absent. -/
def sintOrMinusOne (v : Option Val) : ℤ := if v.isSome then getSint v else -1

/-- A null is seen. -/
theorem sintOrMinusOne_eq_iff {toggled : Set String} {v w : Option Val}
    (h : DiffersByNulls toggled v w) (k : String) :
    sintOrMinusOne (objGet w k) = sintOrMinusOne (objGet v k) ↔ k ∉ toggled := by
  by_cases hk : k ∈ toggled
  · refine iff_of_false (fun heq => ?_) (not_not.2 hk)
    obtain ⟨hv, hw⟩ | ⟨hv, hw⟩ := h.blank k hk <;> rw [hv, hw] at heq <;> revert heq <;> decide
  · rw [h.same k hk]
    exact iff_of_true rfl hk

/-- `ParseDataFile`, by the members it reads in either way. -/
theorem parseDataFile_eq (v : Option Val) : parseDataFile v = do
    let content ← tryGetStrFromObject v "content" false
    let file_path ← tryGetStrFromObject v "file-path"
    let file_format ← tryGetStrFromObject v "file-format" false
    let spec_id ← tryGetNumFromObject v "spec-id" false
    let file_size_in_bytes ← tryGetNumFromObject v "file-size-in-bytes" false
    let record_count ← tryGetNumFromObject v "record-count" false
    return ⟨content, file_path, file_format, int64 spec_id, int64 file_size_in_bytes,
      int64 record_count, sintOrMinusOne (objGet v "first-row-id")⟩ := rfl

/-- The content discriminator of a delete file. -/
def deleteFileType (file_path content : String) : Except Exception UCScanDeleteFileType :=
  if content = "position-deletes" then .ok .positionDeletes
  else if content = "equality-deletes" then .ok .equalityDeletes
  else .error (ioException ("scan-plan: delete file '" ++ file_path ++
    "' has unknown content discriminator '" ++ content ++
    "' (expected 'position-deletes' or 'equality-deletes') — server response is malformed"))

/-- `ParseDeleteFile`, by the members it reads in either way. -/
theorem parseDeleteFile_eq (v : Option Val) : parseDeleteFile v = do
    let file_path ← tryGetStrFromObject v "file-path"
    let content ← tryGetStrFromObject v "content"
    let content ← deleteFileType file_path content
    let file_format ← tryGetStrFromObject v "file-format" false
    let file_size_in_bytes ← tryGetNumFromObject v "file-size-in-bytes" false
    let record_count ← tryGetNumFromObject v "record-count" false
    return ⟨content, file_path, file_format, int64 file_size_in_bytes, int64 record_count,
      (items (objGet v "equality-ids")).map fun id => uint32 (getUint (some id)),
      sintOrMinusOne (objGet v "content-offset"),
      sintOrMinusOne (objGet v "content-size-in-bytes")⟩ := by
  rw [parseDeleteFile]
  refine bind_congr fun path => bind_congr fun content => ?_
  rw [deleteFileType]
  split_ifs <;> rfl

section

variable {toggled : Set String} {v w : Option Val} (h : DiffersByNulls toggled v w)
include h

/-- The other object is accepted, and decoded to the same but for one field. -/
theorem parseDataFile_of_differs {df : UCScanPlanDataFile} (hv : parseDataFile v = .ok df) :
    df.first_row_id = sintOrMinusOne (objGet v "first-row-id") ∧
      parseDataFile w =
        .ok { df with first_row_id := sintOrMinusOne (objGet w "first-row-id") } := by
  rw [parseDataFile_eq] at hv ⊢
  simp only [tryGetStr_congr h, tryGetNum_congr h, except_bind_eq_ok] at hv ⊢
  obtain ⟨content, hcontent, path, hpath, format, hformat, spec, hspec, size, hsize, count, hcount,
    hdf⟩ := hv
  obtain rfl := Except.ok.inj hdf
  refine ⟨rfl, content, hcontent, path, hpath, format, hformat, spec, hspec, size, hsize, count,
    hcount, ?_⟩
  dsimp only
  rfl

/-- Likewise a delete file, but for two. -/
theorem parseDeleteFile_of_differs {d : UCScanDeleteFile} (hv : parseDeleteFile v = .ok d) :
    d.content_offset = sintOrMinusOne (objGet v "content-offset") ∧
      d.content_size_in_bytes = sintOrMinusOne (objGet v "content-size-in-bytes") ∧
      parseDeleteFile w = .ok { d with
        content_offset := sintOrMinusOne (objGet w "content-offset")
        content_size_in_bytes := sintOrMinusOne (objGet w "content-size-in-bytes") } := by
  rw [parseDeleteFile_eq] at hv ⊢
  simp only [tryGetStr_congr h, tryGetNum_congr h, items_congr h, except_bind_eq_ok] at hv ⊢
  obtain ⟨path, hpath, text, htext, content, hcontent, format, hformat, size, hsize, count, hcount,
    hd⟩ := hv
  obtain rfl := Except.ok.inj hd
  refine ⟨rfl, rfl, path, hpath, text, htext, content, hcontent, format, hformat, size, hsize,
    count, hcount, ?_⟩
  dsimp only
  rfl

end

/-- **Exactly the members whose nulls are seen.** Of an object that is accepted, members that are
null may be absent and the other way round, and what it decodes to is the same, if and only if the
row id of a data file, the offset or the size of a delete file is not among them. -/
theorem nullMembers_unchanged_iff {toggled : Set String} {v w : Option Val}
    (h : DiffersByNulls toggled v w) :
    (∀ df, parseDataFile v = .ok df →
      (parseDataFile w = .ok df ∧ parseCounts w = parseCounts v ↔ "first-row-id" ∉ toggled)) ∧
    ∀ d, parseDeleteFile v = .ok d →
      (parseDeleteFile w = .ok d ↔
        "content-offset" ∉ toggled ∧ "content-size-in-bytes" ∉ toggled) := by
  refine ⟨fun df hdf => ?_, fun d hd => ?_⟩
  · obtain ⟨hrow, hw⟩ := parseDataFile_of_differs h hdf
    rw [hw, and_iff_left (parseCounts_congr h).symm, ← sintOrMinusOne_eq_iff h, ← hrow]
    constructor
    · intro heq
      exact congrArg UCScanPlanDataFile.first_row_id (Except.ok.inj heq)
    · intro heq
      rw [heq]
  · obtain ⟨hoffset, hsize, hw⟩ := parseDeleteFile_of_differs h hd
    rw [hw, ← sintOrMinusOne_eq_iff h, ← sintOrMinusOne_eq_iff h, ← hoffset, ← hsize]
    constructor
    · intro heq
      exact ⟨congrArg UCScanDeleteFile.content_offset (Except.ok.inj heq),
        congrArg UCScanDeleteFile.content_size_in_bytes (Except.ok.inj heq)⟩
    · rintro ⟨hoffset', hsize'⟩
      rw [hoffset', hsize']

/-- A delete file of rows of positions. -/
def parquetDeleteMembers : List (String × Val) :=
  [("file-path", .str "s3://b/d.parquet"), ("content", .str "position-deletes"),
    ("file-format", .str "parquet"), ("record-count", .null)]

/-- What it decodes to, with that offset. -/
def parquetDelete (content_offset : ℤ) : UCScanDeleteFile :=
  ⟨.positionDeletes, "s3://b/d.parquet", "parquet", 0, 0, [], content_offset, -1⟩

theorem parseDeleteFile_parquetDelete :
    parseDeleteFile (some (.obj parquetDeleteMembers)) = .ok (parquetDelete (-1)) := rfl

/-- A null count may be left out. -/
theorem nullCount_is_unchanged :
    parseDeleteFile (some (.obj (parquetDeleteMembers.filter fun m => m.1 != "record-count"))) =
      .ok (parquetDelete (-1)) :=
  ((nullMembers_unchanged_iff (differsByNulls_filter rfl)).2 _ parseDeleteFile_parquetDelete).2
    ⟨by simp, by simp⟩

/-- With an offset of null, the rows of positions are taken for a deletion vector at offset 0. -/
theorem nullOffset_is_a_deletionVector :
    parseDeleteFile (some (.obj (parquetDeleteMembers ++ [("content-offset", .null)]))) =
      .ok (parquetDelete 0) ∧
    (∀ C data_file_path out, applyDelete C data_file_path out (parquetDelete (-1)) =
      scanPositionalDeleteFile (parquetDelete (-1)) data_file_path out) ∧
    (∀ C data_file_path out, applyDelete C data_file_path out (parquetDelete 0) =
      scanDeletionVectorFile C (parquetDelete 0) out) ∧
    ¬ ∀ toggled v w, DiffersByNulls toggled v w →
      ∀ d, parseDeleteFile v = .ok d → parseDeleteFile w = .ok d := by
  refine ⟨rfl, fun C path out => if_neg (by decide), fun C path out => if_pos (by decide),
    fun h => ?_⟩
  have hsame :=
    h _ _ _ (differsByNulls_append (k := "content-offset") rfl) _ parseDeleteFile_parquetDelete
  have hnull : parseDeleteFile (some (.obj (parquetDeleteMembers ++ [("content-offset", .null)]))) =
    .ok (parquetDelete 0) := rfl
  have heq := Except.ok.inj (hnull.symm.trans hsame)
  exact absurd (congrArg UCScanDeleteFile.content_offset heq) (by decide)

end UnityCatalog
