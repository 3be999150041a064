import UnityCatalog.DeletionVectorCodec
import UnityCatalog.ScanPlan

/-!
# Positional deletes

`BuildUCDeleteFilter` collects the positions that a data file's delete files mark, position-delete
files of (path, pos) pairs and deletion vectors alike, and `UCPositionDeleteFilter::Filter` keeps
the rows of a chunk at the other positions. What the files hold is asked for by operations, so that
a program that throws before it asks has opened none.
-/

namespace UnityCatalog

open Effectful UCDeletionVectorData

/-! ## Reading delete files -/

/-- A chunk that `parquet_scan` puts out: `rows` is what its first two columns are read as. -/
structure DataChunk where
  columnCount : ℕ
  rows : List (String × ℤ)
  rows_ne_nil : rows ≠ []

/-- The chunks before the empty one, or before what the scan threw. -/
structure ParquetScan where
  chunks : List DataChunk
  ending : Except Exception Unit

/-- What is asked of a delete file. -/
inductive FileQuestion where
  /-- a `parquet_scan` of it -/
  | scan (path : String)
  /-- so many bytes at an offset -/
  | read (path : String) (length offset : ℕ)

/-- The answers. -/
def FileQuestion.Ans : FileQuestion → Type
  | .scan _ => ParquetScan
  | .read _ _ _ => Bytes

/-- The operations on delete files. -/
abbrev DeleteFileOps : Signature := ⟨FileQuestion, FileQuestion.Ans⟩

/-- What the delete files hold. -/
structure DeleteFiles where
  scan : String → Except Exception ParquetScan
  read : String → ℕ → ℕ → Except Exception Bytes

/-- The answers they give. -/
def DeleteFiles.answer (F : DeleteFiles) : (q : FileQuestion) → Except Exception q.Ans
  | .scan path => F.scan path
  | .read path length offset => F.read path length offset

/-- `parquet_scan` -/
def parquetScanOf (path : String) : Prog DeleteFileOps Exception ParquetScan :=
  Prog.perform (F := DeleteFileOps) (.scan path)

/-- `OpenFile`, and `Read` at an offset -/
def readAt (path : String) (length offset : ℕ) : Prog DeleteFileOps Exception Bytes :=
  Prog.perform (F := DeleteFileOps) (.read path length offset)

/-- `ScanParquetFile` -/
def scanParquetFile (path : String) (consume : Finset ℤ → DataChunk → Except Exception (Finset ℤ))
    (out : Finset ℤ) : Prog DeleteFileOps Exception (Finset ℤ) := do
  let scan ← parquetScanOf path
  let out ← Prog.ofExcept (scan.chunks.foldlM consume out)
  Prog.ofExcept scan.ending
  return out

/-- The positions a chunk names for a data file. -/
def consumePairs (file_path data_file_path : String) (out : Finset ℤ) (chunk : DataChunk) :
    Except Exception (Finset ℤ) :=
  if chunk.columnCount < 2 then
    .error (ioException ("scan-plan: positional delete file '" ++ file_path ++ "' has " ++
      toString chunk.columnCount ++ " column(s), expected at least (file_path, pos)"))
  else
    .ok (chunk.rows.foldl (fun out row => if row.1 = data_file_path then insert row.2 out
      else out) out)

/-- `ScanPositionalDeleteFile` -/
def scanPositionalDeleteFile (delete_file : UCScanDeleteFile) (data_file_path : String)
    (out : Finset ℤ) : Prog DeleteFileOps Exception (Finset ℤ) :=
  if delete_file.file_format ≠ "parquet" then
    throw
      (notImplementedException ("scan-plan: positional delete file '" ++ delete_file.file_path ++
      "' has file-format '" ++ delete_file.file_format ++
      "' — only parquet-format position-delete files are supported (the format Delta-via-UniForm "
        ++
      "is expected to produce); avro/orc are not."))
  else
    scanParquetFile delete_file.file_path (consumePairs delete_file.file_path data_file_path) out

/-- `ScanDeletionVectorFile` -/
def scanDeletionVectorFile (C : CRoaring) (delete_file : UCScanDeleteFile) (out : Finset ℤ) :
    Prog DeleteFileOps Exception (Finset ℤ) := do
  if delete_file.content_size_in_bytes < 0 then
    throw (ioException ("scan-plan: deletion-vector delete file '" ++ delete_file.file_path ++
      "' has content-offset " ++ toString delete_file.content_offset ++
      " but no content-size-in-bytes — server response is malformed"))
  let length := delete_file.content_size_in_bytes.toNat
  let buffer ← readAt delete_file.file_path length delete_file.content_offset.toNat
  let positions ← Prog.ofExcept (decodeDeletionVector C buffer delete_file.file_path)
  return out ∪ positions

/-- One round of the loop of `BuildUCDeleteFilter`. -/
def applyDelete (C : CRoaring) (data_file_path : String) (deleted_positions : Finset ℤ)
    (d : UCScanDeleteFile) : Prog DeleteFileOps Exception (Finset ℤ) :=
  if d.content_offset ≥ 0 then scanDeletionVectorFile C d deleted_positions
  else scanPositionalDeleteFile d data_file_path deleted_positions

/-- `UCPositionDeleteFilter` -/
structure UCPositionDeleteFilter where
  positions : Finset ℤ

/-- No filter where nothing is deleted. -/
def filterOf (deleted_positions : Finset ℤ) : Option UCPositionDeleteFilter :=
  if deleted_positions = ∅ then none else some ⟨deleted_positions⟩

/-- The error of an equality delete. -/
def equalityDeleteException (d : UCScanDeleteFile) (data_file_path : String) : Exception :=
  notImplementedException ("scan-plan: table has an equality-delete file ('" ++ d.file_path ++
    "') referencing data file '" ++ data_file_path ++ "'. Applying " ++
    "equality deletes correctly requires mapping each Iceberg field-id in its equality-ids to " ++
    "this table's output columns; that mapping is not resolved anywhere in this extension today " ++
    "(no field-id-carrying schema fetch exists), so the safe choice is to fail loud rather than " ++
    "silently match columns by name (wrong under a renamed column). " ++
    "See BuildUCDeleteFilter's doc comment.")

/-- `BuildUCDeleteFilter` -/
def buildUCDeleteFilter (C : CRoaring) (data_file_path : String) (deletes : List UCScanDeleteFile) :
    Prog DeleteFileOps Exception (Option UCPositionDeleteFilter) :=
  if deletes = [] then return none
  else
    match deletes.find? (·.content = .equalityDeletes) with
    | some d => throw (equalityDeleteException d data_file_path)
    | none => do
      let deleted_positions ← deletes.foldlM (applyDelete C data_file_path) ∅
      return filterOf deleted_positions

/-! ## Filtering -/

section

variable (STANDARD_VECTOR_SIZE : ℕ)

/-- `UCPositionDeleteFilter::Filter`: how many rows of the chunk are selected, and the vector whose
first so many entries are their places in the chunk. -/
def UCPositionDeleteFilter.filter (f : UCPositionDeleteFilter) (start_row_index count : ℕ)
    (result_sel : List ℕ) : ℕ × List ℕ :=
  if count = 0 then (0, result_sel)
  else
    (List.range count).foldl (fun (r : ℕ × List ℕ) i =>
        if int64 (start_row_index + i) ∈ f.positions then r else (r.1 + 1, r.2.set r.1 i))
      (0, List.replicate STANDARD_VECTOR_SIZE 0)

/-- The rows of a chunk that are read: all of them where there is no filter. -/
def selectedRows (filter : Option UCPositionDeleteFilter) (start_row_index count : ℕ) : List ℕ :=
  match filter with
  | none => (List.range count).map (start_row_index + ·)
  | some f =>
    let r := f.filter STANDARD_VECTOR_SIZE start_row_index count []
    (r.2.take r.1).map (start_row_index + ·)

/-- The rows of a file that are read, chunk after chunk. -/
def readRows (filter : Option UCPositionDeleteFilter) : ℕ → List ℕ → List ℕ
  | _, [] => []
  | start_row_index, count :: counts =>
    selectedRows STANDARD_VECTOR_SIZE filter start_row_index count ++
      readRows filter (start_row_index + count) counts

end

/-! ## What is selected -/

/-- A row of a file is below 2^63, and compared as it is. -/
theorem int64_of_lt {n : ℕ} (h : n < 2 ^ 63) : int64 n = n := by
  rw [int64_eq (h.trans (by decide)), if_pos h]

section

variable {STANDARD_VECTOR_SIZE : ℕ}

/-- The rows of a chunk at positions that are not in the set, in ascending order. -/
theorem filter_take (f : UCPositionDeleteFilter) (start_row_index : ℕ) {count : ℕ}
    (hcount : count ≤ STANDARD_VECTOR_SIZE) (result_sel : List ℕ) :
    (f.filter STANDARD_VECTOR_SIZE start_row_index count result_sel).2.take
        (f.filter STANDARD_VECTOR_SIZE start_row_index count result_sel).1 =
      (List.range count).filter fun i => int64 (start_row_index + i) ∉ f.positions := by
  -- the vector is as long as the chunk, and holds what is selected of the rows gone through
  have hloop : ∀ k ≤ count, ∃ r : ℕ × List ℕ,
      (List.range k).foldl (fun (r : ℕ × List ℕ) i =>
          if int64 (start_row_index + i) ∈ f.positions then r else (r.1 + 1, r.2.set r.1 i))
        (0, List.replicate STANDARD_VECTOR_SIZE 0) = r ∧
      r.1 ≤ k ∧ r.2.length = STANDARD_VECTOR_SIZE ∧
        r.2.take r.1 = (List.range k).filter fun i =>
          int64 (start_row_index + i) ∉ f.positions := by
    intro k hk
    induction k with
    | zero => exact ⟨_, rfl, by simp⟩
    | succ k ih =>
      obtain ⟨r, hr, hle, hlen, htake⟩ := ih (by omega)
      rw [List.range_succ, List.foldl_append, hr, List.filter_append]
      by_cases hdel : int64 (start_row_index + k) ∈ f.positions
      · refine ⟨r, by simp [hdel], by omega, hlen, ?_⟩
        simp [htake, hdel]
      · refine ⟨(r.1 + 1, r.2.set r.1 k), by simp [hdel], by omega, by simp [hlen], ?_⟩
        have hlt : r.1 < r.2.length := by omega
        rw [List.take_add_one, List.take_set_of_le le_rfl, htake]
        simp [hdel, hlt]
  rw [UCPositionDeleteFilter.filter]
  split
  · rename_i hzero
    rw [hzero]
    rfl
  · obtain ⟨r, hr, -, -, htake⟩ := hloop count le_rfl
    rw [hr, htake]

theorem selectedRows_eq {filter : Option UCPositionDeleteFilter} {start_row_index count : ℕ}
    (hcount : count ≤ STANDARD_VECTOR_SIZE) (hrow : start_row_index + count ≤ 2 ^ 63) :
    selectedRows STANDARD_VECTOR_SIZE filter start_row_index count =
      (List.range' start_row_index count).filter fun row : ℕ =>
        (row : ℤ) ∉ filter.elim ∅ UCPositionDeleteFilter.positions := by
  cases filter with
  | none => simp [selectedRows, List.range'_eq_map_range]
  | some f =>
    have hsame : ∀ i ∈ List.range count,
        decide (int64 (start_row_index + i) ∉ f.positions) =
          decide (((start_row_index + i : ℕ) : ℤ) ∉ f.positions) := by
      intro i hi
      have hlt := List.mem_range.1 hi
      rw [int64_of_lt (by omega)]
    simp only [selectedRows]
    rw [filter_take f start_row_index hcount, List.filter_congr hsame, List.range'_eq_map_range,
      List.filter_map]
    rfl

/-- Chunk after chunk, the rows at positions that are not in the set, in ascending order. -/
theorem readRows_eq {filter : Option UCPositionDeleteFilter} {start_row_index : ℕ} {counts : List ℕ}
    (hcounts : ∀ count ∈ counts, count ≤ STANDARD_VECTOR_SIZE)
    (hrow : start_row_index + counts.sum ≤ 2 ^ 63) :
    readRows STANDARD_VECTOR_SIZE filter start_row_index counts =
      (List.range' start_row_index counts.sum).filter fun row : ℕ =>
        (row : ℤ) ∉ filter.elim ∅ UCPositionDeleteFilter.positions := by
  induction counts generalizing start_row_index with
  | nil => rfl
  | cons count counts ih =>
    rw [List.sum_cons] at hrow ⊢
    obtain ⟨hcount, hcounts⟩ := List.forall_mem_cons.1 hcounts
    rw [readRows, selectedRows_eq hcount (by omega), ih hcounts (by omega), ← List.filter_append,
      ← List.range'_append_1]

end

/-! ## What is marked -/

section

variable {α β ε : Type} [DecidableEq β]

/-- Steps that each add to a set, or throw, add up to what any of them adds. -/
theorem foldlM_collects {f : Finset β → α → Except ε (Finset β)} {Ok : α → Prop}
    {Adds : α → β → Prop}
    (h : ∀ out a out', f out a = .ok out' ↔ Ok a ∧ ∀ b, b ∈ out' ↔ b ∈ out ∨ Adds a b)
    {as : List α} {out out' : Finset β} :
    as.foldlM f out = .ok out' ↔
      (∀ a ∈ as, Ok a) ∧ ∀ b, b ∈ out' ↔ b ∈ out ∨ ∃ a ∈ as, Adds a b := by
  classical
  induction as generalizing out with
  | nil =>
    rw [List.foldlM_nil]
    constructor
    · intro hout
      obtain rfl := Except.ok.inj hout
      simp
    · rintro ⟨-, hmem⟩
      have hsame : out' = out := by
        ext b
        simpa using hmem b
      rw [hsame]
      rfl
  | cons a as ih =>
    rw [List.foldlM_cons, except_bind_eq_ok]
    simp only [h, ih, List.forall_mem_cons]
    constructor
    · rintro ⟨mid, ⟨ha, hmid⟩, has, hout⟩
      refine ⟨⟨ha, has⟩, fun b => ?_⟩
      rw [hout, hmid, List.exists_mem_cons_iff, or_assoc]
    · rintro ⟨⟨ha, has⟩, hout⟩
      -- what is there after the first step is a part of what is there at the end
      refine ⟨out'.filter fun b => b ∈ out ∨ Adds a b, ⟨ha, fun b => ?_⟩, has, fun b => ?_⟩
      · rw [Finset.mem_filter, hout, List.exists_mem_cons_iff]
        constructor
        · exact fun hb => hb.2
        · exact fun hb => ⟨hb.elim .inl fun hb => .inr (.inl hb), hb⟩
      · rw [hout, Finset.mem_filter, hout, List.exists_mem_cons_iff]
        tauto

end

section

variable {C : CRoaring} {F : DeleteFiles} {data_file_path : String}

/-- A delete file marks a position for a data file: as one of the deletion vector that is stored in
its range of bytes, or in a pair with the data file's path. -/
def Marks (C : CRoaring) (F : DeleteFiles) (data_file_path : String)
    (d : UCScanDeleteFile) (pos : ℤ) : Prop :=
  if 0 ≤ d.content_offset then
    ∃ blob dv, F.read d.file_path d.content_size_in_bytes.toNat d.content_offset.toNat = .ok blob ∧
      fromBlob C blob d.file_path = .ok dv ∧ ∃ p ∈ dv.toSet, pos = p.toNat
  else
    ∃ scan : ParquetScan, F.scan d.file_path = .ok scan ∧
      ∃ chunk ∈ scan.chunks, (data_file_path, pos) ∈ chunk.rows

/-- A delete file that can be read. -/
def Readable (C : CRoaring) (F : DeleteFiles)
    (d : UCScanDeleteFile) : Prop :=
  if 0 ≤ d.content_offset then
    0 ≤ d.content_size_in_bytes ∧ ∃ blob dv,
      F.read d.file_path d.content_size_in_bytes.toNat d.content_offset.toNat = .ok blob ∧
        fromBlob C blob d.file_path = .ok dv ∧ ∀ p ∈ dv.toSet, p.toNat < 2 ^ 63
  else
    d.file_format = "parquet" ∧ ∃ scan : ParquetScan, F.scan d.file_path = .ok scan ∧
      scan.ending = .ok () ∧ ∀ chunk ∈ scan.chunks, 2 ≤ chunk.columnCount

@[simp] theorem given_parquetScanOf (path : String) : (parquetScanOf path).given F.answer =
    F.scan path :=
  Prog.given_perform (F := DeleteFileOps) F.answer _

@[simp] theorem given_readAt (path : String) (length offset : ℕ) :
    (readAt path length offset).given F.answer = F.read path length offset :=
  Prog.given_perform (F := DeleteFileOps) F.answer _

theorem mem_foldl_insert {rows : List (String × ℤ)} {out : Finset ℤ} {pos : ℤ} :
    pos ∈ rows.foldl (fun out row => if row.1 = data_file_path then insert row.2 out else out) out ↔
      pos ∈ out ∨ (data_file_path, pos) ∈ rows := by
  induction rows generalizing out with
  | nil => simp
  | cons row rows ih =>
    obtain ⟨path, p⟩ := row
    rw [List.foldl_cons, ih, List.mem_cons, Prod.mk.injEq]
    split
    · rename_i hpath
      have hpath : path = data_file_path := hpath
      simp only [hpath, Finset.mem_insert]
      tauto
    · rename_i hpath
      have hpath : data_file_path ≠ path := fun h => hpath h.symm
      simp [hpath]

theorem consumePairs_eq_ok {file_path : String} {out out' : Finset ℤ} {chunk : DataChunk} :
    consumePairs file_path data_file_path out chunk = .ok out' ↔
      2 ≤ chunk.columnCount ∧
        ∀ pos, pos ∈ out' ↔ pos ∈ out ∨ (data_file_path, pos) ∈ chunk.rows := by
  rw [consumePairs]
  split
  · rename_i hfew
    exact iff_of_false (fun h => by cases h) fun h => by omega
  · rename_i hmany
    simp only [← mem_foldl_insert]
    constructor
    · intro h
      obtain rfl := Except.ok.inj h
      exact ⟨by omega, fun pos => .rfl⟩
    · rintro ⟨-, hmem⟩
      rw [Finset.ext hmem]

theorem foldlM_consumePairs_eq_ok {file_path : String} {out out' : Finset ℤ}
    {chunks : List DataChunk} :
    chunks.foldlM (consumePairs file_path data_file_path) out = .ok out' ↔
      (∀ chunk ∈ chunks, 2 ≤ chunk.columnCount) ∧
        ∀ pos, pos ∈ out' ↔ pos ∈ out ∨ ∃ chunk ∈ chunks, (data_file_path, pos) ∈ chunk.rows :=
  foldlM_collects (f := consumePairs file_path data_file_path) fun _ _ _ => consumePairs_eq_ok

theorem scanPositionalDeleteFile_eq_ok {d : UCScanDeleteFile} {out out' : Finset ℤ}
    (hd : ¬ 0 ≤ d.content_offset) :
    (scanPositionalDeleteFile d data_file_path out).given F.answer = .ok out' ↔
      Readable C F d ∧ ∀ pos, pos ∈ out' ↔ pos ∈ out ∨ Marks C F data_file_path d pos := by
  simp only [Readable, Marks, if_neg hd, scanPositionalDeleteFile]
  by_cases hformat : d.file_format = "parquet"
  · rw [if_neg (not_not.2 hformat), scanParquetFile]
    simp only [Prog.bind_eq, Prog.given_bind, given_parquetScanOf, Prog.given_ofExcept]
    cases hscan : F.scan d.file_path with
    | error e =>
      refine iff_of_false (fun h => by cases h) ?_
      rintro ⟨⟨-, scan, h, -⟩, -⟩
      cases h
    | ok scan =>
      simp only [Except.ok.injEq, exists_eq_left', hformat, true_and]
      show (scan.chunks.foldlM (consumePairs d.file_path data_file_path) out).bind _ = _ ↔ _
      constructor
      · intro h
        obtain ⟨out₁, hout, h⟩ := except_bind_eq_ok.1 h
        obtain ⟨_, hending, h⟩ := except_bind_eq_ok.1 h
        obtain rfl := Except.ok.inj h
        obtain ⟨hmany, hmem⟩ := foldlM_consumePairs_eq_ok.1 hout
        exact ⟨⟨hending, hmany⟩, hmem⟩
      · rintro ⟨⟨hending, hmany⟩, hmem⟩
        exact except_bind_eq_ok.2 ⟨out', foldlM_consumePairs_eq_ok.2 ⟨hmany, hmem⟩,
          except_bind_eq_ok.2 ⟨(), hending, rfl⟩⟩
  · rw [if_pos hformat]
    exact iff_of_false (fun h => by cases h) fun h => hformat h.1.1

theorem scanDeletionVectorFile_eq_ok {d : UCScanDeleteFile} {out out' : Finset ℤ}
    (hd : 0 ≤ d.content_offset) :
    (scanDeletionVectorFile C d out).given F.answer = .ok out' ↔
      Readable C F d ∧ ∀ pos, pos ∈ out' ↔ pos ∈ out ∨ Marks C F data_file_path d pos := by
  simp only [Readable, Marks, if_pos hd, scanDeletionVectorFile]
  by_cases hsize : d.content_size_in_bytes < 0
  · rw [if_pos hsize]
    exact iff_of_false (fun h => by cases h) fun h => by omega
  · rw [if_neg hsize]
    simp only [Prog.bind_eq, Prog.pure_eq, Prog.given_bind, given_readAt, Prog.given_ofExcept]
    cases hread : F.read d.file_path d.content_size_in_bytes.toNat d.content_offset.toNat with
    | error e =>
      refine iff_of_false (fun h => by cases h) ?_
      rintro ⟨⟨-, blob, dv, h, -⟩, -⟩
      cases h
    | ok blob =>
      simp only [Except.ok.injEq, exists_and_left, exists_eq_left', Prog.given_ret]
      rw [and_iff_right (not_lt.1 hsize)]
      show (decodeDeletionVector C blob d.file_path).bind _ = _ ↔ _
      constructor
      · intro h
        obtain ⟨P, hP, h⟩ := except_bind_eq_ok.1 h
        obtain ⟨dv, hdv, hlt, hmem⟩ := decodeDeletionVector_eq_ok.1 hP
        obtain rfl := Except.ok.inj h
        refine ⟨⟨dv, hdv, hlt⟩, fun pos => ?_⟩
        simp [hmem, hdv]
      · rintro ⟨⟨dv, hdv, hlt⟩, hmem⟩
        have hP : decodeDeletionVector C blob d.file_path =
            .ok (dv.toSet.image fun p => (p.toNat : ℤ)) :=
          decodeDeletionVector_eq_ok.2 ⟨dv, hdv, hlt, by simp [eq_comm]⟩
        refine except_bind_eq_ok.2 ⟨_, hP, congrArg Except.ok (Finset.ext fun pos => ?_)⟩
        simp [hmem, hdv, eq_comm]

theorem applyDelete_eq_ok {d : UCScanDeleteFile} {out out' : Finset ℤ} :
    (applyDelete C data_file_path out d).given F.answer = .ok out' ↔
      Readable C F d ∧ ∀ pos, pos ∈ out' ↔ pos ∈ out ∨ Marks C F data_file_path d pos := by
  rw [applyDelete]
  by_cases hd : 0 ≤ d.content_offset
  · rw [if_pos hd, scanDeletionVectorFile_eq_ok hd]
  · rw [if_neg hd, scanPositionalDeleteFile_eq_ok hd]

theorem filterOf_eq_iff {S : Finset ℤ} {filter : Option UCPositionDeleteFilter} :
    filterOf S = filter ↔
      (∀ f, filter = some f → f.positions ≠ ∅) ∧
        filter.elim ∅ UCPositionDeleteFilter.positions = S := by
  rw [filterOf]
  cases filter with
  | none => simp [eq_comm]
  | some f =>
    obtain ⟨positions⟩ := f
    split
    · rename_i hempty
      simp only [reduceCtorEq, false_iff, Option.elim_some, not_and]
      rintro hne rfl
      exact hne _ rfl hempty
    · rename_i hempty
      simp only [Option.some.injEq, UCPositionDeleteFilter.mk.injEq, Option.elim_some, eq_comm]
      constructor
      · rintro rfl
        exact ⟨by rintro _ rfl; exact hempty, rfl⟩
      · exact fun h => h.2

/-- **What the filter is built of**: every delete file can be read, and the positions are those any
of them marks. -/
theorem buildUCDeleteFilter_eq_ok {deletes : List UCScanDeleteFile}
    {filter : Option UCPositionDeleteFilter} :
    (buildUCDeleteFilter C data_file_path deletes).given F.answer = .ok filter ↔
      (∀ d ∈ deletes, d.content = .positionDeletes ∧ Readable C F d) ∧
        (∀ f, filter = some f → f.positions ≠ ∅) ∧
        ∀ pos, pos ∈ filter.elim ∅ UCPositionDeleteFilter.positions ↔
          ∃ d ∈ deletes, Marks C F data_file_path d pos := by
  rw [buildUCDeleteFilter]
  split
  · rename_i hnil
    subst hnil
    rw [Prog.pure_eq, Prog.given_ret, Except.ok.injEq]
    cases filter with
    | none => simp
    | some f => simp [Finset.eq_empty_iff_forall_notMem]
  · split
    · rename_i d hfind
      -- an equality delete anywhere refuses all of them
      have hmem := List.mem_of_find?_eq_some hfind
      have hequality : d.content = .equalityDeletes := by simpa using List.find?_some hfind
      refine iff_of_false (fun h => by cases h) fun h => ?_
      rw [(h.1 d hmem).1] at hequality
      cases hequality
    · rename_i hfind
      have hpositional : ∀ d ∈ deletes, d.content = .positionDeletes := by
        intro d hd
        have hne := List.find?_eq_none.1 hfind d hd
        cases hcontent : d.content with
        | positionDeletes => rfl
        | equalityDeletes => simp [hcontent] at hne
      -- the loop over the delete files collects what each of them marks
      have hall (S : Finset ℤ) :
          deletes.foldlM (fun out d => (applyDelete C data_file_path out d).given F.answer) ∅ =
            .ok S ↔
            (∀ d ∈ deletes, Readable C F d) ∧
              ∀ pos, pos ∈ S ↔ pos ∈ (∅ : Finset ℤ) ∨ ∃ d ∈ deletes,
                Marks C F data_file_path d pos :=
        foldlM_collects (f := fun out d => (applyDelete C data_file_path out d).given F.answer)
          fun _ _ _ => applyDelete_eq_ok
      rw [Prog.bind_eq, Prog.given_bind, Prog.given_foldlM]
      constructor
      · intro h
        obtain ⟨S, hS, h⟩ := except_bind_eq_ok.1 h
        obtain ⟨hread, hmem⟩ := (hall S).1 hS
        obtain ⟨hne, rfl⟩ := filterOf_eq_iff.1 (Except.ok.inj h)
        exact ⟨fun d hd => ⟨hpositional d hd, hread d hd⟩, hne, by simpa using hmem⟩
      · rintro ⟨hread, hne, hmem⟩
        refine except_bind_eq_ok.2 ⟨_, (hall _).2 ⟨fun d hd => (hread d hd).2, ?_⟩,
          congrArg Except.ok (filterOf_eq_iff.2 ⟨hne, rfl⟩)⟩
        simpa using hmem

theorem exists_marks {d : UCScanDeleteFile} (h : Readable C F d) :
    ∃ S : Finset ℤ, ∀ pos, pos ∈ S ↔ Marks C F data_file_path d pos := by
  rw [Readable] at h
  simp only [Marks]
  split at h
  · rename_i hd
    obtain ⟨-, blob, dv, hread, hdv, -⟩ := h
    refine ⟨dv.toSet.image fun p => (p.toNat : ℤ), fun pos => ?_⟩
    simp [hd, hread, hdv, eq_comm]
  · rename_i hd
    obtain ⟨-, scan, hscan, -⟩ := h
    refine ⟨((scan.chunks.flatMap DataChunk.rows).filterMap fun row =>
      if row.1 = data_file_path then some row.2 else none).toFinset, fun pos => ?_⟩
    simp [hd, hscan]

/-- A filter comes of delete files just if all of them are position deletes that can be read. -/
theorem buildUCDeleteFilter_succeeds_iff {deletes : List UCScanDeleteFile} :
    (∃ filter, (buildUCDeleteFilter C data_file_path deletes).given F.answer = .ok filter) ↔
      ∀ d ∈ deletes, d.content = .positionDeletes ∧ Readable C F d := by
  constructor
  · rintro ⟨filter, h⟩
    exact (buildUCDeleteFilter_eq_ok.1 h).1
  · intro h
    have hmarks : ∀ d : {d // d ∈ deletes}, ∃ S : Finset ℤ,
        ∀ pos, pos ∈ S ↔ Marks C F data_file_path d pos := fun d => exists_marks (h d d.2).2
    choose S hS using hmarks
    obtain ⟨hne, heq⟩ := filterOf_eq_iff.1
      (rfl : filterOf (deletes.attach.toFinset.biUnion S) = _)
    refine ⟨_, buildUCDeleteFilter_eq_ok.2 ⟨h, hne, fun pos => ?_⟩⟩
    rw [heq]
    simp [hS]

/-- With an equality delete the call throws at once. -/
theorem buildUCDeleteFilter_equality {deletes : List UCScanDeleteFile} {d : UCScanDeleteFile}
    (hd : d ∈ deletes) (h : d.content = .equalityDeletes) :
    ∃ e, buildUCDeleteFilter C data_file_path deletes = .throw e := by
  rw [buildUCDeleteFilter, if_neg (List.ne_nil_of_mem hd)]
  split
  · exact ⟨_, rfl⟩
  · rename_i hfind
    have hne := List.find?_eq_none.1 hfind d hd
    simp [h] at hne

/-- A deletion vector of a set marks that set. -/
theorem marks_deletionVectorV1 {portable_serialize : Roaring → Bytes}
    (hC : C.Inverts portable_serialize) {P : Finset ℕ} (hP : ∀ p ∈ P, p < 2 ^ 63)
    (hlen : (deletionVectorBody portable_serialize P).length < 2 ^ 32) {d : UCScanDeleteFile}
    (hoffset : 0 ≤ d.content_offset) (hsize : 0 ≤ d.content_size_in_bytes)
    (hread : F.read d.file_path d.content_size_in_bytes.toNat d.content_offset.toNat =
      .ok (deletionVectorV1 portable_serialize P)) :
    Readable C F d ∧ ∀ pos, Marks C F data_file_path d pos ↔ ∃ p ∈ P, pos = p := by
  obtain ⟨dv, hdv, hset⟩ := fromBlob_encoded hC hP hlen d.file_path
  simp only [Readable, Marks, if_pos hoffset, hread, Except.ok.injEq, exists_and_left,
    exists_eq_left', hdv]
  refine ⟨⟨hsize, fun p hp => hP _ (hset ▸ Finset.mem_image_of_mem _ hp)⟩, fun pos => ?_⟩
  rw [← hset, Finset.exists_mem_image]

end

/-- **The rows that are read are those that no entry marks**, whatever chunks they come in; the
order of the entries and their repetitions make no difference, and an equality delete is refused
before anything is read. An entry that is a deletion vector of a set marks that set. -/
theorem undeleted_rows_are_read (STANDARD_VECTOR_SIZE : ℕ) (C : CRoaring) (F : DeleteFiles)
    (data_file_path : String) (deletes : List UCScanDeleteFile) :
    (∀ filter, (buildUCDeleteFilter C data_file_path deletes).given F.answer = .ok filter →
      ∀ counts : List ℕ, (∀ count ∈ counts, count ≤ STANDARD_VECTOR_SIZE) → counts.sum ≤ 2 ^ 63 →
        (readRows STANDARD_VECTOR_SIZE filter 0 counts).Pairwise (· < ·) ∧
          ∀ row : ℕ, row ∈ readRows STANDARD_VECTOR_SIZE filter 0 counts ↔
            row < counts.sum ∧ ¬ ∃ d ∈ deletes, Marks C F data_file_path d row) ∧
    (∀ deletes' : List UCScanDeleteFile, (∀ d, d ∈ deletes' ↔ d ∈ deletes) → ∀ filter,
      (buildUCDeleteFilter C data_file_path deletes').given F.answer = .ok filter ↔
        (buildUCDeleteFilter C data_file_path deletes).given F.answer = .ok filter) ∧
    ((∃ d ∈ deletes, d.content = .equalityDeletes) →
      ∃ e, buildUCDeleteFilter C data_file_path deletes = .throw e) ∧
    ((∃ filter, (buildUCDeleteFilter C data_file_path deletes).given F.answer = .ok filter) ↔
      ∀ d ∈ deletes, d.content = .positionDeletes ∧ Readable C F d) ∧
    ∀ portable_serialize, C.Inverts portable_serialize → ∀ P : Finset ℕ, (∀ p ∈ P, p < 2 ^ 63) →
      (deletionVectorBody portable_serialize P).length < 2 ^ 32 → ∀ d ∈ deletes,
        0 ≤ d.content_offset → 0 ≤ d.content_size_in_bytes →
        F.read d.file_path d.content_size_in_bytes.toNat d.content_offset.toNat =
          .ok (deletionVectorV1 portable_serialize P) →
        Readable C F d ∧ ∀ pos, Marks C F data_file_path d pos ↔ ∃ p ∈ P, pos = p := by
  refine ⟨?_, ?_, ?_, buildUCDeleteFilter_succeeds_iff, ?_⟩
  · intro filter hfilter counts hcounts hrow
    obtain ⟨-, -, hmem⟩ := buildUCDeleteFilter_eq_ok.1 hfilter
    rw [readRows_eq hcounts (by omega)]
    refine ⟨(List.pairwise_lt_range' _).filter _, fun row => ?_⟩
    simp [hmem]
  · intro deletes' hsame filter
    simp only [buildUCDeleteFilter_eq_ok, hsame]
  · rintro ⟨d, hd, hequality⟩
    exact buildUCDeleteFilter_equality hd hequality
  · intro portable_serialize hC P hP hlen d _ hoffset hsize hread
    exact marks_deletionVectorV1 hC hP hlen hoffset hsize hread

/-- A position-delete file with pairs for two data files, and the deletion vector of row 3. -/
def twoDeleteFiles : DeleteFiles where
  scan _ := .ok ⟨[⟨2, [("t/1.parquet", 1), ("t/2.parquet", 2)], List.cons_ne_nil _ _⟩], .ok ()⟩
  read _ _ _ := .ok (deletionVectorV1 portableRoaring {3})

/-- The entry of the one, and of the other. -/
def pairsEntry : UCScanDeleteFile := ⟨.positionDeletes, "t/1.deletes", "parquet", 0, 0, [], -1, -1⟩

def vectorEntry : UCScanDeleteFile := ⟨.positionDeletes, "t/1.dv", "puffin", 0, 0, [], 4, 60⟩

/-- Rows 1 and 3 of five are left out, in chunks of two and three. -/
theorem undeleted_rows_are_read_twoFiles : ∃ filter,
    (buildUCDeleteFilter arrayRoaring "t/1.parquet" [pairsEntry, vectorEntry]).given
        twoDeleteFiles.answer = .ok filter ∧
      (readRows 2048 filter 0 [2, 3]).Pairwise (· < ·) ∧
        ∀ row : ℕ, row ∈ readRows 2048 filter 0 [2, 3] ↔ row < 5 ∧ row ≠ 1 ∧ row ≠ 3 := by
  obtain ⟨hrows, -, -, hsucceeds, hvector⟩ :=
    undeleted_rows_are_read 2048 arrayRoaring twoDeleteFiles
    "t/1.parquet" [pairsEntry, vectorEntry]
  obtain ⟨hread, hmarks⟩ := hvector portableRoaring arrayRoaring_inverts {3} (by decide)
    (by decide +kernel) vectorEntry (by simp) (by decide) (by decide) rfl
  have hpairs : Readable arrayRoaring twoDeleteFiles pairsEntry :=
    ⟨rfl, _, rfl, rfl, by decide⟩
  obtain ⟨filter, hfilter⟩ := hsucceeds.2 (by
    simp only [List.forall_mem_cons, List.not_mem_nil, false_implies, implies_true, and_true]
    exact ⟨⟨rfl, hpairs⟩, rfl, hread⟩)
  obtain ⟨hsorted, hmem⟩ := hrows filter hfilter [2, 3] (by decide) (by decide)
  refine ⟨filter, hfilter, hsorted, fun row => (hmem row).trans (and_congr_right fun _ => ?_)⟩
  have hone : Marks arrayRoaring twoDeleteFiles "t/1.parquet" pairsEntry row ↔ row = 1 := by
    simp only [Marks, pairsEntry, twoDeleteFiles]
    simp
  simp only [List.mem_cons, List.not_mem_nil, or_false, exists_eq_or_imp, exists_eq_left, hone,
    hmarks]
  simp

end UnityCatalog
