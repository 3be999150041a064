import UnityCatalog.Decoding
import UnityCatalog.Listings
import UnityCatalog.VersionGate
import Mathlib.Data.List.TakeWhile

/-!
# Answers that say what is made of them

What `LoadTable`, `GetTables` and `GetSchemas` return of a response is what its body says, or it
should be: the body is an object and no error object, and every member is the number or the text
that is returned for it. The getters of `uc_api.cpp` check less. An absent root has no members, so
an empty or cut-off body reads as one without any; `yyjson_get_uint` makes 0 of a fraction and a
large number of a negative one; only `LoadTable` asks for errors; and a container of another type is
empty.

`UCAPI.answers_exact_iff` says exactly for which bodies each call returns nothing but what they say.
-/

namespace UnityCatalog

open Effectful Yyjson Decoding

/-! ## What a body says -/

/-- A member that is not there; a null counts as none. -/
def Absent (v : Option Val) : Prop := v = none ∨ v = some .null

/-- The text `s` is what is written, or the member is optional and missing and `s` is empty. -/
def ExactStr (v : Option Val) (required : Bool) (s : String) : Prop :=
  v = some (.str s) ∨ required = false ∧ Absent v ∧ s = ""

/-- A number written without fraction or exponent, and not negative. -/
def IsNatural (n : Yyjson.Num) : Prop := IsInteger n ∧ 0 ≤ n.value

/-- The number `q` is the natural number written, or the member is optional and missing and `q`
is 0. -/
def ExactNum (v : Option Val) (required : Bool) (q : ℚ) : Prop :=
  (∃ n, v = some (.num n) ∧ IsNatural n ∧ n.value = q) ∨ required = false ∧ Absent v ∧ q = 0

/-- A body that reports an error, in either format. -/
def IsErrorObject (root : Option Val) : Prop :=
  ¬ Absent (objGet root "error") ∨
    ¬ Absent (objGet root "error_code") ∧ objGet root "error_code" ≠ some (.str "")

/-- An object, and no error object. -/
def IsAnswer (root : Option Val) : Prop := isObj root = true ∧ ¬ IsErrorObject root

/-- A container that is an array where it is there. -/
def IsList (v : Option Val) : Prop := Absent v ∨ isArr v = true

/-- A container that is an object where it is there. -/
def IsMap (v : Option Val) : Prop := Absent v ∨ isObj v = true

/-- A commit as its item says. -/
structure ExactCommit (commit : Val) (c : UCAPICommit) : Prop where
  version : ExactNum (objGet (some commit) "version") true c.version
  timestamp : ExactNum (objGet (some commit) "timestamp") true c.timestamp
  file_name : ExactStr (objGet (some commit) "file-name") true c.file_name
  file_size : ExactNum (objGet (some commit) "file-size") true c.file_size
  modified : ExactNum (objGet (some commit) "file-modification-timestamp") true
    c.file_modification_timestamp

/-- A loaded table as the body says: the latest version is the largest it names. -/
structure ExactLoad (root : Option Val) (r : UCAPICommitsResult) : Prop where
  answer : IsAnswer root
  metadata : IsMap (objGet root "metadata")
  etag : ExactStr (objGet (objGet root "metadata") "etag") false r.etag
  table_uuid : ExactStr (objGet (objGet root "metadata") "table-uuid") false r.table_uuid
  location : ExactStr (objGet (objGet root "metadata") "location") false r.location
  latest : ∃ latest : ℕ, ExactNum (objGet root "latest-table-version") false latest ∧
    r.ratified_version = max latest (maxCommitVersion r.commits)
  list : IsList (objGet root "commits")
  commits : List.Forall₂ ExactCommit (items (objGet root "commits")) r.commits

/-- A column as its item says. -/
structure ExactColumn (column_def : Val) (c : UCAPIColumnDefinition) : Prop where
  name : ExactStr (objGet (some column_def) "name") true c.name
  type_text : ExactStr (objGet (some column_def) "type_text") true c.type_text
  type_json : ExactStr (objGet (some column_def) "type_json") false c.type_json
  precision : ExactNum (objGet (some column_def) "type_precision") false c.precision
  scale : ExactNum (objGet (some column_def) "type_scale") false c.scale
  position : ExactNum (objGet (some column_def) "position") true c.position
  partition : Absent (objGet (some column_def) "partition_index") ∧ c.is_partition_column = false ∨
    isNum (objGet (some column_def) "partition_index") = true ∧ c.is_partition_column = true

/-- Properties as an object says them: each member a text, where it is not null, and the last of
a name counts. -/
structure ExactProperties (properties : Option Val) (td : UCAPITable) : Prop where
  map : IsMap properties
  texts : ∀ m ∈ members properties, m.2 = .null ∨ (getStr (some m.2)).isSome
  values : ∀ key, td.property key = lastValue (stringMembers properties) key

/-- A table as its item says, in the catalog and schema asked about. -/
structure ExactTable (catalog_name schema_name : String) (table : Val) (td : UCAPITable) :
    Prop where
  catalog : td.catalog_name = catalog_name
  schema : td.schema_name = schema_name
  name : ExactStr (objGet (some table) "name") true td.name
  table_type : ExactStr (objGet (some table) "table_type") true td.table_type
  format : ExactStr (objGet (some table) "data_source_format") false td.data_source_format
  location : ExactStr (objGet (some table) "storage_location") false td.storage_location
  table_id : ExactStr (objGet (some table) "table_id") true td.table_id
  list : IsList (objGet (some table) "columns")
  columns : List.Forall₂ ExactColumn (items (objGet (some table) "columns")) td.columns
  properties : ExactProperties (objGet (some table) "properties") td

/-- A schema's tables as the body says. -/
structure ExactTables (catalog_name schema_name : String) (root : Option Val)
    (tables : List UCAPITable) : Prop where
  answer : IsAnswer root
  list : IsList (objGet root "tables")
  tables : List.Forall₂ (ExactTable catalog_name schema_name) (items (objGet root "tables")) tables

/-- A schema as its item says. -/
structure ExactSchema (catalog_name : String) (schema : Val) (s : UCAPISchema) : Prop where
  catalog : s.catalog_name = catalog_name
  name : ExactStr (objGet (some schema) "name") true s.schema_name

/-- A catalog's schemas as the body says. -/
structure ExactSchemas (catalog_name : String) (root : Option Val) (schemas : List UCAPISchema) :
    Prop where
  answer : IsAnswer root
  list : IsList (objGet root "schemas")
  schemas : List.Forall₂ (ExactSchema catalog_name) (items (objGet root "schemas")) schemas

/-! ## Bodies that are refused, and sound ones -/

/-- No NUL stands in the text. -/
def NulFree (s : String) : Prop := '\x00' ∉ s.toList

/-- A text that is not there though it is required, or is something else. -/
def RefusedStr (v : Option Val) (required : Bool) : Prop :=
  getStr v = none ∧ (required = true ∨ ¬ Absent v)

/-- A number that is not there though it is required, or is something else. -/
def RefusedNum (v : Option Val) (required : Bool) : Prop :=
  isNum v = false ∧ (required = true ∨ ¬ Absent v)

/-- If it is a text, it has no NUL. -/
def SoundStr (v : Option Val) : Prop := ∀ s, v = some (.str s) → NulFree s

/-- If it is a number, it is a natural one. -/
def SoundNum (v : Option Val) : Prop := ∀ n, v = some (.num n) → IsNatural n

/-- If it is a number, it is a natural one below `2^63`. -/
def SoundInt64 (v : Option Val) : Prop := ∀ n, v = some (.num n) → IsNatural n ∧ n.value < 2 ^ 63

/-- A member that is there and is not a text that reads as empty. -/
def Speaks (v : Option Val) : Prop := ¬ Absent v ∧ ∀ s, v = some (.str s) → cString s ≠ ""

/-- An error object with a message, or an error code. -/
def Reported (root : Option Val) : Prop :=
  Speaks (objGet (objGet root "error") "message") ∨ Speaks (objGet root "error_code")

/-- A commit with a member missing or of another type. -/
def RefusedCommit (commit : Val) : Prop :=
  RefusedNum (objGet (some commit) "version") true ∨
    RefusedNum (objGet (some commit) "timestamp") true ∨
    RefusedStr (objGet (some commit) "file-name") true ∨
    RefusedNum (objGet (some commit) "file-size") true ∨
    RefusedNum (objGet (some commit) "file-modification-timestamp") true

/-- A commit whose numbers are natural and fit their types, and whose file name has no NUL. -/
structure SoundCommit (commit : Val) : Prop where
  version : SoundNum (objGet (some commit) "version")
  timestamp : SoundInt64 (objGet (some commit) "timestamp")
  file_name : SoundStr (objGet (some commit) "file-name")
  file_size : SoundInt64 (objGet (some commit) "file-size")
  modified : SoundInt64 (objGet (some commit) "file-modification-timestamp")

/-- A body `LoadTable` refuses: a reported error, or a member missing or of another type. -/
def RefusedLoad (root : Option Val) : Prop :=
  Reported root ∨ RefusedStr (objGet (objGet root "metadata") "etag") false ∨
    RefusedStr (objGet (objGet root "metadata") "table-uuid") false ∨
    RefusedStr (objGet (objGet root "metadata") "location") false ∨
    RefusedNum (objGet root "latest-table-version") false ∨
    ∃ commit ∈ items (objGet root "commits"), RefusedCommit commit

/-- A body `LoadTable` reads as it says. -/
structure SoundLoad (root : Option Val) : Prop where
  answer : IsAnswer root
  metadata : IsMap (objGet root "metadata")
  etag : SoundStr (objGet (objGet root "metadata") "etag")
  table_uuid : SoundStr (objGet (objGet root "metadata") "table-uuid")
  location : SoundStr (objGet (objGet root "metadata") "location")
  latest : SoundNum (objGet root "latest-table-version")
  list : IsList (objGet root "commits")
  commits : ∀ commit ∈ items (objGet root "commits"), SoundCommit commit

/-- A column with a member missing or of another type. -/
def RefusedColumn (column_def : Val) : Prop :=
  RefusedStr (objGet (some column_def) "name") true ∨
    RefusedStr (objGet (some column_def) "type_text") true ∨
    RefusedStr (objGet (some column_def) "type_json") false ∨
    RefusedNum (objGet (some column_def) "type_precision") false ∨
    RefusedNum (objGet (some column_def) "type_scale") false ∨
    RefusedNum (objGet (some column_def) "position") true

/-- A column whose texts have no NUL, whose numbers are natural, and whose `partition_index` is a
number where it is there. -/
structure SoundColumn (column_def : Val) : Prop where
  name : SoundStr (objGet (some column_def) "name")
  type_text : SoundStr (objGet (some column_def) "type_text")
  type_json : SoundStr (objGet (some column_def) "type_json")
  precision : SoundNum (objGet (some column_def) "type_precision")
  scale : SoundNum (objGet (some column_def) "type_scale")
  position : SoundNum (objGet (some column_def) "position")
  partition : Absent (objGet (some column_def) "partition_index") ∨
    isNum (objGet (some column_def) "partition_index") = true

/-- Properties that are texts without a NUL in what counts of them. -/
structure SoundProperties (properties : Option Val) : Prop where
  map : IsMap properties
  texts : ∀ m ∈ members properties, m.2 = .null ∨ (getStr (some m.2)).isSome
  values : ∀ key s, lastValue (stringMembers properties) key = some s → NulFree key ∧ NulFree s

/-- A table with a member missing or of another type, or such a column. -/
def RefusedTable (table : Val) : Prop :=
  RefusedStr (objGet (some table) "name") true ∨
    RefusedStr (objGet (some table) "table_type") true ∨
    RefusedStr (objGet (some table) "data_source_format") false ∨
    RefusedStr (objGet (some table) "storage_location") false ∨
    RefusedStr (objGet (some table) "table_id") true ∨
    ∃ col ∈ items (objGet (some table) "columns"), RefusedColumn col

/-- A table that is read as its item says. -/
structure SoundTable (table : Val) : Prop where
  name : SoundStr (objGet (some table) "name")
  table_type : SoundStr (objGet (some table) "table_type")
  format : SoundStr (objGet (some table) "data_source_format")
  location : SoundStr (objGet (some table) "storage_location")
  table_id : SoundStr (objGet (some table) "table_id")
  list : IsList (objGet (some table) "columns")
  columns : ∀ col ∈ items (objGet (some table) "columns"), SoundColumn col
  properties : SoundProperties (objGet (some table) "properties")

/-- A body `GetTables` refuses: a table with a member missing or of another type. It has no
other. -/
def RefusedTables (root : Option Val) : Prop :=
  ∃ table ∈ items (objGet root "tables"), RefusedTable table

/-- A body `GetTables` reads as it says. -/
structure SoundTables (root : Option Val) : Prop where
  answer : IsAnswer root
  list : IsList (objGet root "tables")
  tables : ∀ table ∈ items (objGet root "tables"), SoundTable table

/-- A schema with a name, which has no NUL. -/
def SoundSchema (schema : Val) : Prop :=
  ∃ s, objGet (some schema) "name" = some (.str s) ∧ NulFree s

/-- A body `GetSchemas` reads as it says. -/
structure SoundSchemas (root : Option Val) : Prop where
  answer : IsAnswer root
  list : IsList (objGet root "schemas")
  schemas : ∀ schema ∈ items (objGet root "schemas"), SoundSchema schema

/-! ## One member -/

theorem nulFree_cString (s : String) : NulFree (cString s) := by
  intro h
  rw [cString, String.toList_ofList] at h
  have := List.mem_takeWhile_imp h
  simp at this

theorem cString_eq_self {s : String} : cString s = s ↔ NulFree s := by
  refine ⟨fun h => h ▸ nulFree_cString s, fun h => ?_⟩
  rw [cString, List.takeWhile_eq_self_iff.2, String.ofList_toList]
  intro c hc
  simp only [decide_eq_true_eq]
  rintro rfl
  exact h hc

theorem not_absent {v : Val} (h : v ≠ .null) : ¬ Absent (some v) := by
  rintro (h' | h')
  · cases h'
  · exact h (Option.some.inj h')

/-- A missing member of the wrong kind: it is refused where it is required and the default
elsewhere. -/
theorem templatedTryGetYYJson_absent {α : Type} {is_type : Option Val → Bool} {get : Option Val → α}
    {obj : Option Val} {field : String} {default_val : α} {fail_on_missing : Bool}
    (h : Absent (objGet obj field)) :
    templatedTryGetYYJson is_type get obj field default_val fail_on_missing =
      if fail_on_missing then .error (invalidField field) else .ok default_val := by
  rcases h with h | h <;> rw [templatedTryGetYYJson, h] <;> rfl

/-- A member that is there: it is refused where it is of another type. -/
theorem templatedTryGetYYJson_present {α : Type} {is_type : Option Val → Bool}
    {get : Option Val → α}
    {obj : Option Val} {field : String} {default_val : α} {fail_on_missing : Bool}
    (h : ¬ Absent (objGet obj field)) :
    templatedTryGetYYJson is_type get obj field default_val fail_on_missing =
      if is_type (objGet obj field) then .ok (get (objGet obj field))
      else .error (invalidField field) := by
  rw [templatedTryGetYYJson]
  rcases hv : objGet obj field with _ | v
  · exact absurd (.inl hv) h
  · cases v with
    | null => exact absurd (.inr hv) h
    | _ => rfl

/-- What `TryGetStrFromObject` makes of a member. -/
theorem reads_str (obj : Option Val) (field : String) (required : Bool) :
    Reads (tryGetStrFromObject obj field required) (RefusedStr (objGet obj field) required)
      (SoundStr (objGet obj field)) (ExactStr (objGet obj field) required) := by
  rw [tryGetStrFromObject]
  by_cases ha : Absent (objGet obj field)
  · rw [templatedTryGetYYJson_absent ha]
    have hnone : getStr (objGet obj field) = none := by rcases ha with h | h <;> rw [h] <;> rfl
    cases required with
    | true => exact ⟨hnone, .inl rfl⟩
    | false =>
      refine ⟨fun h => h.2.elim (by rintro ⟨⟩) fun h => h ha, fun _ s hs => ?_,
        fun _ => .inr ⟨rfl, ha, rfl⟩⟩
      rw [hs] at hnone
      cases hnone
  · rw [templatedTryGetYYJson_present ha]
    rcases hv : objGet obj field with _ | v
    · exact absurd (.inl hv) ha
    · cases v with
      | str t =>
        have hexact : ExactStr (some (.str t)) required (cString t) ↔ NulFree t := by
          rw [← cString_eq_self]
          refine ⟨?_, fun h => .inl (by rw [h])⟩
          rintro (h | ⟨-, h, -⟩)
          · injection h with h
            injection h with h
            exact h.symm
          · exact absurd h (not_absent (by rintro ⟨⟩))
        rw [if_pos (show (getStr (some (.str t))).isSome = true from rfl)]
        refine ⟨(fun h => by cases h.1), hexact.trans ⟨fun h s hs => ?_, fun h => h t rfl⟩⟩
        cases hs
        exact h
      | _ => exact ⟨rfl, .inr (by rw [← hv]; exact ha)⟩

theorem ExactNum.isNatural {n : Yyjson.Num} {required : Bool} {q : ℚ}
    (h : ExactNum (some (.num n)) required q) : IsNatural n ∧ n.value = q := by
  rcases h with ⟨m, hm, hnat, hval⟩ | ⟨-, ha, -⟩
  · cases hm
    exact ⟨hnat, hval⟩
  · exact absurd ha (not_absent nofun)

/-- What a number that is read and converted by `cast` comes to. -/
theorem reads_num_as (obj : Option Val) (field : String) (required : Bool) {cast : ℕ → ℚ}
    {bounded : Yyjson.Num → Prop} (hzero : cast 0 = 0)
    (hcast : ∀ n, IsNatural n → (cast (uintOf n) = n.value ↔ bounded n)) :
    Reads (tryGetNumFromObject obj field required) (RefusedNum (objGet obj field) required)
      (∀ n, objGet obj field = some (.num n) → IsNatural n ∧ bounded n)
      (fun k => ExactNum (objGet obj field) required (cast k)) := by
  rw [tryGetNumFromObject]
  by_cases ha : Absent (objGet obj field)
  · rw [templatedTryGetYYJson_absent ha]
    have hnum : isNum (objGet obj field) = false := by rcases ha with h | h <;> rw [h] <;> rfl
    cases required with
    | true => exact ⟨hnum, .inl rfl⟩
    | false =>
      refine ⟨fun h => h.2.elim (by rintro ⟨⟩) fun h => h ha, fun _ n hn => ?_,
        fun _ => .inr ⟨rfl, ha, hzero⟩⟩
      rw [hn] at hnum
      cases hnum
  · rw [templatedTryGetYYJson_present ha]
    rcases hv : objGet obj field with _ | v
    · exact absurd (.inl hv) ha
    · cases v with
      | num n =>
        rw [if_pos (show isNum (some (.num n)) = true from rfl)]
        refine ⟨(fun h => by cases h.1), fun h m hm => ?_, fun h => ?_⟩
        · cases hm
          obtain ⟨hnat, hval⟩ := h.isNatural
          exact ⟨hnat, (hcast n hnat).1 hval.symm⟩
        · obtain ⟨hnat, hb⟩ := h n rfl
          exact .inl ⟨n, rfl, hnat, ((hcast n hnat).2 hb).symm⟩
      | _ => exact ⟨rfl, .inr (by rw [← hv]; exact ha)⟩

/-- What `TryGetNumFromObject` makes of a member. -/
theorem reads_num (obj : Option Val) (field : String) (required : Bool) :
    Reads (tryGetNumFromObject obj field required) (RefusedNum (objGet obj field) required)
      (SoundNum (objGet obj field)) (fun k => ExactNum (objGet obj field) required k) := by
  have h := @reads_num_as obj field required (fun k => (k : ℚ)) (fun _ => True) rfl
    fun n hn => iff_of_true (uintOf_of_nonneg hn.1 hn.2) trivial
  simpa only [SoundNum, and_true] using h

/-- What `TryGetNumFromObject` and a cast to `int64_t` make of a member. -/
theorem reads_int64 (obj : Option Val) (field : String) (required : Bool) :
    Reads (tryGetNumFromObject obj field required) (RefusedNum (objGet obj field) required)
      (SoundInt64 (objGet obj field))
      (fun k => ExactNum (objGet obj field) required (int64 k : ℤ)) := by
  have hzero : ((int64 0 : ℤ) : ℚ) = 0 := by
    rw [int64_eq (Nat.two_pow_pos 64)]
    norm_num
  refine reads_num_as obj field required hzero fun n hn => ?_
  have hval := uintOf_of_nonneg hn.1 hn.2
  rw [int64_eq (uintOf_lt n), ← hval]
  split
  · rename_i hlt
    exact iff_of_true (by push_cast; rfl) (by exact_mod_cast hlt)
  · rename_i hge
    refine iff_of_false (fun h => ?_) fun h => hge (by exact_mod_cast h)
    push_cast at h
    linarith

/-- What is exact is sound. -/
theorem ExactNum.sound {v : Option Val} {required : Bool} {q : ℚ} (h : ExactNum v required q) :
    SoundNum v := by
  rintro n rfl
  exact h.isNatural.1

/-! ## `LoadTable` -/

theorem reads_readCommit (commit : Val) :
    Reads (readCommit (some commit)) (RefusedCommit commit) (SoundCommit commit)
      (ExactCommit commit) := by
  rw [readCommit]
  refine (reads_num _ _ _).bind (fun h => .inl h) fun version hr₁ he₁ => ?_
  refine (reads_int64 _ _ _).bind (fun h => .inr (.inl h)) fun timestamp hr₂ he₂ => ?_
  refine (reads_str _ _ _).bind (fun h => .inr (.inr (.inl h))) fun file_name hr₃ he₃ => ?_
  refine (reads_int64 _ _ _).bind (fun h => .inr (.inr (.inr (.inl h)))) fun file_size hr₄ he₄ => ?_
  refine (reads_int64 _ _ _).bind (fun h => .inr (.inr (.inr (.inr h)))) fun modified hr₅ he₅ => ?_
  generalize int64 timestamp = timestamp, int64 file_size = file_size,
    int64 modified = modified at he₂ he₄ he₅ ⊢
  refine Reads.pure ?_ ⟨fun h => ?_, fun h => ?_⟩
  · exact not_or.2 ⟨hr₁, not_or.2 ⟨hr₂, not_or.2 ⟨hr₃, not_or.2 ⟨hr₄, hr₅⟩⟩⟩⟩
  · exact ⟨he₁.1 h.version, he₂.1 h.timestamp, he₃.1 h.file_name, he₄.1 h.file_size,
      he₅.1 h.modified⟩
  · exact ⟨he₁.2 h.version, he₂.2 h.timestamp, he₃.2 h.file_name, he₄.2 h.file_size,
      he₅.2 h.modified⟩

/-- An optional text makes the getter throw or return something just where it speaks. -/
theorem speaks_iff (obj : Option Val) (field : String) :
    Speaks (objGet obj field) ↔ ¬ tryGetStrFromObject obj field false = .ok "" := by
  rw [tryGetStrFromObject]
  by_cases ha : Absent (objGet obj field)
  · rw [templatedTryGetYYJson_absent ha]
    exact iff_of_false (fun h => h.1 ha) (fun h => h rfl)
  · rw [templatedTryGetYYJson_present ha]
    rcases hv : objGet obj field with _ | v
    · exact absurd (.inl hv) ha
    · rw [hv] at ha
      cases v with
      | str t =>
        rw [if_pos (show (getStr (some (.str t))).isSome = true from rfl)]
        refine ⟨fun h he => h.2 t rfl (Except.ok.inj he), fun h => ⟨ha, fun s hs he => h ?_⟩⟩
        cases hs
        exact congrArg Except.ok he
      | _ => exact iff_of_true ⟨ha, by rintro _ ⟨⟩⟩ (by rintro ⟨⟩)

/-- What `CheckError` and throwing what it finds come to. -/
theorem reads_checkError (root : Option Val) (pre : String) :
    Reads ((checkError root).bind fun error => error.throwIfError pre) (Reported root) True
      fun _ => True := by
  have hmessage := speaks_iff (objGet root "error") "message"
  have hcode := speaks_iff root "error_code"
  have thrown : ∀ {code message : String}, code ≠ "" → Reported root →
      Reads (UCAPIError.throwIfError ⟨code, message⟩ pre) (Reported root) True fun _ => True := by
    intro code message hne h
    rw [UCAPIError.throwIfError, if_pos (by simpa [UCAPIError.hasError] using hne)]
    exact h
  rw [checkError_eq]
  cases h : tryGetStrFromObject (objGet root "error") "message" false with
  | error e => exact (Or.inl (hmessage.2 (by rw [h]; nofun)) : Reported root)
  | ok message =>
    by_cases hm : message = ""
    · subst hm
      cases h' : tryGetStrFromObject root "error_code" false with
      | error e => exact (Or.inr (hcode.2 (by rw [h']; nofun)) : Reported root)
      | ok error_code =>
        by_cases hc : error_code = ""
        · -- neither format: there is nothing to throw
          subst hc
          refine Reads.pure ?_ Iff.rfl
          exact not_or.2 ⟨fun hs => hmessage.1 hs h, fun hs => hcode.1 hs h'⟩
        · have hs : Reported root :=
            .inr (hcode.2 (by rw [h']; exact fun he => hc (Except.ok.inj he)))
          have hb : (error_code != "") = true := by simpa using hc
          simp only [Except.bind, bne_self_eq_false, Bool.false_eq_true, if_false, hb, if_true]
          cases tryGetStrFromObject root "message" false with
          | error e => exact hs
          | ok m => exact thrown hc hs
    · have hs : Reported root :=
        .inl (hmessage.2 (by rw [h]; exact fun he => hm (Except.ok.inj he)))
      have hb : (message != "") = true := by simpa using hm
      simp only [Except.bind, hb, if_true]
      cases tryGetStrFromObject (objGet root "error") "type" false with
      | error e => exact hs
      | ok type =>
        refine thrown ?_ hs
        split
        · simp
        · assumption

theorem reads_decodeLoadTable (catalog_name schema_name table_name : String) (root : Option Val) :
    Reads (decodeLoadTable catalog_name schema_name table_name root) (RefusedLoad root)
      (SoundLoad root) (ExactLoad root) := by
  have member : ∀ field, Reads (if isObj (objGet root "metadata") then
      tryGetStrFromObject (objGet root "metadata") field false else pure "")
      (RefusedStr (objGet (objGet root "metadata") field) false)
      (SoundStr (objGet (objGet root "metadata") field))
      (ExactStr (objGet (objGet root "metadata") field) false) := by
    intro field
    have h := reads_str (objGet root "metadata") field false
    split
    · exact h
    · rename_i hno
      rw [tryGetStr_of_not_isObj hno] at h
      exact h
  rw [decodeLoadTable, ← bind_assoc]
  refine (reads_checkError _ _).bind (fun h => .inl h) fun _ hr₁ _ => ?_
  refine (member _).bind (fun h => .inr (.inl h)) fun etag hr₂ he₂ => ?_
  refine (member _).bind (fun h => .inr (.inr (.inl h))) fun table_uuid hr₃ he₃ => ?_
  refine (member _).bind (fun h => .inr (.inr (.inr (.inl h)))) fun location hr₄ he₄ => ?_
  refine (reads_num _ _ _).bind (fun h => .inr (.inr (.inr (.inr (.inl h)))))
    fun server_ltv hr₅ he₅ => ?_
  refine (Reads.mapM reads_readCommit _).bind (fun h => .inr (.inr (.inr (.inr (.inr h)))))
    fun commits hr₆ he₆ => ?_
  have hmax : (if server_ltv > maxCommitVersion commits then server_ltv
      else maxCommitVersion commits) = max server_ltv (maxCommitVersion commits) := by
    split <;> omega
  refine Reads.pure ?_ ⟨fun h => ?_, fun h => ?_⟩
  · exact not_or.2 ⟨hr₁, not_or.2 ⟨hr₂, not_or.2 ⟨hr₃, not_or.2 ⟨hr₄, not_or.2 ⟨hr₅, hr₆⟩⟩⟩⟩⟩
  · obtain ⟨latest, hlatest, -⟩ := h.latest
    exact ⟨h.answer, h.metadata, he₂.1 h.etag, he₃.1 h.table_uuid, he₄.1 h.location,
      hlatest.sound, h.list, he₆.1 h.commits⟩
  · exact ⟨h.answer, h.metadata, he₂.2 h.etag, he₃.2 h.table_uuid, he₄.2 h.location,
      ⟨server_ltv, he₅.2 h.latest, hmax⟩, h.list, he₆.2 h.commits⟩

/-! ## `GetTables` -/

theorem reads_parseColumnDefinition (column_def : Val) :
    Reads (parseColumnDefinition (some column_def)) (RefusedColumn column_def)
      (SoundColumn column_def) (ExactColumn column_def) := by
  rw [parseColumnDefinition]
  refine (reads_str _ _ _).bind (fun h => .inl h) fun name hr₁ he₁ => ?_
  refine (reads_str _ _ _).bind (fun h => .inr (.inl h)) fun type_text hr₂ he₂ => ?_
  refine (reads_str _ _ _).bind (fun h => .inr (.inr (.inl h))) fun type_json hr₃ he₃ => ?_
  refine (reads_num _ _ _).bind (fun h => .inr (.inr (.inr (.inl h)))) fun precision hr₄ he₄ => ?_
  refine (reads_num _ _ _).bind (fun h => .inr (.inr (.inr (.inr (.inl h)))))
    fun scale hr₅ he₅ => ?_
  refine (reads_num _ _ _).bind (fun h => .inr (.inr (.inr (.inr (.inr h)))))
    fun position hr₆ he₆ => ?_
  refine Reads.pure ?_ ⟨fun h => ?_, fun h => ?_⟩
  · exact not_or.2 ⟨hr₁, not_or.2 ⟨hr₂, not_or.2 ⟨hr₃, not_or.2 ⟨hr₄, not_or.2 ⟨hr₅, hr₆⟩⟩⟩⟩⟩
  · exact ⟨he₁.1 h.name, he₂.1 h.type_text, he₃.1 h.type_json, he₄.1 h.precision, he₅.1 h.scale,
      he₆.1 h.position, h.partition.imp And.left And.left⟩
  · refine ⟨he₁.2 h.name, he₂.2 h.type_text, he₃.2 h.type_json, he₄.2 h.precision, he₅.2 h.scale,
      he₆.2 h.position, h.partition.imp (fun ha => ⟨ha, ?_⟩) fun hn => ⟨hn, hn⟩⟩
    show isNum (objGet (some column_def) "partition_index") = false
    rcases ha with ha | ha <;> rw [ha] <;> rfl

/-- The entries `readProperties` stores. -/
theorem readProperties_eq (properties : Option Val) :
    readProperties properties =
      ((stringMembers properties).map fun m => (cString m.1, cString m.2)).foldl
        (fun ps e => setProperty ps e.1 e.2) [] := by
  rw [readProperties, List.foldl_map]

theorem lastValue_mem {entries : List (String × String)} {key value : String}
    (h : lastValue entries key = some value) : (key, value) ∈ entries := by
  obtain ⟨e, he, rfl⟩ := Option.map_eq_some_iff.1 h
  have hkey : e.1 = key := by simpa using List.find?_some he
  subst hkey
  exact List.mem_reverse.1 (List.mem_of_find?_eq_some he)

/-- A key that stands among the entries has a last value. -/
theorem lastValue_of_mem {entries : List (String × String)} {e : String × String}
    (h : e ∈ entries) : ∃ value, lastValue entries e.1 = some value := by
  have hsome : (entries.reverse.find? fun e' => e'.1 == e.1).isSome := by
    rw [List.find?_isSome]
    exact ⟨e, List.mem_reverse.2 h, beq_self_eq_true _⟩
  obtain ⟨e', he'⟩ := Option.isSome_iff_exists.1 hsome
  exact ⟨e'.2, by rw [lastValue, he']; rfl⟩

/-- Storing the texts as C strings keeps a key's last value as the text it reads as. -/
theorem lastValue_map_cString {entries : List (String × String)}
    (h : ∀ e ∈ entries, NulFree e.1) (key : String) :
    lastValue (entries.map fun m => (cString m.1, cString m.2)) key =
      (lastValue entries key).map cString := by
  have hmap : (entries.map fun m => (cString m.1, cString m.2)) =
      entries.map fun m => (m.1, cString m.2) := by
    refine List.map_congr_left fun e he => ?_
    rw [cString_eq_self.2 (h e he)]
  rw [hmap]
  simp only [lastValue, ← List.map_reverse, List.find?_map, Option.map_map]
  rfl

/-- The properties are what the object says just where what counts of them has no NUL. -/
theorem exactProperties_iff {properties : Option Val} {td : UCAPITable}
    (h : td.properties = readProperties properties) :
    ExactProperties properties td ↔ SoundProperties properties := by
  have hproperty : ∀ key, td.property key =
      lastValue ((stringMembers properties).map fun m => (cString m.1, cString m.2)) key := by
    intro key
    rw [UCAPITable.property, h, readProperties_eq, find?_foldl_setProperty]
  refine ⟨fun he => ⟨he.map, he.texts, fun key s hs => ?_⟩,
    fun hs => ⟨hs.map, hs.texts, fun key => ?_⟩⟩
  · -- a stored key and a stored value were C strings
    have hlast := he.values key
    rw [hproperty, hs] at hlast
    obtain ⟨m, -, hm⟩ := List.mem_map.1 (lastValue_mem hlast)
    obtain ⟨rfl, rfl⟩ := Prod.mk.inj hm
    exact ⟨nulFree_cString _, nulFree_cString _⟩
  · have hkeys : ∀ e ∈ stringMembers properties, NulFree e.1 := by
      intro e he
      obtain ⟨value, hvalue⟩ := lastValue_of_mem he
      exact (hs.values _ _ hvalue).1
    rw [hproperty, lastValue_map_cString hkeys]
    cases hlast : lastValue (stringMembers properties) key with
    | none => rfl
    | some s => exact congrArg some (cString_eq_self.2 (hs.values key s hlast).2)

theorem reads_readTable (catalog_name schema_name : String) (table : Val) :
    Reads (readTable catalog_name schema_name (some table)) (RefusedTable table)
      (SoundTable table) (ExactTable catalog_name schema_name table) := by
  rw [readTable]
  refine (reads_str _ _ _).bind (fun h => .inl h) fun name hr₁ he₁ => ?_
  refine (reads_str _ _ _).bind (fun h => .inr (.inl h)) fun table_type hr₂ he₂ => ?_
  refine (reads_str _ _ _).bind (fun h => .inr (.inr (.inl h))) fun format hr₃ he₃ => ?_
  refine (reads_str _ _ _).bind (fun h => .inr (.inr (.inr (.inl h)))) fun location hr₄ he₄ => ?_
  refine (reads_str _ _ _).bind (fun h => .inr (.inr (.inr (.inr (.inl h)))))
    fun table_id hr₅ he₅ => ?_
  refine (Reads.mapM reads_parseColumnDefinition _).bind
    (fun h => .inr (.inr (.inr (.inr (.inr h))))) fun columns hr₆ he₆ => ?_
  refine Reads.pure ?_ ⟨fun h => ?_, fun h => ?_⟩
  · exact not_or.2 ⟨hr₁, not_or.2 ⟨hr₂, not_or.2 ⟨hr₃, not_or.2 ⟨hr₄, not_or.2 ⟨hr₅, hr₆⟩⟩⟩⟩⟩
  · exact ⟨he₁.1 h.name, he₂.1 h.table_type, he₃.1 h.format, he₄.1 h.location, he₅.1 h.table_id,
      h.list, he₆.1 h.columns, (exactProperties_iff rfl).1 h.properties⟩
  · exact ⟨rfl, rfl, he₁.2 h.name, he₂.2 h.table_type, he₃.2 h.format, he₄.2 h.location,
      he₅.2 h.table_id, h.list, he₆.2 h.columns, (exactProperties_iff rfl).2 h.properties⟩

theorem reads_decodeGetTables (catalog_name schema_name : String) (root : Option Val) :
    Reads (decodeGetTables catalog_name schema_name root) (RefusedTables root) (SoundTables root)
      (ExactTables catalog_name schema_name root) := by
  have h := Reads.mapM (reads_readTable catalog_name schema_name) (items (objGet root "tables"))
  rw [← bind_pure (decodeGetTables catalog_name schema_name root)]
  refine h.bind id fun tables hr he => Reads.pure hr ⟨fun h => ?_, fun h => ?_⟩
  · exact ⟨h.answer, h.list, he.1 h.tables⟩
  · exact ⟨h.answer, h.list, he.2 h.tables⟩

/-! ## `GetSchemas` -/

/-- A schema is read as its item says just where its name is a text without a NUL. -/
theorem exactSchema_iff (catalog_name : String) (schema : Val) :
    (∃ s, readSchema catalog_name (some schema) = some s ∧ ExactSchema catalog_name schema s) ↔
      SoundSchema schema := by
  constructor
  · rintro ⟨s, hs, -, hname | ⟨h, -⟩⟩
    · rw [readSchema, hname] at hs
      have hself := congrArg UCAPISchema.schema_name (Option.some.inj hs)
      exact ⟨_, hname, cString_eq_self.1 hself⟩
    · cases h
  · rintro ⟨s, hname, hs⟩
    refine ⟨⟨s, catalog_name⟩, ?_, rfl, .inl hname⟩
    rw [readSchema, hname]
    exact congrArg (fun t => some (UCAPISchema.mk t catalog_name)) (cString_eq_self.2 hs)

/-- A reading along an array that may be undefined. -/
theorem mapM_exists_forall₂ {α β : Type} {f : α → Option β} {E : α → β → Prop} {xs : List α} :
    (∃ ys, xs.mapM f = some ys ∧ List.Forall₂ E xs ys) ↔ ∀ x ∈ xs, ∃ y, f x = some y ∧ E x y := by
  induction xs with
  | nil => exact ⟨fun _ => nofun, fun _ => ⟨[], rfl, .nil⟩⟩
  | cons x xs ih =>
    rw [List.forall_mem_cons, ← ih, List.mapM_cons]
    constructor
    · rintro ⟨ys, hys, he⟩
      obtain ⟨y, hy, hys⟩ := Option.bind_eq_some_iff.1 hys
      obtain ⟨ys', hys', hys⟩ := Option.bind_eq_some_iff.1 hys
      obtain rfl := Option.some.inj hys
      rw [List.forall₂_cons] at he
      exact ⟨⟨y, hy, he.1⟩, ys', hys', he.2⟩
    · rintro ⟨⟨y, hy, he⟩, ys, hys, hes⟩
      exact ⟨y :: ys, by rw [hy, hys]; rfl, .cons he hes⟩

/-- The schemas of a body are read as it says just where it is sound; otherwise nothing is defined,
or something else is read. -/
theorem exactSchemas_iff (catalog_name : String) (root : Option Val) :
    (∃ v, decodeGetSchemas catalog_name root = some v ∧ ExactSchemas catalog_name root v) ↔
      SoundSchemas root := by
  have hitems : (∀ schema ∈ items (objGet root "schemas"), SoundSchema schema) ↔ ∃ v,
      decodeGetSchemas catalog_name root = some v ∧
        List.Forall₂ (ExactSchema catalog_name) (items (objGet root "schemas")) v := by
    rw [decodeGetSchemas, mapM_exists_forall₂]
    simp only [exactSchema_iff]
  constructor
  · rintro ⟨v, hv, he⟩
    exact ⟨he.answer, he.list, hitems.2 ⟨v, hv, he.schemas⟩⟩
  · intro hs
    obtain ⟨v, hv, he⟩ := hitems.1 hs.schemas
    exact ⟨v, hv, hs.answer, hs.list, he⟩

/-! ## The three calls -/

/-- What `LoadTable` makes of a response is what the body says. -/
def LoadsExactly (catalog_name schema_name table_name url : String) (resp : HttpResponse) : Prop :=
  ∀ r, resp.decoded url (decodeLoadTable catalog_name schema_name table_name) = .ok r →
    ExactLoad (read resp.body) r

/-- What `GetTables` makes of a response is what the body says. -/
def ListsExactly (catalog_name schema_name url : String) (resp : HttpResponse) : Prop :=
  ∀ tables, resp.decoded url (decodeGetTables catalog_name schema_name) = .ok tables →
    ExactTables catalog_name schema_name (read resp.body) tables

/-- What `GetSchemas` makes of a response is defined, and what the body says. -/
def ListsSchemasExactly (catalog_name url : String) (resp : HttpResponse) : Prop :=
  ∀ r, resp.decoded url (fun root => .ok (decodeGetSchemas catalog_name root)) = .ok r →
    ∃ schemas, r = some schemas ∧ ExactSchemas catalog_name (read resp.body) schemas

theorem decoded_of_success {α : Type} {resp : HttpResponse} (h : resp.success = true) (url : String)
    (decode : Option Val → Except Exception α) :
    resp.decoded url decode = decode (read resp.body) := by
  rw [HttpResponse.decoded, HttpResponse.accepted, h]
  rfl

/-- **Which answers are read as they say.** Of a successful response, `LoadTable` and `GetTables`
return nothing but what the body says just where one of their getters throws or the body is sound;
`GetSchemas`, which refuses nothing, just where the body is sound. -/
theorem UCAPI.answers_exact_iff (catalog_name schema_name table_name url : String)
    {resp : HttpResponse} (h : resp.success = true) :
    (LoadsExactly catalog_name schema_name table_name url resp ↔
      RefusedLoad (read resp.body) ∨ SoundLoad (read resp.body)) ∧
    (ListsExactly catalog_name schema_name url resp ↔
      RefusedTables (read resp.body) ∨ SoundTables (read resp.body)) ∧
    (ListsSchemasExactly catalog_name url resp ↔ SoundSchemas (read resp.body)) := by
  simp only [LoadsExactly, ListsExactly, ListsSchemasExactly, decoded_of_success h]
  refine ⟨(reads_decodeLoadTable ..).exact_iff, (reads_decodeGetTables ..).exact_iff, ?_⟩
  rw [← exactSchemas_iff catalog_name]
  refine ⟨fun hr => ?_, ?_⟩
  · obtain ⟨v, hv, he⟩ := hr _ rfl
    exact ⟨v, hv, he⟩
  · rintro ⟨v, hv, he⟩ _ ⟨⟩
    exact ⟨v, hv, he⟩

/-- A response that is cut off in the middle. -/
def cutOff : HttpResponse := ⟨200, true, "", [], "\x7b\"tables\": [\x7b\"name\": \"orders\""⟩

/-- A response that names a version with a fraction. -/
def halfVersion : HttpResponse := ⟨200, true, "", [], "\x7b\"latest-table-version\": 7.5\x7d"⟩

/-- The three calls on the cut-off response. -/
theorem UCAPI.answers_exact_cutOff :
    (LoadsExactly "uc" "s" "orders" "" cutOff ↔
      RefusedLoad (read cutOff.body) ∨ SoundLoad (read cutOff.body)) ∧
    (ListsExactly "uc" "s" "" cutOff ↔
      RefusedTables (read cutOff.body) ∨ SoundTables (read cutOff.body)) ∧
    (ListsSchemasExactly "uc" "" cutOff ↔ SoundSchemas (read cutOff.body)) :=
  UCAPI.answers_exact_iff "uc" "s" "orders" "" rfl

/-- The cut-off response loads a table without versions, lists no tables and lists no schemas; and a
version of 7.5 is read as 0. -/
theorem UCAPI.cutOff_is_read :
    ¬ LoadsExactly "uc" "s" "orders" "" cutOff ∧ ¬ ListsExactly "uc" "s" "" cutOff ∧
      ¬ ListsSchemasExactly "uc" "" cutOff ∧ ¬ LoadsExactly "uc" "s" "orders" "" halfVersion := by
  have hcut : read cutOff.body = none := by
    cases h : read cutOff.body with
    | none => rfl
    | some v =>
      exact absurd (show (read cutOff.body).isNone = true by decide +kernel) (by rw [h]; nofun)
  refine ⟨fun h => ?_, fun h => ?_, fun h => ?_, fun h => ?_⟩
  · have he := h {} (by rw [decoded_of_success rfl, hcut]; rfl)
    rw [hcut] at he
    exact absurd he.answer.1 nofun
  · have he := h [] (by rw [decoded_of_success rfl, hcut]; rfl)
    rw [hcut] at he
    exact absurd he.answer.1 nofun
  · obtain ⟨v, -, he⟩ := h (some []) (by rw [decoded_of_success rfl, hcut]; rfl)
    rw [hcut] at he
    exact absurd he.answer.1 nofun
  · have hload : (decodeLoadTable "uc" "s" "orders" (read halfVersion.body)).toOption =
        some {} := by
      decide +kernel
    have hnum : numOf (objGet (read halfVersion.body) "latest-table-version") =
        some (.real (15 / 2)) := by decide +kernel
    have he : ExactLoad (read halfVersion.body) {} := by
      apply h
      rw [decoded_of_success rfl]
      cases hd : decodeLoadTable "uc" "s" "orders" (read halfVersion.body) with
      | ok r =>
        rw [hd] at hload
        exact congrArg Except.ok (Option.some.inj hload)
      | error e =>
        rw [hd] at hload
        cases hload
    obtain ⟨latest, ⟨n, hn, hnat, -⟩ | ⟨-, ha, -⟩, -⟩ := he.latest
    · rw [hn] at hnum
      obtain rfl := Option.some.inj hnum
      exact hnat.1
    · rcases ha with ha | ha <;> rw [ha] at hnum <;> cases hnum

end UnityCatalog
