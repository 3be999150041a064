import UnityCatalog.TableInformation
import Mathlib.Data.List.Induction

/-!
# What a catalog and a schema hold

`UCAPI::GetTables` and `UCAPI::GetSchemas`, with the reading of a column. Neither looks for an error
in the answer: they walk an array that may not be there.
-/

namespace UnityCatalog

open Effectful Yyjson

/-! ## `UCAPI::GetTables` -/

/-- A `partition_index` marks a partition column; others have none. -/
def isPartitionColumn (column_def : Option Val) : Bool :=
  isNum (objGet column_def "partition_index")

/-- `ParseColumnDefinition` -/
def parseColumnDefinition (column_def : Option Val) : Except Exception UCAPIColumnDefinition := do
  let name ← tryGetStrFromObject column_def "name"
  let type_text ← tryGetStrFromObject column_def "type_text"
  let type_json ← tryGetStrFromObject column_def "type_json" false
  let precision ← tryGetNumFromObject column_def "type_precision" false
  let scale ← tryGetNumFromObject column_def "type_scale" false
  let position ← tryGetNumFromObject column_def "position"
  let is_partition_column := isPartitionColumn column_def
  return { name, type_text, type_json, precision, scale, position, is_partition_column }

/-- `properties[key] = value` -/
def setProperty (properties : List (String × String)) (key value : String) :
    List (String × String) :=
  (key, value) :: properties.filter fun p => p.1 != key

/-- The members of an object that are strings, in order. -/
def stringMembers (obj : Option Val) : List (String × String) :=
  (members obj).filterMap fun m => (getStr (some m.2)).map fun s => (m.1, s)

/-- The properties of a table: members that are no strings are left out. -/
def readProperties (properties : Option Val) : List (String × String) :=
  (stringMembers properties).foldl (fun ps m => setProperty ps (cString m.1) (cString m.2)) []

/-- One item of `tables`. -/
def readTable (catalog_name schema_name : String) (table : Option Val) :
    Except Exception UCAPITable := do
  let name ← tryGetStrFromObject table "name"
  let table_type ← tryGetStrFromObject table "table_type"
  let data_source_format ← tryGetStrFromObject table "data_source_format" false
  let storage_location ← tryGetStrFromObject table "storage_location" false
  let table_id ← tryGetStrFromObject table "table_id"
  let columns ← (items (objGet table "columns")).mapM fun col => parseColumnDefinition (some col)
  let properties := readProperties (objGet table "properties")
  return { table_id, name, catalog_name, schema_name, table_type, data_source_format,
           storage_location, columns, properties }

/-- What `GetTables` makes of the body. -/
def decodeGetTables (catalog_name schema_name : String) (root : Option Val) :
    Except Exception (List UCAPITable) :=
  (items (objGet root "tables")).mapM fun table => readTable catalog_name schema_name (some table)

/-- The URL that lists a schema's tables. -/
def tablesUrl (credentials : UCCredentials) (catalog_name schema_name : String) : String :=
  credentials.endpoint ++ "/api/2.1/unity-catalog/tables?catalog_name=" ++ catalog_name ++
    "&schema_name=" ++ schema_name

/-- `UCAPI::GetTables` -/
def UCAPI.getTables (catalog_name schema_name : String) (credentials : UCCredentials) :
    Run (List UCAPITable) := do
  let api_result ← makeRequest (tablesUrl credentials catalog_name schema_name) credentials.token
    .empty
  Prog.ofExcept (decodeGetTables catalog_name schema_name (read api_result))

/-- `GetTables` operation by operation: its request goes out, and the answer is decoded with no
other operation between. -/
theorem UCAPI.getTables_eq (catalog_name schema_name : String) (credentials : UCCredentials) :
    UCAPI.getTables catalog_name schema_name credentials =
      ensureHttpfs.bind fun _ =>
        (issue ⟨.get, tablesUrl credentials catalog_name schema_name, credentials.token,
          .empty⟩).bind fun _ =>
        answer.bind fun resp => Prog.ofExcept (resp.decoded
          (tablesUrl credentials catalog_name schema_name)
          (decodeGetTables catalog_name schema_name)) :=
  makeRequest_decode_eq

/-! ## `UCAPI::GetSchemas` -/

/-- `UCAPISchema` -/
structure UCAPISchema where
  schema_name : String := ""
  catalog_name : String
  deriving DecidableEq

/-- One item of `schemas`. A name that is no string is assigned to a `std::string` as a null
pointer, of which the language says nothing: `none`. -/
def readSchema (catalog_name : String) (schema : Option Val) : Option UCAPISchema :=
  match objGet schema "name" with
  | some name => (getStr (some name)).map fun s => ⟨cString s, catalog_name⟩
  | none => some ⟨"", catalog_name⟩

/-- What `GetSchemas` makes of the body; `none` is undefined behaviour. -/
def decodeGetSchemas (catalog_name : String) (root : Option Val) : Option (List UCAPISchema) :=
  (items (objGet root "schemas")).mapM fun schema => readSchema catalog_name (some schema)

/-- The URL that lists a catalog's schemas. -/
def schemasUrl (credentials : UCCredentials) (catalog_name : String) : String :=
  credentials.endpoint ++ "/api/2.1/unity-catalog/schemas?catalog_name=" ++ catalog_name

/-- `UCAPI::GetSchemas` -/
def UCAPI.getSchemas (catalog_name : String) (credentials : UCCredentials) :
    Run (Option (List UCAPISchema)) := do
  let api_result ← makeRequest (schemasUrl credentials catalog_name) credentials.token .empty
  return decodeGetSchemas catalog_name (read api_result)

/-- `GetSchemas` in the same form, one URL up. -/
theorem UCAPI.getSchemas_eq (catalog_name : String) (credentials : UCCredentials) :
    UCAPI.getSchemas catalog_name credentials =
      ensureHttpfs.bind fun _ =>
        (issue ⟨.get, schemasUrl credentials catalog_name, credentials.token, .empty⟩).bind fun _ =>
        answer.bind fun resp => Prog.ofExcept (resp.decoded (schemasUrl credentials catalog_name)
          fun root => .ok (decodeGetSchemas catalog_name root)) := by
  let decode : Option Val → Except Exception (Option (List UCAPISchema)) :=
    fun root => .ok (decodeGetSchemas catalog_name root)
  show ((makeRequest _ _ _).bind fun b => Prog.ofExcept (decode (read b))) = _
  exact makeRequest_decode_eq

/-! ## A table's properties -/

/-- The value of the last entry of a key. -/
def lastValue (entries : List (String × String)) (key : String) : Option String :=
  (entries.reverse.find? fun e => e.1 == key).map Prod.snd

/-- Entries put in one after the other leave, under each key, the value of the last that has the
key. -/
theorem lastValue_append (entries : List (String × String)) (k value key : String) :
    lastValue (entries ++ [(k, value)]) key =
      if k = key then some value else lastValue entries key := by
  rw [lastValue, List.reverse_append, List.reverse_singleton, List.singleton_append,
    List.find?_cons]
  by_cases h : k = key
  · simp [h]
  · have hk : (k == key) = false := by simpa using h
    simp only [hk, h, if_false, lastValue]

/-- A property that is set is found under its key, and the others are found as before: the list
stands for a map. -/
theorem find?_setProperty (properties : List (String × String)) (k value key : String) :
    ((setProperty properties k value).find? fun p => p.1 == key).map Prod.snd =
      if k = key then some value else (properties.find? fun p => p.1 == key).map Prod.snd := by
  rw [setProperty, List.find?_cons]
  by_cases h : k = key
  · simp [h]
  · have hk : (k == key) = false := by simpa using h
    simp only [hk, h, if_false]
    rw [List.find?_filter]
    congr 2
    funext p
    by_cases hp : p.1 = key <;> simp [hp, Ne.symm h]

/-- The map holds of every key the value its last entry gives. -/
theorem find?_foldl_setProperty (entries : List (String × String)) (key : String) :
    ((entries.foldl (fun ps e => setProperty ps e.1 e.2) []).find? fun p => p.1 == key).map
      Prod.snd = lastValue entries key := by
  induction entries using List.reverseRecOn with
  | nil => rfl
  | append_singleton entries e ih =>
    rw [List.foldl_append, List.foldl_cons, List.foldl_nil, find?_setProperty, lastValue_append, ih]

end UnityCatalog
