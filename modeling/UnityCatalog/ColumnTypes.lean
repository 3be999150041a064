import UnityCatalog.Client
import Mathlib.Data.List.TakeWhile

/-!
# The types of columns

`uc_utils.cpp`: Unity Catalog tells a column's type twice, as SQL-like text and as the JSON that the
Delta log carries, and each has a parser. The one cuts flat text at commas that stand in no bracket,
the other walks a JSON value. `Cast::Operation<string_t, uint8_t>` is DuckDB's; it is a parameter.
-/

namespace UnityCatalog

open Yyjson

/-- `Cast::Operation<string_t, uint8_t>` -/
abbrev CastUint8 := String → Except Exception ℕ

/-- `LogicalType::DECIMAL`. DuckDB looks for the physical type of the width, and there is none above
38; the scale is only asserted. -/
def LogicalType.DECIMAL (width scale : ℕ) : Except Exception LogicalType :=
  if width ≤ 38 then .ok (.decimal width scale)
  else .error (internalException ("Decimal has a width of " ++ toString width ++
    " which is bigger than the maximum supported width of 38"))

/-- A decimal type is made exactly of a width that DuckDB has, up to 38; a wider one is the throw
that the callers catch or pass on. -/
theorem LogicalType.DECIMAL_eq_ok {width scale : ℕ} {t : LogicalType} :
    LogicalType.DECIMAL width scale = .ok t ↔ width ≤ 38 ∧ t = .decimal width scale := by
  rw [LogicalType.DECIMAL]
  split_ifs with h
  · simp [h, eq_comm]
  · simp [h]

/-! ## From the Delta StructField JSON -/

/-- `ObjectString` -/
def objectString (obj : Val) (field : String) : Option String :=
  (getStr (objGet (some obj) field)).map cString

/-- The error of `ObjectField`. -/
def missingField (field : String) : Exception :=
  notImplementedException ("Unity Catalog type JSON is missing the '" ++ field ++ "' field")

/-- Delta's names of its primitive types. -/
def deltaPrimitives : List (String × LogicalType) :=
  [("string", .varchar), ("long", .bigint), ("integer", .integer), ("short", .smallint),
    ("byte", .tinyint), ("float", .float), ("double", .double), ("boolean", .boolean),
    ("binary", .blob), ("date", .date), ("timestamp", .timestampTz), ("timestamp_ntz", .timestamp),
    ("variant", .variant), ("void", .sqlNull)]

/-- `PrimitiveFromDeltaName` -/
def primitiveFromDeltaName (cast : CastUint8) (name : String) : Except Exception LogicalType :=
  match deltaPrimitives.find? fun p => p.1 == name with
  | some p => .ok p.2
  | none =>
    let text := name.toList
    if "decimal(".toList.isPrefixOf text then
      match text.findIdx? (· == ')'), text.findIdx? (· == ',') with
      | some spec_end, some sep =>
        if sep > spec_end then
          .error
            (notImplementedException ("Malformed decimal in Unity Catalog type JSON: '" ++
            name ++ "'"))
        else do
          let precision ← cast (String.ofList ((text.drop 8).take (sep - 8)))
          let scale ← cast (String.ofList ((text.drop (sep + 1)).take (spec_end - sep - 1)))
          LogicalType.DECIMAL precision scale
      | _, _ =>
        .error
          (notImplementedException ("Malformed decimal in Unity Catalog type JSON: '" ++
          name ++ "'"))
    else
      .error
        (notImplementedException ("Unsupported type '" ++ name ++ "' in Unity Catalog type JSON"))

/-- A member is smaller than its object: the reading of a `type_json` goes down along the members it
looks up, and so it ends. -/
theorem sizeOf_objGet {obj v : Val} {field : String} (h : objGet (some obj) field = some v) :
    sizeOf v < sizeOf obj := by
  cases obj with
  | obj members =>
    obtain ⟨m, hm, rfl⟩ := Option.map_eq_some_iff.1 h
    have hlt := List.sizeOf_lt_of_mem (List.mem_of_find?_eq_some hm)
    obtain ⟨k, v⟩ := m
    simp only [Prod.mk.sizeOf_spec, Val.obj.sizeOf_spec] at hlt ⊢
    omega
  | _ => cases h

/-- The items of a value together are no larger than it: with `sizeOf_objGet` this bounds the
reading of a struct's fields. -/
theorem sizeOf_items (v : Val) : sizeOf (items (some v)) ≤ sizeOf v := by
  cases v with
  | arr vs =>
    simp only [items, Val.arr.sizeOf_spec]
    omega
  | _ => simp [items]

mutual

/-- `TypeFromJsonValue`, with `StructFromJson` -/
def typeFromJsonValue (cast : CastUint8) (type_val : Val) : Except Exception LogicalType :=
  match type_val with
  | .str name => primitiveFromDeltaName cast (cString name)
  | .obj members =>
    match objectString (.obj members) "type" with
    | none => .error (notImplementedException "Unity Catalog type JSON object has no 'type'")
    | some kind =>
      if kind = "struct" then
        match _h : objGet (some (.obj members)) "fields" with
        | none => .error (missingField "fields")
        | some fields => do
          match ← childrenFromJson cast (items (some fields)) with
          | [] =>
            .error (notImplementedException "Unity Catalog type JSON has a struct with no fields")
          | children => return .struct children
      else if kind = "array" then
        match _h : objGet (some (.obj members)) "elementType" with
        | none => .error (missingField "elementType")
        | some element => do
          let child ← typeFromJsonValue cast element
          return .list child
      else if kind = "map" then
        match _hk : objGet (some (.obj members)) "keyType" with
        | none => .error (missingField "keyType")
        | some key => do
          let key ← typeFromJsonValue cast key
          match _hv : objGet (some (.obj members)) "valueType" with
          | none => .error (missingField "valueType")
          | some value => do
            let value ← typeFromJsonValue cast value
            return .map key value
      else
        .error (notImplementedException ("Unsupported nested type '" ++ kind ++
          "' in Unity Catalog type JSON"))
  | _ =>
    .error
      (notImplementedException "Unity Catalog type JSON is neither a type name nor a type object")
termination_by sizeOf type_val
decreasing_by
  · have := sizeOf_objGet _h
    have := sizeOf_items fields
    omega
  · exact sizeOf_objGet _h
  · exact sizeOf_objGet _hk
  · exact sizeOf_objGet _hv

/-- The loop of `StructFromJson`. -/
def childrenFromJson (cast : CastUint8) (fields : List Val) :
    Except Exception (List (String × LogicalType)) :=
  match fields with
  | [] => .ok []
  | field :: fields =>
    match objectString field "name" with
    | none =>
      .error (notImplementedException "Unity Catalog type JSON has a struct field without a name")
    | some name =>
      match _h : objGet (some field) "type" with
      | none => .error (missingField "type")
      | some type_val => do
        let type ← typeFromJsonValue cast type_val
        let children ← childrenFromJson cast fields
        return (name, type) :: children
termination_by sizeOf fields
decreasing_by
  · have := sizeOf_objGet _h
    simp only [List.cons.sizeOf_spec]
    omega
  · simp only [List.cons.sizeOf_spec]
    omega

end

/-- `UCUtils::TypeFromJson` -/
def typeFromJson (cast : CastUint8) (type_json : String) : Except Exception LogicalType :=
  match read type_json with
  | none =>
    .error
      (notImplementedException ("Unity Catalog returned unreadable type JSON: '" ++
      type_json ++ "'"))
  | some root =>
    match objGet (some root) "type" with
    | none => .error (missingField "type")
    | some type_val => typeFromJsonValue cast type_val

/-! ## From the type text -/

/-- How a character changes the nesting. -/
def nestedOpens (nested_opens : ℤ) (c : Char) : ℤ :=
  if c = '<' ∨ c = '(' then nested_opens + 1
  else if c = '>' ∨ c = ')' then nested_opens - 1
  else nested_opens

/-- `FindChildSeparator`: the text up to a ',' that stands in no bracket, and from there. -/
def findChildSeparator (nested_opens : ℤ) : List Char → List Char × List Char
  | [] => ([], [])
  | c :: text =>
    if c ≠ ',' ∨ nested_opens > 0 then
      let r := findChildSeparator (nestedOpens nested_opens c) text
      (c :: r.1, r.2)
    else ([], c :: text)

/-- The search for a separator cuts the text and drops nothing: what it went over and what is left
put together are the text. -/
theorem findChildSeparator_append (nested_opens : ℤ) (text : List Char) :
    (findChildSeparator nested_opens text).1 ++ (findChildSeparator nested_opens text).2 =
      text := by
  induction text generalizing nested_opens with
  | nil => rfl
  | cons c text ih =>
    rw [findChildSeparator]
    split
    · exact congrArg (c :: ·) (ih _)
    · rfl

/-- The two parts are as long as the text, which is what the recursion over the children is measured
by. -/
theorem length_findChildSeparator (nested_opens : ℤ) (text : List Char) :
    (findChildSeparator nested_opens text).1.length +
      (findChildSeparator nested_opens text).2.length =
      text.length := by
  rw [← List.length_append, findChildSeparator_append]

/-- The child texts that the loops over a map's or a struct's list take. -/
def childTexts (text : List Char) : List (List Char) :=
  match _h : findChildSeparator 0 text with
  | (child, []) => [child]
  | (child, _ :: rest) => child :: childTexts rest
termination_by text.length
decreasing_by
  have hlen := length_findChildSeparator 0 text
  rw [_h] at hlen
  simp only [List.length_cons] at hlen
  omega

/-- The text before the last `c`, if there is one. -/
def beforeLast (c : Char) (text : List Char) : Option (List Char) :=
  if c ∈ text then some (text.reverse.dropWhile (· != c)).tail.reverse else none

/-- The text behind the first `c`, and before it. -/
def cutAt (c : Char) (text : List Char) : Option (List Char × List Char) :=
  (text.findIdx? (· == c)).map fun i => (text.take i, text.drop (i + 1))

/-- The names that stand for one type. -/
def sqlTypes : List (String × LogicalType) :=
  [("tinyint", .tinyint), ("smallint", .smallint), ("bigint", .bigint), ("int", .integer),
    ("long", .bigint), ("string", .varchar), ("char", .varchar), ("double", .double),
    ("float", .float), ("boolean", .boolean), ("timestamp", .timestampTz),
    ("timestamp_ntz", .timestamp), ("variant", .variant), ("binary", .blob), ("date", .date),
    ("void", .sqlNull)]

/-- The error of a text that is no type. -/
def unknownType (type_text : List Char) : Exception :=
  notImplementedException ("Tried to fallback to unknown type for '" ++
    String.ofList type_text ++ "'")

/-- A decimal's text; a `substr` that runs backwards runs to the end. -/
def decimalFromText (cast : CastUint8) (type_text : List Char) : Except Exception LogicalType :=
  match type_text.findIdx? (· == ')') with
  | none => .error (unknownType type_text)
  | some spec_end => do
    let (prec_str, scale_str) :=
      match type_text.findIdx? (· == ',') with
      | none => (type_text.drop 8, type_text.take spec_end)
      | some sep => ((type_text.drop 8).take (sep - 8),
          if sep < spec_end then (type_text.drop (sep + 1)).take (spec_end - sep - 1)
          else type_text.drop (sep + 1))
    let prec ← cast (String.ofList prec_str)
    let scale ← cast (String.ofList scale_str)
    LogicalType.DECIMAL prec scale

/-- What stands before the last closing bracket is shorter than the text: a nested type is read from
less than the type around it. -/
theorem length_beforeLast {c : Char} {text inner : List Char} (h : beforeLast c text = some inner) :
    inner.length < text.length := by
  rw [beforeLast] at h
  split_ifs at h with hmem
  obtain rfl := Option.some.inj h
  have hne : (text.reverse.dropWhile (· != c)) ≠ [] := by
    intro hnil
    rw [List.dropWhile_eq_nil_iff] at hnil
    simpa using hnil c (List.mem_reverse.2 hmem)
  have hle := List.length_dropWhile_le (· != c) text.reverse
  have hpos := List.length_pos_of_ne_nil hne
  rw [List.length_reverse] at hle ⊢
  rw [List.length_tail]
  omega

/-- Each child and the separator behind it take their share of the text, and one separator too many
is counted: no child is longer than the text around it. -/
theorem length_childTexts (text : List Char) :
    ((childTexts text).map fun child => child.length + 1).sum = text.length + 1 := by
  fun_induction childTexts text with
  | case1 text child h =>
    have hlen := length_findChildSeparator 0 text
    rw [h] at hlen
    simpa using hlen
  | case2 text child c rest h ih =>
    have hlen := length_findChildSeparator 0 text
    rw [h] at hlen
    simp only [List.length_cons] at hlen
    rw [List.map_cons, List.sum_cons, ih]
    omega

/-- What stands behind the cut is shorter than the text, so a struct's field type is read from less
than the field. -/
theorem length_cutAt {c : Char} {text before behind : List Char}
    (h : cutAt c text = some (before, behind)) :
    behind.length < text.length := by
  obtain ⟨i, hi, heq⟩ := Option.map_eq_some_iff.1 h
  obtain ⟨rfl, rfl⟩ := Prod.mk.inj heq
  have hlt := (List.findIdx?_eq_some_iff_findIdx_eq.1 hi).1
  rw [List.length_drop]
  omega

mutual

/-- `UCUtils::TypeToLogicalType` -/
def typeOfText (cast : CastUint8) (type_text : List Char) : Except Exception LogicalType :=
  match sqlTypes.find? fun p => p.1.toList == type_text with
  | some p => .ok p.2
  | none =>
    if "varchar(".toList.isPrefixOf type_text || "char(".toList.isPrefixOf type_text
      then .ok .varchar
    else if "decimal(".toList.isPrefixOf type_text then decimalFromText cast type_text
    else if "array<".toList.isPrefixOf type_text then
      match _h : beforeLast '>' (type_text.drop 6) with
      | none => .error (unknownType type_text)
      | some child_type_str => do
        let child_type ← typeOfText cast child_type_str
        return .list child_type
    else if "map<".toList.isPrefixOf type_text then
      match _h : beforeLast '>' (type_text.drop 4) with
      | none => .error (unknownType type_text)
      | some inner => do
        match ← keyVal cast (childTexts inner) with
        | [key, val] => return .map key val
        | key_val =>
          throw (notImplementedException ("Invalid map specification with " ++
            toString key_val.length ++ " types"))
    else if "struct<".toList.isPrefixOf type_text then
      match _h : beforeLast '>' (type_text.drop 7) with
      | none => .error (unknownType type_text)
      | some inner => do
        let children ← structChildren cast (childTexts inner)
        return .struct children
    else .error (unknownType type_text)
termination_by type_text.length
decreasing_by
  all_goals
    have hlt := length_beforeLast _h
    rw [List.length_drop] at hlt
    try rw [length_childTexts]
    omega

/-- The loop over a map's types. -/
def keyVal (cast : CastUint8) (texts : List (List Char)) : Except Exception (List LogicalType) :=
  match texts with
  | [] => .ok []
  | child_str :: texts => do
    let child_type ← typeOfText cast child_str
    let key_val ← keyVal cast texts
    return child_type :: key_val
termination_by (texts.map fun child => child.length + 1).sum
decreasing_by
  all_goals
    rw [List.map_cons, List.sum_cons]
    omega

/-- The loop over a struct's children. -/
def structChildren (cast : CastUint8) (texts : List (List Char)) :
    Except Exception (List (String × LogicalType)) :=
  match texts with
  | [] => .ok []
  | child_str :: texts =>
    match _h : cutAt ':' child_str with
    | none =>
      .error (notImplementedException ("Invalid struct child type specifier: " ++
        String.ofList child_str))
    | some (child_name, child_type_str) => do
      let child_type ← typeOfText cast child_type_str
      let children ← structChildren cast texts
      return (String.ofList child_name, child_type) :: children
termination_by (texts.map fun child => child.length + 1).sum
decreasing_by
  · have hlt := length_cutAt _h
    rw [List.map_cons, List.sum_cons]
    omega
  · rw [List.map_cons, List.sum_cons]
    omega

end

/-- `UCUtils::TypeToLogicalType` -/
def typeToLogicalType (cast : CastUint8) (type_text : String) : Except Exception LogicalType :=
  typeOfText cast type_text.toList

end UnityCatalog
