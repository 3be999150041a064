import UnityCatalog.ColumnTypes
import UnityCatalog.EntryKeys
import UnityCatalog.ExactAnswers
import UnityCatalog.YyjsonText

/-!
# Two spellings of a type

A type tree over Delta's primitives, its type text and its StructField JSON, and that the two
parsers make one type of them (`parsers_agree_iff`). The splitter passes over every type text,
because its commas stand in brackets that the text closes again; names have no character the
splitter looks for. The JSON parser takes a name as a C string, so that the two agree exactly on
names without a zero byte.
-/

namespace UnityCatalog

open Yyjson Decoding

/-! ## Type trees -/

/-- Delta's primitive types. -/
inductive Primitive where
  | string | byte | short | integer | long | float | double | boolean | binary | date | timestamp
  | timestampNtz | variant | void

namespace Primitive

/-- Its name in the Delta log. -/
def deltaName : Primitive → String
  | string => "string"
  | byte => "byte"
  | short => "short"
  | integer => "integer"
  | long => "long"
  | float => "float"
  | double => "double"
  | boolean => "boolean"
  | binary => "binary"
  | date => "date"
  | timestamp => "timestamp"
  | timestampNtz => "timestamp_ntz"
  | variant => "variant"
  | void => "void"

/-- Its type text. -/
def typeText : Primitive → String
  | byte => "tinyint"
  | short => "smallint"
  | integer => "int"
  | long => "bigint"
  | p => p.deltaName

/-- What it is in DuckDB. -/
def logicalType : Primitive → LogicalType
  | string => .varchar
  | byte => .tinyint
  | short => .smallint
  | integer => .integer
  | long => .bigint
  | float => .float
  | double => .double
  | boolean => .boolean
  | binary => .blob
  | date => .date
  | timestamp => .timestampTz
  | timestampNtz => .timestamp
  | variant => .variant
  | void => .sqlNull

end Primitive

/-- A character that separates or brackets. -/
def isSeparator (c : Char) : Bool :=
  c == ',' || c == ':' || c == '<' || c == '>' || c == '(' || c == ')'

/-- Whether a text has a separator can be evaluated, as is done for the names of the primitive
types. -/
theorem plain_of_all {text : List Char} (h : (text.all fun c => !isSeparator c) = true) :
    ∀ c ∈ text, isSeparator c = false := by
  simpa using h

/-- A name without separators and brackets. -/
abbrev FieldName := {name : String // ∀ c ∈ name.toList, isSeparator c = false}

/-- A precision, and a scale it has room for. -/
structure DecimalSpec where
  precision : ℕ
  scale : ℕ
  pos : 1 ≤ precision
  precision_le : precision ≤ 38
  scale_le : scale ≤ precision

mutual

/-- A type. -/
inductive DeltaType where
  | primitive (p : Primitive)
  | decimal (spec : DecimalSpec)
  | array (element : DeltaType)
  | map (key value : DeltaType)
  | struct (fields : DeltaFields)

/-- A struct's fields, at least one. -/
inductive DeltaFields where
  | one (name : FieldName) (type : DeltaType)
  | cons (name : FieldName) (type : DeltaType) (fields : DeltaFields)

end

/-- `decimal(p,s)` -/
def DecimalSpec.text (spec : DecimalSpec) : List Char :=
  "decimal".toList ++
    ('(' :: ((toString spec.precision).toList ++ ',' :: (toString spec.scale).toList) ++ [')'])

mutual

/-- The type text. -/
def DeltaType.typeText : DeltaType → List Char
  | .primitive p => p.typeText.toList
  | .decimal spec => spec.text
  | .array element => "array".toList ++ ('<' :: element.typeText ++ ['>'])
  | .map key value => "map".toList ++ ('<' :: (key.typeText ++ ',' :: value.typeText) ++ ['>'])
  | .struct fields => "struct".toList ++ ('<' :: fields.typeText ++ ['>'])

/-- The text of a struct's list. -/
def DeltaFields.typeText : DeltaFields → List Char
  | .one name type => name.1.toList ++ ':' :: type.typeText
  | .cons name type fields => (name.1.toList ++ ':' :: type.typeText) ++ ',' :: fields.typeText

end

mutual

/-- What it is in DuckDB, with the names as `read` takes them. -/
def DeltaType.logicalTypeAs (read : String → String) : DeltaType → LogicalType
  | .primitive p => p.logicalType
  | .decimal spec => .decimal spec.precision spec.scale
  | .array element => .list (element.logicalTypeAs read)
  | .map key value => .map (key.logicalTypeAs read) (value.logicalTypeAs read)
  | .struct fields => .struct (fields.childrenAs read)

@[inherit_doc DeltaType.logicalTypeAs]
def DeltaFields.childrenAs (read : String → String) : DeltaFields → List (String × LogicalType)
  | .one name type => [(read name.1, type.logicalTypeAs read)]
  | .cons name type fields => (read name.1, type.logicalTypeAs read) :: fields.childrenAs read

end

/-- The type: the children of each struct in order, under their names. -/
abbrev DeltaType.logicalType (t : DeltaType) : LogicalType := t.logicalTypeAs id

mutual

/-- The JSON value is the type's, whatever other members it has. -/
inductive Writes : Val → DeltaType → Prop
  | primitive (p : Primitive) : Writes (.str p.deltaName) (.primitive p)
  | decimal (spec : DecimalSpec) : Writes (.str (String.ofList spec.text)) (.decimal spec)
  | array {v element_val : Val} {element : DeltaType} :
    objGet (some v) "type" = some (.str "array") →
    objGet (some v) "elementType" = some element_val → Writes element_val element →
    Writes v (.array element)
  | map {v key_val value_val : Val} {key value : DeltaType} :
    objGet (some v) "type" = some (.str "map") →
    objGet (some v) "keyType" = some key_val → Writes key_val key →
    objGet (some v) "valueType" = some value_val → Writes value_val value →
    Writes v (.map key value)
  | struct {v : Val} {field_vals : List Val} {fields : DeltaFields} :
    objGet (some v) "type" = some (.str "struct") →
    objGet (some v) "fields" = some (.arr field_vals) → WritesFields field_vals fields →
    Writes v (.struct fields)

/-- The JSON values are the fields'. -/
inductive WritesFields : List Val → DeltaFields → Prop
  | one {v type_val : Val} {name : FieldName} {type : DeltaType} :
    objGet (some v) "name" = some (.str name.1) →
    objGet (some v) "type" = some type_val → Writes type_val type →
    WritesFields [v] (.one name type)
  | cons {v type_val : Val} {name : FieldName} {type : DeltaType} {vs : List Val}
    {fields : DeltaFields} : objGet (some v) "name" = some (.str name.1) →
    objGet (some v) "type" = some type_val → Writes type_val type → WritesFields vs fields →
    WritesFields (v :: vs) (.cons name type fields)

end

/-- The text is a StructField's of that type. -/
def IsStructField (type_json : String) (t : DeltaType) : Prop :=
  ∃ root type_val, read type_json = some root ∧ objGet (some root) "type" = some type_val ∧
    Writes type_val t

/-- The cast reads the numbers that fit. -/
def ReadsNumbers (cast : CastUint8) : Prop := ∀ n < 2 ^ 8, cast (toString n) = .ok n

/-! ## What the splitter passes over -/

/-- At a nesting of at least `low` the splitter passes over the text, and nests as before. -/
def Passes (low : ℤ) (text : List Char) : Prop :=
  ∀ d, low ≤ d → ∀ rest, findChildSeparator d (text ++ rest) =
    (text ++ (findChildSeparator d rest).1, (findChildSeparator d rest).2)

section

variable {low : ℤ} {text text' : List Char}

/-- A text that can be passed at a depth can be passed at a greater one. -/
theorem Passes.mono {low' : ℤ} (h : Passes low text) (hle : low ≤ low') : Passes low' text :=
  fun d hd => h d (hle.trans hd)

/-- Texts that can be passed can be passed one after the other. -/
theorem Passes.append (h : Passes low text) (h' : Passes low text') :
    Passes low (text ++ text') := by
  intro d hd rest
  rw [List.append_assoc, h d hd, h' d hd, List.append_assoc]

/-- A character other than ',' that does not nest. -/
theorem Passes.cons {c : Char} (hc : c ≠ ',') (hnest : ∀ d, nestedOpens d c = d)
    (h : Passes low text) : Passes low (c :: text) := by
  intro d hd rest
  rw [List.cons_append, findChildSeparator, if_pos (.inl hc), hnest, h d hd]
  rfl

/-- Only brackets change the depth. -/
theorem nestedOpens_of_not_separator {c : Char} (h : isSeparator c = false) (d : ℤ) :
    nestedOpens d c = d := by
  simp only [isSeparator, Bool.or_eq_false_iff, beq_eq_false_iff_ne] at h
  simp [nestedOpens, h]

/-- A text without separators is passed at any depth, as there is nothing to stop at. -/
theorem passes_of_plain (h : ∀ c ∈ text, isSeparator c = false) : Passes low text := by
  induction text with
  | nil => exact fun _ _ _ => rfl
  | cons c text ih =>
    obtain ⟨hc, htext⟩ := List.forall_mem_cons.1 h
    refine (ih htext).cons ?_ (nestedOpens_of_not_separator hc)
    rintro rfl
    exact absurd hc (by decide)

/-- A ',' in a bracket. -/
theorem passes_comma (h : 1 ≤ low) (htext : Passes low text) : Passes low (',' :: text) := by
  intro d hd rest
  have hnest : nestedOpens d ',' = d := by simp [nestedOpens]
  rw [List.cons_append, findChildSeparator, if_pos (.inr (by omega)), hnest, htext d hd]
  rfl

/-- What is passed over one level down can stand in brackets. -/
theorem Passes.bracket {opening closing : Char} (ho : opening = '<' ∨ opening = '(')
    (hc : closing = '>' ∨ closing = ')') (h : Passes (low + 1) text) :
    Passes low (opening :: text ++ [closing]) := by
  intro d hd rest
  have hopen : nestedOpens d opening = d + 1 := by rcases ho with rfl | rfl <;> simp [nestedOpens]
  have hclose : nestedOpens (d + 1) closing = d := by
    rcases hc with rfl | rfl <;> simp [nestedOpens]
  have hne : opening ≠ ',' := by rcases ho with rfl | rfl <;> decide
  have hne' : closing ≠ ',' := by rcases hc with rfl | rfl <;> decide
  rw [List.append_assoc, List.cons_append, findChildSeparator, if_pos (.inl hne), hopen,
    h (d + 1) (by omega), List.singleton_append, findChildSeparator, if_pos (.inl hne'), hclose]
  simp

end

/-- A number is printed in digits, none of which separates. -/
theorem isSeparator_of_mem_toString {n : ℕ} {c : Char} (h : c ∈ (toString n).toList) :
    isSeparator c = false := by
  have hdigit := isDigit_of_mem_toString h
  rw [← Bool.not_eq_true]
  intro hsep
  simp only [isSeparator, Bool.or_eq_true, beq_iff_eq] at hsep
  clear h
  rcases hsep with ((((rfl | rfl) | rfl) | rfl) | rfl) | rfl <;> exact absurd hdigit (by decide)

/-- The search for a separator passes the name of a primitive type. -/
theorem passes_primitive (p : Primitive) : Passes 0 p.typeText.toList := by
  apply passes_of_plain
  cases p <;> exact plain_of_all (by decide)

/-- It passes a decimal as well, whose comma stands inside brackets. -/
theorem DecimalSpec.passes (spec : DecimalSpec) : Passes 0 spec.text := by
  have hinner :
      Passes 1 ((toString spec.precision).toList ++ ',' :: (toString spec.scale).toList) :=
    (passes_of_plain fun _ => isSeparator_of_mem_toString).append
      (passes_comma le_rfl (passes_of_plain fun _ => isSeparator_of_mem_toString))
  have hname : Passes 0 "decimal".toList := passes_of_plain (plain_of_all (by decide))
  exact hname.append (Passes.bracket (.inr rfl) (.inr rfl) hinner)

mutual

/-- The splitter passes over a type text. -/
theorem DeltaType.passes : ∀ t : DeltaType, Passes 0 t.typeText
  | .primitive p => passes_primitive p
  | .decimal spec => spec.passes
  | .array element => by
    have hname : Passes 0 "array".toList := passes_of_plain (plain_of_all (by decide))
    have hinner : Passes 1 element.typeText := element.passes.mono (by decide)
    exact hname.append (hinner.bracket (.inl rfl) (.inl rfl))
  | .map key value => by
    have hname : Passes 0 "map".toList := passes_of_plain (plain_of_all (by decide))
    have hkey : Passes 1 key.typeText := key.passes.mono (by decide)
    have hvalue : Passes 1 value.typeText := value.passes.mono (by decide)
    exact hname.append ((hkey.append (passes_comma le_rfl hvalue)).bracket (.inl rfl) (.inl rfl))
  | .struct fields => by
    have hname : Passes 0 "struct".toList := passes_of_plain (plain_of_all (by decide))
    exact hname.append (fields.passes.bracket (.inl rfl) (.inl rfl))

/-- In a bracket it passes over a struct's list. -/
theorem DeltaFields.passes : ∀ fields : DeltaFields, Passes 1 fields.typeText
  | .one name type => by
    refine (passes_of_plain name.2).append ?_
    exact (type.passes.mono (by decide)).cons (by decide) fun d => by simp [nestedOpens]
  | .cons name type fields => by
    refine Passes.append ?_ (passes_comma le_rfl fields.passes)
    refine (passes_of_plain name.2).append ?_
    exact (type.passes.mono (by decide)).cons (by decide) fun d => by simp [nestedOpens]

end

/-! ## The text parser -/

section

variable {cast : CastUint8}

/-- A text that is passed whole is one child. -/
theorem childTexts_of_passes {text : List Char} (h : Passes 0 text) : childTexts text = [text] := by
  have hsep : findChildSeparator 0 text = (text, []) := by
    have hall := h 0 le_rfl []
    rwa [List.append_nil, findChildSeparator, List.append_nil] at hall
  rw [childTexts]
  split <;> rename_i heq <;> rw [hsep] at heq
  · rw [(Prod.mk.inj heq).1]
  · cases (Prod.mk.inj heq).2

/-- A comma behind a text that is passed ends its child, and the rest is cut on its own. -/
theorem childTexts_comma {text : List Char} (h : Passes 0 text) (rest : List Char) :
    childTexts (text ++ ',' :: rest) = text :: childTexts rest := by
  have hsep : findChildSeparator 0 (text ++ ',' :: rest) = (text, ',' :: rest) := by
    have hall := h 0 le_rfl (',' :: rest)
    rwa [findChildSeparator, if_neg (by simp), List.append_nil] at hall
  rw [childTexts]
  split <;> rename_i heq <;> rw [hsep] at heq
  · cases (Prod.mk.inj heq).2
  · obtain ⟨rfl, htail⟩ := Prod.mk.inj heq
    rw [(List.cons.inj htail).2]

/-- The last bracket is the one that was put behind the children. -/
theorem beforeLast_concat (c : Char) (text : List Char) : beforeLast c (text ++ [c]) =
    some text := by
  rw [beforeLast, if_pos (by simp)]
  simp

/-- The first comma is found behind a text that has none. -/
theorem findIdx?_append_cons {c : Char} {text : List Char} (h : c ∉ text) (rest : List Char) :
    (text ++ c :: rest).findIdx? (· == c) = some text.length := by
  induction text with
  | nil => simp [List.findIdx?_cons]
  | cons c' text ih =>
    obtain ⟨hc, htext⟩ := not_or.1 (mt List.mem_cons.2 h)
    have hne : (c' == c) = false := beq_eq_false_iff_ne.2 (Ne.symm hc)
    rw [List.cons_append, List.findIdx?_cons, hne, ih htext]
    rfl

/-- A field's name ends at the first colon, so a name without one is read whole. -/
theorem cutAt_append_cons {c : Char} {text : List Char} (h : c ∉ text) (rest : List Char) :
    cutAt c (text ++ c :: rest) = some (text, rest) := by
  rw [cutAt, findIdx?_append_cons h]
  simp

/-- A text with a separator or a bracket in it is not one of the names. -/
theorem find?_sqlTypes_eq_none {text : List Char} {c : Char} (hc : c ∈ text)
    (hsep : isSeparator c = true) :
    (sqlTypes.find? fun p => p.1.toList == text) = none := by
  have hplain : ∀ p ∈ sqlTypes, ∀ c ∈ p.1.toList, isSeparator c = false := by
    have hall : (sqlTypes.all fun p => p.1.toList.all fun c => !isSeparator c) = true := by decide
    exact fun p hp => plain_of_all (List.all_eq_true.1 hall p hp)
  rw [List.find?_eq_none]
  intro p hp heq
  rw [beq_iff_eq] at heq
  have := hplain p hp c (heq ▸ hc)
  rw [hsep] at this
  cases this

/-- The name of a primitive type is read as that type, with the table that the source compares it
with. -/
theorem typeOfText_primitive (p : Primitive) : typeOfText cast p.typeText.toList =
    .ok p.logicalType := by
  have hfind : (sqlTypes.find? fun q => q.1.toList == p.typeText.toList).map Prod.snd =
      some p.logicalType := by
    cases p <;> rfl
  obtain ⟨q, hq, hlogical⟩ := Option.map_eq_some_iff.1 hfind
  rw [typeOfText, hq]
  exact congrArg Except.ok hlogical

/-- A word and brackets around a text. -/
def bracketed (word : String) (opening : Char) (inner : List Char) (closing : Char) : List Char :=
  word.toList ++ (opening :: inner ++ [closing])

/-- A name with brackets behind it is no primitive type: none of those has a separator in it. -/
theorem find?_sqlTypes_bracketed {word : String} {opening : Char} (inner : List Char)
    (closing : Char) (h : isSeparator opening = true) :
    (sqlTypes.find? fun p => p.1.toList == bracketed word opening inner closing) = none :=
  find?_sqlTypes_eq_none (by simp [bracketed]) h

/-- An array is read as the list of what stands in its brackets. -/
theorem typeOfText_array (inner : List Char) :
    typeOfText cast (bracketed "array" '<' inner '>') = do
      let child_type ← typeOfText cast inner
      return .list child_type := by
  have hvarchar : ("varchar(".toList.isPrefixOf (bracketed "array" '<' inner '>') ||
      "char(".toList.isPrefixOf (bracketed "array" '<' inner '>')) = false := rfl
  have hdecimal : "decimal(".toList.isPrefixOf (bracketed "array" '<' inner '>') = false := rfl
  have harray : "array<".toList.isPrefixOf (bracketed "array" '<' inner '>') = true := rfl
  have hinner : beforeLast '>' ((bracketed "array" '<' inner '>').drop 6) = some inner :=
    beforeLast_concat '>' inner
  rw [typeOfText, find?_sqlTypes_bracketed _ _ (by decide)]
  simp only [hvarchar, hdecimal, harray, Bool.false_eq_true, if_false, if_true]
  split <;> rename_i heq <;> rw [hinner] at heq
  · cases heq
  · rw [← Option.some.inj heq]

/-- A map is read as its two children, key and value. -/
theorem typeOfText_map {inner : List Char} {key val : LogicalType}
    (h : keyVal cast (childTexts inner) = .ok [key, val]) :
    typeOfText cast (bracketed "map" '<' inner '>') = .ok (.map key val) := by
  have hvarchar : ("varchar(".toList.isPrefixOf (bracketed "map" '<' inner '>') ||
      "char(".toList.isPrefixOf (bracketed "map" '<' inner '>')) = false := rfl
  have hdecimal : "decimal(".toList.isPrefixOf (bracketed "map" '<' inner '>') = false := rfl
  have harray : "array<".toList.isPrefixOf (bracketed "map" '<' inner '>') = false := rfl
  have hmap : "map<".toList.isPrefixOf (bracketed "map" '<' inner '>') = true := rfl
  have hinner : beforeLast '>' ((bracketed "map" '<' inner '>').drop 4) = some inner :=
    beforeLast_concat '>' inner
  rw [typeOfText, find?_sqlTypes_bracketed _ _ (by decide)]
  simp only [hvarchar, hdecimal, harray, hmap, Bool.false_eq_true, if_false, if_true]
  split <;> rename_i heq <;> rw [hinner] at heq
  · cases heq
  · rw [← Option.some.inj heq, h]
    rfl

/-- A struct is read as its children, each with the name in front of its colon. -/
theorem typeOfText_struct (inner : List Char) :
    typeOfText cast (bracketed "struct" '<' inner '>') = do
      let children ← structChildren cast (childTexts inner)
      return .struct children := by
  have hvarchar : ("varchar(".toList.isPrefixOf (bracketed "struct" '<' inner '>') ||
      "char(".toList.isPrefixOf (bracketed "struct" '<' inner '>')) = false := rfl
  have hdecimal : "decimal(".toList.isPrefixOf (bracketed "struct" '<' inner '>') = false := rfl
  have harray : "array<".toList.isPrefixOf (bracketed "struct" '<' inner '>') = false := rfl
  have hmap : "map<".toList.isPrefixOf (bracketed "struct" '<' inner '>') = false := rfl
  have hstruct : "struct<".toList.isPrefixOf (bracketed "struct" '<' inner '>') = true := rfl
  have hinner : beforeLast '>' ((bracketed "struct" '<' inner '>').drop 7) = some inner :=
    beforeLast_concat '>' inner
  rw [typeOfText, find?_sqlTypes_bracketed _ _ (by decide)]
  simp only [hvarchar, hdecimal, harray, hmap, hstruct, Bool.false_eq_true, if_false, if_true]
  split <;> rename_i heq <;> rw [hinner] at heq
  · cases heq
  · rw [← Option.some.inj heq]

/-- No separator stands in a number, so the comma of a decimal is the one between its numbers. -/
theorem notMem_toString {n : ℕ} {c : Char} (hc : isSeparator c = true) :
    c ∉ (toString n).toList := by
  intro h
  rw [isSeparator_of_mem_toString h] at hc
  cases hc

/-- A decimal's text is the printed brackets around its two numbers. -/
theorem decimal_text (prec scale : List Char) :
    "decimal".toList ++ ('(' :: (prec ++ ',' :: scale) ++ [')']) =
      "decimal(".toList ++ (prec ++ ',' :: (scale ++ [')'])) := by
  have hword : "decimal(".toList = "decimal".toList ++ ['('] := rfl
  rw [hword]
  simp only [List.append_assoc, List.cons_append, List.nil_append]

/-- A decimal's text: a precision up to the ',', and a scale up to the ')'. -/
theorem DecimalSpec.text_eq (spec : DecimalSpec) :
    spec.text = "decimal(".toList ++ ((toString spec.precision).toList ++
      ',' :: ((toString spec.scale).toList ++ [')'])) :=
  decimal_text _ _

/-- The comma of a decimal stands behind its precision. -/
theorem DecimalSpec.findIdx?_comma (spec : DecimalSpec) :
    spec.text.findIdx? (· == ',') = some (8 + (toString spec.precision).toList.length) := by
  have hnot : ',' ∉ "decimal(".toList ++ (toString spec.precision).toList := by
    rw [List.mem_append, not_or]
    exact ⟨by decide, notMem_toString (by decide)⟩
  rw [spec.text_eq, ← List.append_assoc, findIdx?_append_cons hnot, List.length_append]
  rfl

/-- The closing bracket of a decimal stands behind its scale. -/
theorem DecimalSpec.findIdx?_paren (spec : DecimalSpec) :
    spec.text.findIdx? (· == ')') =
      some
        (8 +
        ((toString spec.precision).toList.length + (1 + (toString spec.scale).toList.length))) := by
  have hnot : ')' ∉ "decimal(".toList ++ ((toString spec.precision).toList ++
      ([','] ++ (toString spec.scale).toList)) := by
    rw [List.mem_append, List.mem_append, List.mem_append, not_or, not_or, not_or]
    exact ⟨by decide, notMem_toString (by decide), by decide, notMem_toString (by decide)⟩
  have hsplit : spec.text = ("decimal(".toList ++ ((toString spec.precision).toList ++
      ([','] ++ (toString spec.scale).toList))) ++ ')' :: [] := by
    rw [spec.text_eq]
    simp only [List.append_assoc, List.cons_append, List.nil_append]
  rw [hsplit, findIdx?_append_cons hnot, List.length_append, List.length_append, List.length_append]
  rfl

/-- What the two parsers cut out of it. -/
theorem DecimalSpec.cut (spec : DecimalSpec) :
    (spec.text.drop 8).take (toString spec.precision).toList.length =
      (toString spec.precision).toList ∧
      (spec.text.drop (8 + (toString spec.precision).toList.length + 1)).take
        (toString spec.scale).toList.length = (toString spec.scale).toList := by
  have hdrop : spec.text.drop 8 = (toString spec.precision).toList ++
      ',' :: ((toString spec.scale).toList ++ [')']) := by
    rw [spec.text_eq]
    exact List.drop_left' rfl
  constructor
  · rw [hdrop, List.take_left' rfl]
  · rw [Nat.add_assoc, ← List.drop_drop, hdrop, ← List.drop_drop, List.drop_left' rfl]
    exact List.take_left' rfl

/-- Both parsers cast the same two numbers. -/
theorem DecimalSpec.cast_eq (spec : DecimalSpec) (hcast : ReadsNumbers cast) :
    cast (String.ofList ((spec.text.drop 8).take (toString spec.precision).toList.length)) =
        .ok spec.precision ∧
      cast (String.ofList ((spec.text.drop (8 + (toString spec.precision).toList.length + 1)).take
        (toString spec.scale).toList.length)) = .ok spec.scale := by
  have hle := spec.precision_le
  have hscale := spec.scale_le
  rw [spec.cut.1, spec.cut.2, String.ofList_toList, String.ofList_toList]
  exact ⟨hcast _ (by omega), hcast _ (by omega)⟩

/-- A decimal that DuckDB has is read as itself: the numbers are cut out where they were printed. -/
theorem decimalFromText_text (hcast : ReadsNumbers cast) (spec : DecimalSpec) :
    decimalFromText cast spec.text = .ok (.decimal spec.precision spec.scale) := by
  obtain ⟨hprec, hscale⟩ := spec.cast_eq hcast
  rw [decimalFromText, spec.findIdx?_paren, spec.findIdx?_comma]
  generalize (toString spec.precision).toList.length = n at *
  generalize (toString spec.scale).toList.length = m at *
  have hn : 8 + n - 8 = n := by omega
  have hm : 8 + (n + (1 + m)) - (8 + n) - 1 = m := by omega
  simp only [hn, hm, if_pos (show 8 + n < 8 + (n + (1 + m)) by omega), hprec, hscale]
  exact LogicalType.DECIMAL_eq_ok.2 ⟨spec.precision_le, rfl⟩

/-- The reader of type texts comes to the decimals before anything else that has brackets. -/
theorem typeOfText_decimal (hcast : ReadsNumbers cast) (spec : DecimalSpec) :
    typeOfText cast spec.text = .ok (.decimal spec.precision spec.scale) := by
  have hvarchar : ("varchar(".toList.isPrefixOf spec.text ||
      "char(".toList.isPrefixOf spec.text) = false := rfl
  have hdecimal : "decimal(".toList.isPrefixOf spec.text = true := rfl
  have hfind : (sqlTypes.find? fun p => p.1.toList == spec.text) = none :=
    find?_sqlTypes_bracketed _ _ (by decide)
  rw [typeOfText, hfind]
  simp only [hvarchar, hdecimal, Bool.false_eq_true, if_false, if_true]
  exact decimalFromText_text hcast spec

/-- A child is cut at its first ':', which is the one behind its name. -/
theorem structChildren_cons {name : String} (h : ∀ c ∈ name.toList, isSeparator c = false)
    (type_text : List Char) (texts : List (List Char)) :
    structChildren cast ((name.toList ++ ':' :: type_text) :: texts) = do
      let child_type ← typeOfText cast type_text
      let children ← structChildren cast texts
      return (name, child_type) :: children := by
  have hcut : cutAt ':' (name.toList ++ ':' :: type_text) = some (name.toList, type_text) := by
    apply cutAt_append_cons
    intro hmem
    exact absurd (h _ hmem) (by decide)
  rw [structChildren]
  split <;> rename_i heq <;> rw [hcut] at heq
  · cases heq
  · obtain ⟨rfl, rfl⟩ := Prod.mk.inj (Option.some.inj heq)
    rw [String.ofList_toList]

mutual

/-- The text parser makes the type of every type text. -/
theorem DeltaType.typeOfText_typeText (hcast : ReadsNumbers cast) :
    ∀ t : DeltaType, typeOfText cast t.typeText = .ok t.logicalType
  | .primitive p => typeOfText_primitive p
  | .decimal spec => typeOfText_decimal hcast spec
  | .array element => by
    apply (typeOfText_array element.typeText).trans
    rw [element.typeOfText_typeText hcast]
    rfl
  | .map key value => by
    apply typeOfText_map
    rw [childTexts_comma key.passes, childTexts_of_passes value.passes]
    simp only [keyVal, key.typeOfText_typeText hcast, value.typeOfText_typeText hcast]
    rfl
  | .struct fields => by
    apply (typeOfText_struct fields.typeText).trans
    rw [fields.structChildren_typeText hcast]
    rfl

/-- The fields of a struct are read in order, each by its own text. The induction goes back and
forth with the one over types. -/
theorem DeltaFields.structChildren_typeText (hcast : ReadsNumbers cast) :
    ∀ fields : DeltaFields,
      structChildren cast (childTexts fields.typeText) = .ok (fields.childrenAs id)
  | .one name type => by
    have hpass : Passes 0 (name.1.toList ++ ':' :: type.typeText) :=
      (passes_of_plain name.2).append (type.passes.cons (by decide) fun d => by simp [nestedOpens])
    apply (congrArg (structChildren cast) (childTexts_of_passes hpass)).trans
    rw [structChildren_cons name.2, type.typeOfText_typeText hcast, structChildren]
    simp [DeltaFields.childrenAs, bind, Except.bind, pure, Except.pure]
  | .cons name type fields => by
    have hpass : Passes 0 (name.1.toList ++ ':' :: type.typeText) :=
      (passes_of_plain name.2).append (type.passes.cons (by decide) fun d => by simp [nestedOpens])
    apply (congrArg (structChildren cast) (childTexts_comma hpass fields.typeText)).trans
    rw [structChildren_cons name.2, type.typeOfText_typeText hcast,
      fields.structChildren_typeText hcast]
    simp [DeltaFields.childrenAs, bind, Except.bind, pure, Except.pure]

end

/-! ## The JSON parser -/

/-- Delta's name of a primitive type is read as the type that its SQL name is read as. -/
theorem primitiveFromDeltaName_primitive (p : Primitive) :
    primitiveFromDeltaName cast (cString p.deltaName) = .ok p.logicalType := by
  have hfind : (deltaPrimitives.find? fun q => q.1 == cString p.deltaName).map Prod.snd =
      some p.logicalType := by
    cases p <;> rfl
  obtain ⟨q, hq, hlogical⟩ := Option.map_eq_some_iff.1 hfind
  rw [primitiveFromDeltaName, hq]
  exact congrArg Except.ok hlogical

/-- A decimal's text has no zero byte, so that the C string is all of it. -/
theorem DecimalSpec.cString_text (spec : DecimalSpec) :
    cString (String.ofList spec.text) = String.ofList spec.text := by
  have hdigits (n : ℕ) : '\x00' ∉ (toString n).toList := by
    intro h
    exact absurd (isDigit_of_mem_toString h) (by decide)
  apply cString_eq_self.2
  intro hmem
  rw [String.toList_ofList, spec.text_eq, List.mem_append, List.mem_append, List.mem_cons,
    List.mem_append, List.mem_singleton] at hmem
  rcases hmem with h | h | h | h | h
  · exact absurd h (by decide)
  · exact hdigits _ h
  · exact absurd h (by decide)
  · exact hdigits _ h
  · exact absurd h (by decide)

/-- Delta writes decimals as SQL does. -/
theorem primitiveFromDeltaName_decimal (hcast : ReadsNumbers cast) (spec : DecimalSpec) :
    primitiveFromDeltaName cast (String.ofList spec.text) =
      .ok (.decimal spec.precision spec.scale) := by
  have hfind : (deltaPrimitives.find? fun p => p.1 == String.ofList spec.text) = none := by
    have hplain : ∀ p ∈ deltaPrimitives, '(' ∉ p.1.toList := by decide
    rw [List.find?_eq_none]
    intro p hp heq
    apply hplain p hp
    rw [beq_iff_eq.1 heq, String.toList_ofList]
    exact List.mem_append_right _ (List.mem_cons_self ..)
  have hdecimal : "decimal(".toList.isPrefixOf spec.text = true := rfl
  obtain ⟨hprec, hscale⟩ := spec.cast_eq hcast
  rw [primitiveFromDeltaName, hfind]
  simp only [String.toList_ofList, hdecimal, if_true, spec.findIdx?_paren, spec.findIdx?_comma]
  generalize (toString spec.precision).toList.length = n at *
  generalize (toString spec.scale).toList.length = m at *
  have hn : 8 + n - 8 = n := by omega
  have hm : 8 + (n + (1 + m)) - (8 + n) - 1 = m := by omega
  simp only [hn, hm, if_neg (show ¬ 8 + n > 8 + (n + (1 + m)) by omega), hprec, hscale]
  exact LogicalType.DECIMAL_eq_ok.2 ⟨spec.precision_le, rfl⟩

/-- What has a member is an object. -/
theorem eq_obj_of_objGet {v w : Val} {field : String} (h : objGet (some v) field = some w) :
    ∃ members, v = .obj members := by
  cases v with
  | obj members => exact ⟨members, rfl⟩
  | _ => cases h

/-- A text member is read up to its first NUL, as it goes through a C string. -/
theorem objectString_of_str {v : Val} {field s : String}
    (h : objGet (some v) field = some (.str s)) :
    objectString v field = some (cString s) := by
  rw [objectString, h]
  rfl

/-- The JSON of an array is read as the list of its element. -/
theorem typeFromJsonValue_array {v element_val : Val}
    (hkind : objGet (some v) "type" = some (.str "array"))
    (helement : objGet (some v) "elementType" = some element_val) :
    typeFromJsonValue cast v = do
      let child ← typeFromJsonValue cast element_val
      return .list child := by
  obtain ⟨members, rfl⟩ := eq_obj_of_objGet hkind
  have hstring : objectString (.obj members) "type" = some "array" := objectString_of_str hkind
  rw [typeFromJsonValue, hstring]
  simp only [if_neg (show "array" ≠ "struct" by decide), if_true]
  split <;> rename_i heq <;> rw [helement] at heq
  · cases heq
  · rw [← Option.some.inj heq]

/-- The JSON of a map is read as its key and its value. -/
theorem typeFromJsonValue_map {v key_val value_val : Val}
    (hkind : objGet (some v) "type" = some (.str "map"))
    (hkey : objGet (some v) "keyType" = some key_val)
    (hvalue : objGet (some v) "valueType" = some value_val) :
    typeFromJsonValue cast v = do
      let key ← typeFromJsonValue cast key_val
      let value ← typeFromJsonValue cast value_val
      return .map key value := by
  obtain ⟨members, rfl⟩ := eq_obj_of_objGet hkind
  have hstring : objectString (.obj members) "type" = some "map" := objectString_of_str hkind
  rw [typeFromJsonValue, hstring]
  simp only [if_neg (show "map" ≠ "struct" by decide), if_neg (show "map" ≠ "array" by decide),
    if_true]
  split <;> rename_i heq <;> rw [hkey] at heq
  · cases heq
  · rw [← Option.some.inj heq]
    refine congrArg _ (funext fun key => ?_)
    split <;> rename_i heq' <;> rw [hvalue] at heq'
    · cases heq'
    · rw [← Option.some.inj heq']

/-- The JSON of a struct is read as its fields, of which there is at least one. -/
theorem typeFromJsonValue_struct {v : Val} {field_vals : List Val} {c : String × LogicalType}
    {children : List (String × LogicalType)} (hkind : objGet (some v) "type" = some (.str "struct"))
    (hfields : objGet (some v) "fields" = some (.arr field_vals))
    (h : childrenFromJson cast field_vals = .ok (c :: children)) :
    typeFromJsonValue cast v = .ok (.struct (c :: children)) := by
  obtain ⟨members, rfl⟩ := eq_obj_of_objGet hkind
  have hstring : objectString (.obj members) "type" = some "struct" := objectString_of_str hkind
  rw [typeFromJsonValue, hstring]
  simp only [if_true]
  split <;> rename_i heq <;> rw [hfields] at heq
  · cases heq
  · have hitems : items (some _) = field_vals :=
      congrArg (fun v => items (some v)) (Option.some.inj heq).symm
    rw [hitems, h]
    rfl

/-- A field is read by its name and its type, and then the others. -/
theorem childrenFromJson_cons {v type_val : Val} {name : String}
    (hname : objGet (some v) "name" = some (.str name))
    (htype : objGet (some v) "type" = some type_val)
    (vs : List Val) :
    childrenFromJson cast (v :: vs) = do
      let type ← typeFromJsonValue cast type_val
      let children ← childrenFromJson cast vs
      return (cString name, type) :: children := by
  rw [childrenFromJson, objectString_of_str hname]
  simp only
  split <;> rename_i heq <;> rw [htype] at heq
  · cases heq
  · rw [← Option.some.inj heq]

/-- A struct has at least one field, which is where the reader of an empty list would throw. -/
theorem DeltaFields.childrenAs_ne_nil (read : String → String) (fields : DeltaFields) :
    ∃ c children, fields.childrenAs read = c :: children := by
  cases fields <;> exact ⟨_, _, rfl⟩

mutual

/-- The JSON parser makes the type of every value that writes it, with the names as C strings. -/
theorem Writes.typeFromJsonValue (hcast : ReadsNumbers cast) : ∀ {v : Val} {t : DeltaType},
    Writes v t → typeFromJsonValue cast v = .ok (t.logicalTypeAs cString)
  | _, _, .primitive p => by
    rw [UnityCatalog.typeFromJsonValue, primitiveFromDeltaName_primitive]
    rfl
  | _, _, .decimal spec => by
    rw [UnityCatalog.typeFromJsonValue, spec.cString_text, primitiveFromDeltaName_decimal hcast]
    rfl
  | _, _, .array hkind hget helement => by
    rw [typeFromJsonValue_array hkind hget, helement.typeFromJsonValue hcast]
    rfl
  | _, _, .map hkind hgetKey hkey hgetValue hvalue => by
    rw [typeFromJsonValue_map hkind hgetKey hgetValue, hkey.typeFromJsonValue hcast]
    show (do let value ← UnityCatalog.typeFromJsonValue cast _; _) = _
    rw [hvalue.typeFromJsonValue hcast]
    rfl
  | _, .struct fields, .struct hkind hget hfields => by
    obtain ⟨c, children, hchildren⟩ := fields.childrenAs_ne_nil cString
    rw [typeFromJsonValue_struct hkind hget
      ((hfields.childrenFromJson hcast).trans (by rw [hchildren])), DeltaType.logicalTypeAs,
      hchildren]

/-- The fields that a JSON list writes are read in order, with their names cut at a NUL. -/
theorem WritesFields.childrenFromJson (hcast : ReadsNumbers cast) :
    ∀ {vs : List Val} {fields : DeltaFields},
      WritesFields vs fields → childrenFromJson cast vs = .ok (fields.childrenAs cString)
  | _, _, .one hname hget htype => by
    rw [childrenFromJson_cons hname hget, htype.typeFromJsonValue hcast,
      UnityCatalog.childrenFromJson]
    rfl
  | _, _, .cons hname hget htype hfields => by
    rw [childrenFromJson_cons hname hget, htype.typeFromJsonValue hcast,
      hfields.childrenFromJson hcast]
    rfl

end

/-! ## Where they agree -/

mutual

/-- No field's name has a zero byte. -/
def DeltaType.NamesNulFree : DeltaType → Prop
  | .primitive _ | .decimal _ => True
  | .array element => element.NamesNulFree
  | .map key value => key.NamesNulFree ∧ value.NamesNulFree
  | .struct fields => fields.NamesNulFree

@[inherit_doc DeltaType.NamesNulFree]
def DeltaFields.NamesNulFree : DeltaFields → Prop
  | .one name type => NulFree name.1 ∧ type.NamesNulFree
  | .cons name type fields => NulFree name.1 ∧ type.NamesNulFree ∧ fields.NamesNulFree

end

mutual

/-- Names as C strings are the names exactly where none has a zero byte. -/
theorem DeltaType.logicalTypeAs_cString :
    ∀ t : DeltaType, t.logicalTypeAs cString = t.logicalType ↔ t.NamesNulFree
  | .primitive p => by simp [DeltaType.logicalTypeAs, DeltaType.NamesNulFree]
  | .decimal spec => by simp [DeltaType.logicalTypeAs, DeltaType.NamesNulFree]
  | .array element => by
    simpa [DeltaType.logicalTypeAs, DeltaType.NamesNulFree] using element.logicalTypeAs_cString
  | .map key value => by
    simpa [DeltaType.logicalTypeAs, DeltaType.NamesNulFree] using
      and_congr key.logicalTypeAs_cString value.logicalTypeAs_cString
  | .struct fields => by
    simpa [DeltaType.logicalTypeAs, DeltaType.NamesNulFree] using fields.childrenAs_cString

/-- The names are unchanged by the cut exactly if no name at any depth has a NUL. -/
theorem DeltaFields.childrenAs_cString :
    ∀ fields : DeltaFields, fields.childrenAs cString = fields.childrenAs id ↔ fields.NamesNulFree
  | .one name type => by
    have hname : cString name.1 = name.1 ↔ NulFree name.1 := cString_eq_self
    simpa [DeltaFields.childrenAs, DeltaFields.NamesNulFree] using
      and_congr hname type.logicalTypeAs_cString
  | .cons name type fields => by
    have hname : cString name.1 = name.1 ↔ NulFree name.1 := cString_eq_self
    simpa [DeltaFields.childrenAs, DeltaFields.NamesNulFree, and_assoc] using
      and_congr (and_congr hname type.logicalTypeAs_cString) fields.childrenAs_cString

end

/-- The parser of type texts reads a type's text as the type, for every tree. -/
theorem typeToLogicalType_typeText (hcast : ReadsNumbers cast) (t : DeltaType) :
    typeToLogicalType cast (String.ofList t.typeText) = .ok t.logicalType := by
  rw [typeToLogicalType, String.toList_ofList]
  exact t.typeOfText_typeText hcast

/-- The parser of type JSON reads the same tree, its names cut at a NUL. -/
theorem typeFromJson_of_isStructField (hcast : ReadsNumbers cast) {type_json : String}
    {t : DeltaType}
    (h : IsStructField type_json t) : typeFromJson cast type_json =
      .ok (t.logicalTypeAs cString) := by
  obtain ⟨root, type_val, hread, htype, hwrites⟩ := h
  rw [typeFromJson, hread]
  simp only [htype]
  exact hwrites.typeFromJsonValue hcast

/-- The two parsers make the type, its children in order and under their names, of its text and of
its JSON, exactly where no field's name has a zero byte. -/
theorem parsers_agree_iff (hcast : ReadsNumbers cast) {type_json : String} {t : DeltaType}
    (h : IsStructField type_json t) :
    (typeToLogicalType cast (String.ofList t.typeText) = .ok t.logicalType ∧
      typeFromJson cast type_json = .ok t.logicalType) ↔ t.NamesNulFree := by
  rw [typeFromJson_of_isStructField hcast h, ← t.logicalTypeAs_cString, Except.ok.injEq]
  exact and_iff_right (typeToLogicalType_typeText hcast t)

/-- A cast that reads the numbers below 2^8 as they are printed. -/
def castDigits : CastUint8 := fun s =>
  match (List.range (2 ^ 8)).find? fun n => toString n == s with
  | some n => .ok n
  | none => .error (invalidInputException ("Could not convert string '" ++ s ++ "' to UINT8"))

/-- A cast that reads digits reads printed numbers, which is what is asked of DuckDB's. -/
theorem readsNumbers_castDigits : ReadsNumbers castDigits := by
  intro n hn
  have hfind : (List.range (2 ^ 8)).find? (fun m => toString m == toString n) = some n := by
    apply List.find?_range_eq_some.2
    refine ⟨beq_self_eq_true _, List.mem_range.2 hn, fun m hm => ?_⟩
    rw [Bool.not_eq_true', beq_eq_false_iff_ne]
    intro heq
    exact hm.ne (toString_nat_inj (congrArg String.toList heq))
  rw [castDigits, hfind]

/-- What has a text is a text value. -/
theorem eq_str_of_getStr {v : Option Val} {s : String} (h : getStr v = some s) :
    v = some (.str s) := by
  match v, h with
  | some (.str _), h => rw [Option.some.inj h]

/-- The kind of a StructField's type, how many fields it has, and the first one's name and type. -/
def firstField (root : Option Val) : Option String × ℕ × Option String × Option String :=
  let type_val := objGet root "type"
  let fields := items (objGet type_val "fields")
  (getStr (objGet type_val "type"), fields.length, getStr (objGet fields.head? "name"),
    getStr (objGet fields.head? "type"))

/-- The JSON of a struct with one field whose type is a name. -/
theorem isStructField_of_one {type_json s : String} {name : FieldName} {t : DeltaType}
    (h : firstField (read type_json) = (some "struct", 1, some name.1, some s))
    (hwrites : Writes (.str s) t) : IsStructField type_json (.struct (.one name t)) := by
  obtain ⟨hkind, h⟩ := Prod.mk.inj h
  obtain ⟨hone, h⟩ := Prod.mk.inj h
  obtain ⟨hname, htype⟩ := Prod.mk.inj h
  match hread : read type_json, hkind, hone, hname, htype with
  | some root, hkind, hone, hname, htype =>
    match hget : objGet (some root) "type", hkind, hone, hname, htype with
    | some type_val, hkind, hone, hname, htype =>
      match hfields : objGet (some type_val) "fields", hone, hname, htype with
      | some (.arr [field]), _, hname, htype =>
        refine ⟨root, type_val, hread, hget, .struct (eq_str_of_getStr hkind) hfields ?_⟩
        exact .one (eq_str_of_getStr hname) (eq_str_of_getStr htype) hwrites

/-- The JSON of a column `c` of the type `struct<`name`:`type`>`, with the name and the type in
JSON. -/
def structJson (name type : String) : String :=
  String.ofList ("\x7b\"name\":\"c\",\"type\":\x7b\"type\":\"struct\",".toList ++
    "\"fields\":[\x7b\"name\":\"".toList ++ name.toList ++ "\",\"type\":\"".toList ++
    type.toList ++ "\",\"nullable\":true,\"metadata\":\x7b\x7d\x7d]\x7d,".toList ++
    "\"nullable\":true\x7d".toList)

/-- What it says. -/
def structRoot (name type : String) : Val :=
  .obj [("name", .str "c"), ("type", .obj [("type", .str "struct"), ("fields", .arr [.obj
    [("name", .str name), ("type", .str type), ("nullable", .bool true), ("metadata", .obj [])]])]),
    ("nullable", .bool true)]

def amount : FieldName := ⟨"amount", plain_of_all (by decide)⟩

def nulName : FieldName := ⟨"a\x00b", plain_of_all (by decide)⟩

def amountSpec : DecimalSpec := ⟨10, 2, by decide, by decide, by decide⟩

def amountStruct : DeltaType := .struct (.one amount (.decimal amountSpec))

def nulNameStruct : DeltaType := .struct (.one nulName (.primitive .integer))

theorem isStructField_amount :
    IsStructField (structJson "amount" "decimal(10,2)") amountStruct := by
  have hread : read (structJson "amount" "decimal(10,2)") =
      some (structRoot "amount" "decimal(10,2)") := read_ofList (by decide +kernel)
  exact isStructField_of_one (by rw [hread]; rfl) (.decimal amountSpec)

theorem isStructField_nulName :
    IsStructField (structJson "a\\u0000b" "integer") nulNameStruct := by
  have hread : read (structJson "a\\u0000b" "integer") = some (structRoot "a\x00b" "integer") :=
    read_ofList (by decide +kernel)
  exact isStructField_of_one (by rw [hread]; rfl) (.primitive .integer)

/-- A decimal in a struct. -/
theorem parsers_agree_on_amount :
    typeToLogicalType castDigits (String.ofList amountStruct.typeText) =
      .ok amountStruct.logicalType ∧
      typeFromJson castDigits (structJson "amount" "decimal(10,2)") =
        .ok amountStruct.logicalType :=
  (parsers_agree_iff readsNumbers_castDigits isStructField_amount).2
    ⟨show '\x00' ∉ "amount".toList by decide, trivial⟩

/-- The JSON parser ends a name at its zero byte, and the text parser does not. -/
theorem nulName_is_cut : IsStructField (structJson "a\\u0000b" "integer") nulNameStruct ∧
    typeToLogicalType castDigits (String.ofList nulNameStruct.typeText) =
      .ok (.struct [("a\x00b", .integer)]) ∧
    typeFromJson castDigits (structJson "a\\u0000b" "integer") = .ok (.struct [("a", .integer)]) ∧
    LogicalType.struct [("a\x00b", .integer)] ≠ .struct [("a", .integer)] := by
  refine ⟨isStructField_nulName, typeToLogicalType_typeText readsNumbers_castDigits nulNameStruct,
    typeFromJson_of_isStructField readsNumbers_castDigits isStructField_nulName, ?_⟩
  intro h
  simp at h

end

end UnityCatalog
