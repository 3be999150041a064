import UnityCatalog.Joined
import UnityCatalog.TableVersion

/-!
# Interval columns

`ThrowIfIntervalColumns` asks whether a column's type text has "interval " with a unit behind it
anywhere. A type text is a type tree printed flat, and the names of struct fields stand in it as
they are: under column mapping a name may have spaces, and say the same. `intervals_refused_iff`
compares the search with the tree.
-/

namespace UnityCatalog

open Effectful

/-! ## Type trees -/

/-- A field of an interval. -/
inductive IntervalField where
  | year | month | day | hour | minute | second
  deriving DecidableEq

namespace IntervalField

/-- Its word. -/
def text : IntervalField → String
  | year => "year"
  | month => "month"
  | day => "day"
  | hour => "hour"
  | minute => "minute"
  | second => "second"

/-- Its place among the fields, the longest first. -/
def rank : IntervalField → ℕ
  | year => 0
  | month => 1
  | day => 2
  | hour => 3
  | minute => 4
  | second => 5

/-- Whether it counts months, and not microseconds. -/
def countsMonths (f : IntervalField) : Bool := f.rank ≤ 1

end IntervalField

/-- A year-month or a day-time interval, from a field to a field. -/
structure IntervalType where
  first : IntervalField
  last : IntervalField
  ordered : first.rank ≤ last.rank
  /-- months and microseconds do not mix -/
  alike : first.countsMonths = last.countsMonths

/-- `interval day`, or `interval day to second` -/
def IntervalType.text (i : IntervalType) : String :=
  "interval " ++ i.first.text ++ if i.first = i.last then "" else " to " ++ i.last.text

mutual

/-- A type. The names of fields are arbitrary. -/
inductive SqlType where
  /-- a type that is printed in words, with what is in its parentheses, none of them `interval` with
  another behind it: `int`, `decimal(10,2)`, `string collate UTF8_LCASE` -/
  | word (text : {text : String // ¬ "interval ".toList <:+: text.toList.map Char.toLower})
  | interval (i : IntervalType)
  | array (element : SqlType)
  | map (key value : SqlType)
  | struct (fields : SqlFields)

/-- A struct's fields, at least one. -/
inductive SqlFields where
  | one (name : String) (type : SqlType)
  | cons (name : String) (type : SqlType) (fields : SqlFields)

end

mutual

/-- The printed form. -/
def SqlType.text : SqlType → List Char
  | .word text => text.val.toList
  | .interval i => i.text.toList
  | .array element => "array".toList ++ '<' :: (element.text ++ ['>'])
  | .map key value => "map".toList ++ '<' :: (key.text ++ ',' :: (value.text ++ ['>']))
  | .struct fields => "struct".toList ++ '<' :: (fields.text ++ ['>'])

def SqlFields.text : SqlFields → List Char
  | .one name type => name.toList ++ ':' :: type.text
  | .cons name type fields => name.toList ++ ':' :: (type.text ++ ',' :: fields.text)

end

mutual

/-- Some type in the tree is an interval type. -/
def SqlType.HasInterval : SqlType → Prop
  | .word _ => False
  | .interval _ => True
  | .array element => element.HasInterval
  | .map key value => key.HasInterval ∨ value.HasInterval
  | .struct fields => fields.HasInterval

def SqlFields.HasInterval : SqlFields → Prop
  | .one _ type => type.HasInterval
  | .cons _ type fields => type.HasInterval ∨ fields.HasInterval

end

mutual

/-- The names in the tree. -/
def SqlType.names : SqlType → List String
  | .word _ => []
  | .interval _ => []
  | .array element => element.names
  | .map key value => key.names ++ value.names
  | .struct fields => fields.names

def SqlFields.names : SqlFields → List String
  | .one name type => name :: type.names
  | .cons name type fields => name :: (type.names ++ fields.names)

end

/-- A type text prints a type, in any letter case. -/
def Prints (type_text : String) (t : SqlType) : Prop :=
  lower type_text = lower (String.ofList t.text)

/-! ## The search -/

/-- A text that speaks of an interval: in any letter case, the word, a space and a unit. -/
def SaysInterval (text : List Char) : Prop :=
  ∃ unit ∈ intervalUnits, ("interval " ++ unit).toList <:+: text.map Char.toLower

instance decidableSaysInterval (text : List Char) : Decidable (SaysInterval text) :=
  List.decidableBEx (p := fun unit => ("interval " ++ unit).toList <:+: text.map Char.toLower)
    intervalUnits

/-- The search finds such a text. -/
theorem typeTextHasInterval_iff (type_text : String) :
    typeTextHasInterval type_text = true ↔ SaysInterval type_text.toList := by
  have hlower : (lower type_text).toList = type_text.toList.map Char.toLower := String.toList_ofList
  rw [typeTextHasInterval, hlower, List.any_eq_true, SaysInterval]
  generalize type_text.toList.map Char.toLower = text
  constructor
  · rintro ⟨tail, htail, hfound⟩
    obtain ⟨hpre, hunit⟩ := Bool.and_eq_true_iff.1 hfound
    obtain ⟨rest, rfl⟩ := List.isPrefixOf_iff_prefix.1 hpre
    obtain ⟨unit, hmem, hunit⟩ := List.any_eq_true.1 hunit
    have hrest : unit.toList <+: rest := List.isPrefixOf_iff_prefix.1 hunit
    refine ⟨unit, hmem, ?_⟩
    rw [String.toList_append]
    exact ((List.prefix_append_right_inj _).2 hrest).isInfix.trans
      ((List.mem_tails _ _).1 htail).isInfix
  · rintro ⟨unit, hmem, hwithin⟩
    rw [String.toList_append] at hwithin
    obtain ⟨tail, hpre, htail⟩ := List.infix_iff_prefix_suffix.1 hwithin
    obtain ⟨rest, rfl⟩ := hpre
    refine ⟨_, (List.mem_tails _ _).2 htail, ?_⟩
    rw [List.append_assoc]
    refine Bool.and_eq_true_iff.2 ⟨List.isPrefixOf_iff_prefix.2 (List.prefix_append _ _), ?_⟩
    refine List.any_eq_true.2 ⟨unit, hmem, List.isPrefixOf_iff_prefix.2 ?_⟩
    exact List.prefix_append _ _

/-- What is found has no separator in it. -/
theorem saysInterval_cut {sep : Char} (h : sep ∈ ['<', '>', ',', ':']) (a b : List Char) :
    SaysInterval (a ++ sep :: b) ↔ SaysInterval a ∨ SaysInterval b := by
  have hsep : sep.toLower = sep ∧ ∀ unit ∈ intervalUnits, sep ∉ ("interval " ++ unit).toList := by
    simp only [List.mem_cons, List.not_mem_nil, or_false] at h
    obtain rfl | rfl | rfl | rfl := h <;> exact ⟨by decide, by decide⟩
  simp only [SaysInterval, List.map_append, List.map_cons, hsep.1]
  constructor
  · rintro ⟨unit, hmem, hfound⟩
    exact ((Joined.infix_append_cons_iff (hsep.2 unit hmem)).1 hfound).imp (⟨unit, hmem, ·⟩)
      (⟨unit, hmem, ·⟩)
  · rintro (⟨unit, hmem, hfound⟩ | ⟨unit, hmem, hfound⟩)
    · exact ⟨unit, hmem, (Joined.infix_append_cons_iff (hsep.2 unit hmem)).2 (.inl hfound)⟩
    · exact ⟨unit, hmem, (Joined.infix_append_cons_iff (hsep.2 unit hmem)).2 (.inr hfound)⟩

theorem not_saysInterval_nil : ¬ SaysInterval [] := by decide

theorem saysInterval_bracketed {word : String} (h : ¬ SaysInterval word.toList)
    (inner : List Char) :
    SaysInterval (word.toList ++ '<' :: (inner ++ ['>'])) ↔ SaysInterval inner := by
  rw [saysInterval_cut (by decide), saysInterval_cut (by decide), or_iff_right h,
    or_iff_left not_saysInterval_nil]

/-- Without the word, and a space behind it, nothing is said of an interval. -/
theorem not_saysInterval_word {text : List Char}
    (h : ¬ "interval ".toList <:+: text.map Char.toLower) : ¬ SaysInterval text := by
  rintro ⟨unit, -, hfound⟩
  rw [String.toList_append] at hfound
  exact h ((List.prefix_append _ _).isInfix.trans hfound)

theorem saysInterval_interval (i : IntervalType) : SaysInterval i.text.toList := by
  have hlower : ∀ f : IntervalField, f.text ∈ intervalUnits ∧
      ("interval " ++ f.text).toList.map Char.toLower = ("interval " ++ f.text).toList := by
    intro f
    cases f <;> decide
  obtain ⟨hmem, hsame⟩ := hlower i.first
  refine ⟨i.first.text, hmem, ?_⟩
  obtain ⟨rest, hrest⟩ : ∃ rest, i.text = "interval " ++ i.first.text ++ rest := ⟨_, rfl⟩
  rw [hrest, String.toList_append (s := "interval " ++ i.first.text), List.map_append, hsame]
  exact List.infix_append_left

mutual

/-- What the search finds in a printed type: an interval type, or a name that says the same. -/
theorem SqlType.saysInterval_iff (t : SqlType) :
    SaysInterval t.text ↔ t.HasInterval ∨ ∃ name ∈ t.names, SaysInterval name.toList := by
  cases t with
  | word text =>
    simp [SqlType.text, SqlType.HasInterval, SqlType.names, not_saysInterval_word text.property]
  | interval i => simp [SqlType.text, SqlType.HasInterval, saysInterval_interval i]
  | array element =>
    rw [SqlType.text, saysInterval_bracketed (by decide), SqlType.saysInterval_iff element]
    rfl
  | map key value =>
    rw [SqlType.text, saysInterval_cut (by decide), or_iff_right (by decide),
      saysInterval_cut (by decide), saysInterval_cut (by decide), or_iff_left not_saysInterval_nil,
      SqlType.saysInterval_iff key,
      SqlType.saysInterval_iff value, SqlType.HasInterval, SqlType.names]
    simp only [List.mem_append, or_and_right, exists_or]
    exact or_or_or_comm
  | struct fields =>
    rw [SqlType.text, saysInterval_bracketed (by decide), SqlFields.saysInterval_iff fields]
    rfl

theorem SqlFields.saysInterval_iff (fields : SqlFields) :
    SaysInterval fields.text ↔ fields.HasInterval ∨ ∃ name ∈ fields.names,
      SaysInterval name.toList := by
  cases fields with
  | one name type =>
    rw [SqlFields.text, saysInterval_cut (by decide), SqlType.saysInterval_iff type,
      SqlFields.HasInterval, SqlFields.names]
    simp only [List.mem_cons, or_and_right, exists_or, exists_eq_left]
    exact or_left_comm
  | cons name type fields =>
    rw [SqlFields.text, saysInterval_cut (by decide), saysInterval_cut (by decide),
      SqlType.saysInterval_iff type, SqlFields.saysInterval_iff fields, SqlFields.HasInterval,
      SqlFields.names]
    simp only [List.mem_cons, List.mem_append, or_and_right, exists_or, exists_eq_left]
    exact (or_congr_right or_or_or_comm).trans or_left_comm

end

/-- The search in a type text. -/
theorem Prints.typeTextHasInterval_iff {type_text : String} {t : SqlType} (h : Prints type_text t) :
    typeTextHasInterval type_text = true ↔ t.HasInterval ∨ ∃ name ∈ t.names,
      SaysInterval name.toList := by
  have hsame : type_text.toList.map Char.toLower = t.text.map Char.toLower := by
    rw [← String.ofList_inj, ← lower, h, lower, String.toList_ofList]
  rw [UnityCatalog.typeTextHasInterval_iff, SaysInterval, hsame, ← SaysInterval, t.saysInterval_iff]

/-! ## Reads -/

namespace TableInformation

/-- The columns are those of the trees. -/
def PrintsColumns (t : TableInformation) (trees : List SqlType) : Prop :=
  List.Forall₂ (fun column tree => Prints column.type_text tree) t.table_data.columns trees

/-- A read meets the error that the table has for its intervals, with or without an AT clause,
before anything else happens. -/
def Refused (t : TableInformation) : Prop :=
  ∀ (W : World Client Exception) (c : W.Ctx) (at_clause : Option BoundAtClause) (s s' : W.State)
    (r : Except Exception UCTableEntry), (t.getVersion at_clause).Exec c s r s' →
      ∃ e, t.throwIfIntervalColumns = .error e ∧ r = .error e ∧ s' = s

/-- Reads are refused for intervals exactly where there is one. -/
structure RefusesExactly (t : TableInformation) (trees : List SqlType) : Prop where
  throws_iff : (∃ e, t.throwIfIntervalColumns = .error e) ↔ ∃ tree ∈ trees, tree.HasInterval
  refused : (∃ tree ∈ trees, tree.HasInterval) → t.Refused

variable {t : TableInformation} {trees : List SqlType}

theorem throwIfIntervalColumns_error_iff : (∃ e, t.throwIfIntervalColumns = .error e) ↔
    ∃ column ∈ t.table_data.columns, typeTextHasInterval column.type_text = true := by
  rw [throwIfIntervalColumns, ← List.find?_isSome]
  generalize t.table_data.columns.find? (fun column => typeTextHasInterval column.type_text) = found
  cases found with
  | some column => exact iff_of_true ⟨_, rfl⟩ rfl
  | none =>
    refine iff_of_false ?_ Bool.false_ne_true
    rintro ⟨e, he⟩
    cases he

/-- What the table is refused for: an interval type, or a name. -/
theorem PrintsColumns.throws_iff (h : t.PrintsColumns trees) :
    (∃ e, t.throwIfIntervalColumns = .error e) ↔
      (∃ tree ∈ trees, tree.HasInterval) ∨ ∃ tree ∈ trees, ∃ name ∈ tree.names,
        SaysInterval name.toList := by
  rw [throwIfIntervalColumns_error_iff]
  rw [PrintsColumns] at h
  generalize t.table_data.columns = columns at h
  induction h with
  | nil => simp
  | @cons column tree columns trees hprints _ ih =>
    simp only [List.mem_cons, or_and_right, exists_or, exists_eq_left]
    rw [ih, hprints.typeTextHasInterval_iff]
    exact or_or_or_comm

/-- `GetVersion` asks first. -/
theorem refused_of_throws {e : Exception} (h : t.throwIfIntervalColumns = .error e) :
    t.Refused := by
  intro W c at_clause s s' r hexec
  rw [getVersion_eq, h] at hexec
  obtain ⟨rfl, rfl⟩ := hexec
  exact ⟨e, h, rfl, rfl⟩

/-- **A table is refused for its intervals exactly where it has one, unless a field's name reads
like one.** -/
theorem intervals_refused_iff (h : t.PrintsColumns trees) : t.RefusesExactly trees ↔
    (∃ tree ∈ trees, tree.HasInterval) ∨ ∀ tree ∈ trees, ∀ name ∈ tree.names,
      ¬ SaysInterval name.toList := by
  have hthrows := h.throws_iff
  constructor
  · intro hexact
    by_cases hinterval : ∃ tree ∈ trees, tree.HasInterval
    · exact .inl hinterval
    · refine .inr fun tree htree name hname hsays => hinterval ?_
      exact hexact.throws_iff.1 (hthrows.2 (.inr ⟨tree, htree, name, hname, hsays⟩))
  · intro hcond
    constructor
    · rw [hthrows]
      refine or_iff_left_of_imp ?_
      rintro ⟨tree, htree, name, hname, hsays⟩
      exact hcond.resolve_right fun hnone => hnone tree htree name hname hsays
    · intro hinterval
      obtain ⟨e, he⟩ := hthrows.2 (.inl hinterval)
      exact refused_of_throws he

end TableInformation

/-! ### A name -/

/-- A struct with one field, of integers. -/
def structOf (name : String) : SqlType := .struct (.one name (.word ⟨"int", by decide⟩))

/-- A table with one column. -/
def structTable (type_text : String) : TableInformation where
  catalog_name := "uc"
  read_only := false
  credentials := { endpoint := "http://uc", token := "" }
  schema_name := "s"
  table_data :=
    { table_id := "id", name := "t", catalog_name := "c", schema_name := "s"
      storage_location := "file:///t", columns := [{ name := "v", type_text }] }

theorem structTable_prints :
    (structTable "Struct<interval:INT>").PrintsColumns [structOf "Interval"] := by
  have hprints : Prints "Struct<interval:INT>" (structOf "Interval") := by
    rw [Prints]
    decide
  exact .cons hprints .nil

/-- A name that does not go on with a unit does no harm. -/
theorem structTable_is_read :
    (structTable "Struct<interval:INT>").RefusesExactly [structOf "Interval"] :=
  (TableInformation.intervals_refused_iff structTable_prints).2 (.inr (by decide))

/-- A struct of integers is taken for an interval, by the name of its field. -/
theorem name_is_taken_for_interval :
    (structTable "struct<interval days:int>").PrintsColumns [structOf "interval days"] ∧
    ¬ (∃ tree ∈ [structOf "interval days"], tree.HasInterval) ∧
    (structTable "struct<interval days:int>").throwIfIntervalColumns =
      .error (notImplementedException ("Table 't' has interval column 'v', which Unity Catalog " ++
        "reports as 'struct<interval days:int>'; " ++
        "Delta interval semantics differ from DuckDB's INTERVAL")) := by
  have hprints : Prints "struct<interval days:int>" (structOf "interval days") := by
    rw [Prints]
    decide
  refine ⟨.cons hprints .nil, ?_, by decide +kernel⟩
  rintro ⟨tree, htree, hinterval⟩
  obtain rfl := List.mem_singleton.1 htree
  exact hinterval

end UnityCatalog
