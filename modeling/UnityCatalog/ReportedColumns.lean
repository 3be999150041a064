import UnityCatalog.ColumnTypes
import UnityCatalog.TableSet
import UnityCatalog.TableVersion
import UnityCatalog.TypeGrammar
import Mathlib.Data.List.Nodup

/-!
# The columns a listing reports

`LoadEntries` makes an entry of each table Unity Catalog lists: its columns in the order of their
positions, each of the type its definition names. A definition that cannot be read does not hide the
table; its column is of type UNKNOWN and is remembered, so that a read that would bind it is
refused. What does end the load is a table without a name, and one of which two columns have the
same name: that is `ColumnList`'s check, and it does not look at case. The loop of `TableSet` asks
for these as operations; here they are answered.
-/

namespace UnityCatalog

open Effectful Yyjson

/-! ## From the definitions -/

section

variable (cast : CastUint8)

/-- `UCUtils::ColumnTypeFromDefinition` -/
def columnTypeFromDefinition (column : UCAPIColumnDefinition) : Except Exception LogicalType :=
  if column.type_json = "" then typeToLogicalType cast column.type_text
  else typeFromJson cast column.type_json

/-- `CreateColumnDefinition`, with what it adds to `unreadable`. -/
def createColumnDefinition (coldef : UCAPIColumnDefinition) :
    ColumnDefinition × List (String × String) :=
  match columnTypeFromDefinition cast coldef with
  | .ok type => (⟨coldef.name, type⟩, [])
  | .error _ => (⟨coldef.name, .unknown⟩, [(coldef.name, coldef.type_text)])

/-- The columns of an entry. -/
def createColumns (columns : List UCAPIColumnDefinition) : List ColumnDefinition :=
  columns.map fun coldef => (createColumnDefinition cast coldef).1

/-- The columns that cannot be read. -/
def unreadableColumns (columns : List UCAPIColumnDefinition) : List (String × String) :=
  columns.flatMap fun coldef => (createColumnDefinition cast coldef).2

/-- What `LoadEntries` stores of a listed table that it does not refuse; its columns are sorted in
place. -/
def UCAPITable.describe (table : UCAPITable) (catalog_name : String) (read_only : Bool)
    (credentials : UCCredentials) (schema_name : String) : TableInformation where
  catalog_name
  read_only
  credentials
  schema_name
  table_data := { table with columns := orderedColumns table.columns }
  reported := some ⟨table.name, createColumns cast (orderedColumns table.columns)⟩
  unreadable_columns := unreadableColumns cast (orderedColumns table.columns)

end

/-! ## The order of the columns -/

/-- The order of two columns. -/
abbrev positionLe (left right : UCAPIColumnDefinition) : Bool := left.position ≤ right.position

theorem positionLe_trans (a b c : UCAPIColumnDefinition) (hab : positionLe a b = true)
    (hbc : positionLe b c = true) : positionLe a c = true :=
  decide_eq_true (le_trans (of_decide_eq_true hab) (of_decide_eq_true hbc))

theorem positionLe_total (a b : UCAPIColumnDefinition) : (positionLe a b || positionLe b a) =
    true := by
  rcases le_total a.position b.position with h | h <;> simp [h]

theorem orderedColumns_perm (columns : List UCAPIColumnDefinition) :
    (orderedColumns columns).Perm columns :=
  List.mergeSort_perm columns positionLe

theorem orderedColumns_pairwise (columns : List UCAPIColumnDefinition) :
    (orderedColumns columns).Pairwise fun left right => left.position ≤ right.position :=
  (List.pairwise_mergeSort positionLe_trans positionLe_total columns).imp fun h =>
    of_decide_eq_true h

/-- Columns that share a position keep the order they are listed in. -/
theorem orderedColumns_stable {columns some_columns : List UCAPIColumnDefinition}
    (hsub : some_columns.Sublist columns)
    (hle : some_columns.Pairwise fun left right => left.position ≤ right.position) :
    some_columns.Sublist (orderedColumns columns) :=
  List.sublist_mergeSort positionLe_trans positionLe_total (hle.imp fun h => decide_eq_true h) hsub

/-- Where no two columns share a position, the order they are listed in makes no difference. -/
theorem orderedColumns_of_perm {columns columns' : List UCAPIColumnDefinition}
    (hperm : columns.Perm columns')
    (hdistinct : (columns.map UCAPIColumnDefinition.position).Nodup) :
    orderedColumns columns = orderedColumns columns' := by
  have hp : (orderedColumns columns).Perm (orderedColumns columns') :=
    (orderedColumns_perm columns).trans (hperm.trans (orderedColumns_perm columns').symm)
  have hone (left right : UCAPIColumnDefinition) (hleft : left ∈ orderedColumns columns)
      (hright : right ∈ orderedColumns columns') (hle : left.position ≤ right.position)
      (hge : right.position ≤ left.position) : left = right := by
    have hleft' : left ∈ columns := (orderedColumns_perm columns).subset hleft
    have hright' : right ∈ columns :=
      hperm.symm.subset ((orderedColumns_perm columns').subset hright)
    exact List.inj_on_of_nodup_map hdistinct hleft' hright' (le_antisymm hle hge)
  exact hp.eq_of_pairwise hone (orderedColumns_pairwise columns) (orderedColumns_pairwise columns')

/-- Those of one position are the listed ones of it, in the order they are listed in. -/
theorem orderedColumns_filter (columns : List UCAPIColumnDefinition) (position : ℕ) :
    (orderedColumns columns).filter (fun column => column.position = position) =
      columns.filter fun column => column.position = position := by
  have hle : (columns.filter fun column => column.position = position).Pairwise
      fun left right => left.position ≤ right.position := by
    refine List.pairwise_of_forall_mem_list fun left hl right hr => ?_
    simp only [List.mem_filter, decide_eq_true_eq] at hl hr
    rw [hl.2, hr.2]
  have hsub := (orderedColumns_stable List.filter_sublist hle).filter fun column =>
    column.position = position
  rw [List.filter_filter] at hsub
  simp only [Bool.and_self] at hsub
  -- the two are as long as each other
  exact (hsub.eq_of_length ((orderedColumns_perm columns).filter _).length_eq.symm).symm

/-! ## What is reported of a table -/

section

variable (cast : CastUint8)

/-- The definition cannot be read. -/
def unreadable (column : UCAPIColumnDefinition) : Bool :=
    !(columnTypeFromDefinition cast column).toBool

/-- The column of an entry: of the type it is defined as, or UNKNOWN. -/
def reportedColumn (column : UCAPIColumnDefinition) : ColumnDefinition :=
  ⟨column.name, (columnTypeFromDefinition cast column).toOption.getD .unknown⟩

/-- The refusal of a table with columns that cannot be read, of which this is the first. -/
def unreadableTable (table_name : String) (count : ℕ) (first : UCAPIColumnDefinition) : Exception :=
  notImplementedException ("Table '" ++ table_name ++ "' has " ++ toString count ++
    " column(s) with a type this build cannot read; the first is '" ++ first.name ++
    "', which Unity Catalog reports as '" ++ first.type_text ++ "'")

variable {cast}

theorem createColumns_eq (columns : List UCAPIColumnDefinition) :
    createColumns cast columns = columns.map (reportedColumn cast) := by
  refine List.map_congr_left fun column _ => ?_
  rw [createColumnDefinition, reportedColumn]
  cases columnTypeFromDefinition cast column <;> rfl

theorem unreadableColumns_cons (column : UCAPIColumnDefinition)
    (columns : List UCAPIColumnDefinition) :
    unreadableColumns cast (column :: columns) =
      (if unreadable cast column then [(column.name, column.type_text)] else []) ++
        unreadableColumns cast columns := by
  rw [unreadableColumns, List.flatMap_cons, createColumnDefinition, unreadable]
  cases columnTypeFromDefinition cast column <;> rfl

/-- The columns that are remembered are those that cannot be read, in order. -/
theorem unreadableColumns_eq (columns : List UCAPIColumnDefinition) :
    unreadableColumns cast columns =
      (columns.filter (unreadable cast)).map fun column => (column.name, column.type_text) := by
  induction columns with
  | nil => rfl
  | cons column columns ih =>
    rw [unreadableColumns_cons, ih, List.filter_cons]
    cases unreadable cast column <;> simp

/-- A read is let through, or refused for the first column that cannot be read. -/
theorem throwIfUnreadableColumns_cases {info : TableInformation}
    {columns : List UCAPIColumnDefinition}
    (h : info.unreadable_columns = unreadableColumns cast columns) :
    (∀ column ∈ columns, unreadable cast column = false) ∧ info.throwIfUnreadableColumns = .ok () ∨
      ∃ before first behind, columns = before ++ first :: behind ∧
        (∀ column ∈ before, unreadable cast column = false) ∧ unreadable cast first = true ∧
        info.throwIfUnreadableColumns = .error (unreadableTable info.table_data.name
          (columns.countP (unreadable cast)) first) := by
  rw [unreadableColumns_eq] at h
  have hcount : info.unreadable_columns.length = columns.countP (unreadable cast) := by
    rw [h, List.length_map, List.countP_eq_length_filter]
  rcases hfirst : columns.find? (unreadable cast) with _ | first
  · left
    have hall : ∀ column ∈ columns, unreadable cast column = false := by simpa using hfirst
    have hnone : info.unreadable_columns = [] := by
      rw [h, List.map_eq_nil_iff, List.filter_eq_nil_iff]
      simpa using hall
    rw [TableInformation.throwIfUnreadableColumns, hnone]
    exact ⟨hall, rfl⟩
  · right
    obtain ⟨hunreadable, before, behind, rfl, hbefore⟩ := List.find?_eq_some_iff_append.1 hfirst
    have hreadable : ∀ column ∈ before, unreadable cast column = false := by simpa using hbefore
    refine ⟨before, first, behind, rfl, hreadable, hunreadable, ?_⟩
    have hfilter : before.filter (unreadable cast) = [] := by simpa using hreadable
    rw [List.filter_append, hfilter, List.nil_append, List.filter_cons_of_pos hunreadable,
      List.map_cons] at h
    rw [TableInformation.throwIfUnreadableColumns, ← hcount, h]
    rfl

end

/-! ## The load of a schema -/

/-- `ColumnList::AddColumn` for each column, where these names are there: it throws for a name that
is there already, in any case. -/
def addEach (names : List String) : List UCAPIColumnDefinition → Except Exception Unit
  | [] => .ok ()
  | column :: columns =>
    if lower column.name ∈ names then
      .error (catalogException ("Column with name " ++ column.name ++ " already exists!"))
    else addEach (lower column.name :: names) columns

/-- `LoadEntries` on one schema of a catalog. -/
structure TableListing where
  cast : CastUint8
  catalog_name : String
  read_only : Bool
  credentials : UCCredentials
  schema_name : String

namespace TableListing

/-- What it makes of a table. -/
def describe (listing : TableListing) (table : UCAPITable) : TableInformation :=
  table.describe listing.cast listing.catalog_name listing.read_only listing.credentials
    listing.schema_name

/-- The entry of the name, in any case. -/
def entry (entries : List TableInformation) (name : String) : Option TableInformation :=
  entries.find? fun info => lower info.table_data.name == lower name

/-- How the columns and the entries of the set answer the loop of `LoadEntries`. -/
def answer (listing : TableListing) (entries : List TableInformation) :
    (op : Op) → Except Exception op.Ans × List TableInformation
  | .addColumns columns => (addEach [] columns, entries)
  | .emplaceTable table =>
    (.ok (), if (entry entries table.name).isSome then entries
      else entries ++ [listing.describe table])
  | _ => (.error (internalException "not asked"), entries)

/-- The set's world. -/
abbrev Entries (listing : TableListing) : World Client Exception := Prog.det listing.answer

end TableListing

/-- A table that `LoadEntries` takes: it has a name, and no two of its columns have one name. -/
structure UCAPITable.Loadable (table : UCAPITable) : Prop where
  columns : (table.columns.map fun column => lower column.name).Nodup
  named : table.name ≠ ""

/-- What a table is refused with. -/
def UCAPITable.refusal (table : UCAPITable) : Exception :=
  match addEach [] (orderedColumns table.columns) with
  | .ok _ => internalException "UCTableSet::CreateEntry called with empty name"
  | .error e => e

theorem addEach_eq_ok {names : List String} {columns : List UCAPIColumnDefinition} :
    addEach names columns = .ok () ↔ (columns.map fun column => lower column.name).Nodup ∧
      ∀ column ∈ columns, lower column.name ∉ names := by
  induction columns generalizing names with
  | nil => simp [addEach]
  | cons column columns ih =>
    rw [addEach]
    split_ifs with hmem
    · simp [hmem]
    · rw [ih, List.map_cons, List.nodup_cons]
      simp only [List.mem_cons, not_or, List.mem_map, not_exists, not_and, forall_eq_or_imp]
      constructor
      · rintro ⟨hnodup, hnot⟩
        exact ⟨⟨fun c hc => (hnot c hc).1, hnodup⟩, hmem, fun c hc => (hnot c hc).2⟩
      · rintro ⟨⟨hne, hnodup⟩, -, hnot⟩
        exact ⟨hnodup, fun c hc => ⟨hne c hc, hnot c hc⟩⟩

/-- The order the columns are added in makes no difference to whether they can be. -/
theorem addEach_orderedColumns {columns : List UCAPIColumnDefinition} :
    addEach [] (orderedColumns columns) = .ok () ↔
      (columns.map fun column => lower column.name).Nodup := by
  rw [addEach_eq_ok, ((orderedColumns_perm columns).map _).nodup_iff]
  simp

/-- The columns that are refused are told by the first of them whose name was there. -/
theorem addEach_eq_error {names : List String} {columns : List UCAPIColumnDefinition}
    {e : Exception}
    (h : addEach names columns = .error e) :
      ∃ before column behind, columns = before ++ column :: behind ∧
      (before.map fun c => lower c.name).Nodup ∧ (∀ c ∈ before, lower c.name ∉ names) ∧
      (lower column.name ∈ names ∨ ∃ c ∈ before, lower c.name = lower column.name) ∧
      e = catalogException ("Column with name " ++ column.name ++ " already exists!") := by
  induction columns generalizing names with
  | nil => cases h
  | cons column columns ih =>
    rw [addEach] at h
    split_ifs at h with hmem
    · exact ⟨[], column, columns, rfl, List.nodup_nil,
        by simp, .inl hmem, (Except.error.inj h).symm⟩
    · obtain ⟨before, repeated, behind, rfl, hnodup, hnot, hrepeated, rfl⟩ := ih h
      refine ⟨column :: before, repeated, behind, rfl, ?_, ?_, ?_, rfl⟩
      · refine List.nodup_cons.2 ⟨fun hm => ?_, hnodup⟩
        obtain ⟨c, hc, heq⟩ := List.mem_map.1 hm
        exact hnot c hc (List.mem_cons.2 (.inl heq))
      · intro c hc
        rcases List.mem_cons.1 hc with rfl | hc
        · exact hmem
        · exact fun hm => hnot c hc (List.mem_cons_of_mem _ hm)
      · rcases hrepeated with hm | ⟨c, hc, heq⟩
        · rcases List.mem_cons.1 hm with heq | hm
          · exact .inr ⟨column, List.mem_cons_self, heq.symm⟩
          · exact .inl hm
        · exact .inr ⟨c, List.mem_cons_of_mem _ hc, heq⟩

/-- What is reported of a table: its columns, by position, each of its type or UNKNOWN, and a read
refused for the first that is UNKNOWN. -/
def Reports (cast : CastUint8) (table : UCAPITable) (info : TableInformation) : Prop :=
  ∃ columns : List UCAPIColumnDefinition, columns.Perm table.columns ∧
    (columns.Pairwise fun left right => left.position ≤ right.position) ∧
    (∀ position : ℕ, columns.filter (fun column => column.position = position) =
      table.columns.filter fun column => column.position = position) ∧
    info.reported = some ⟨table.name, columns.map (reportedColumn cast)⟩ ∧
    ((∀ column ∈ columns, unreadable cast column = false) ∧ info.throwIfUnreadableColumns = .ok () ∨
      ∃ before first behind, columns = before ++ first :: behind ∧
        (∀ column ∈ before, unreadable cast column = false) ∧ unreadable cast first = true ∧
        info.throwIfUnreadableColumns =
          .error (unreadableTable table.name (columns.countP (unreadable cast)) first))

namespace TableListing

variable (listing : TableListing)

theorem reports_describe (table : UCAPITable) :
    Reports listing.cast table (listing.describe table) := by
  refine ⟨orderedColumns table.columns, orderedColumns_perm _, orderedColumns_pairwise _,
    orderedColumns_filter _, ?_, throwIfUnreadableColumns_cases rfl⟩
  exact congrArg (fun columns => some (UCTableEntry.mk table.name columns)) (createColumns_eq _)

/-- Where no two columns share a position, the order they are listed in makes no difference. -/
theorem describe_of_perm {table : UCAPITable} {columns : List UCAPIColumnDefinition}
    (hdistinct : (table.columns.map UCAPIColumnDefinition.position).Nodup)
    (hperm : table.columns.Perm columns) :
    listing.describe { table with columns } = listing.describe table := by
  have hordered : orderedColumns table.columns = orderedColumns columns :=
    orderedColumns_of_perm hperm hdistinct
  simp only [describe, UCAPITable.describe, hordered]

variable {listing} {table : UCAPITable} {tables : List UCAPITable} {entries : List TableInformation}

/-- A table that is taken has an entry, and the loop goes on. -/
theorem eval_loadTables_cons (h : table.Loadable) :
    (loadTables (table :: tables)).eval listing.answer entries =
      (loadTables tables).eval listing.answer
        (if (entry entries table.name).isSome then entries
          else entries ++ [listing.describe table]) := by
  have hadd : addEach [] (orderedColumns table.columns) = .ok () :=
    addEach_orderedColumns.2 h.columns
  simp only [loadTables, addColumns, emplaceTable, Prog.bind_eq, Prog.perform, Prog.call_bind,
    Prog.eval, answer, hadd, Prog.ret_bind, if_neg h.named]

/-- A table that is refused ends it. -/
theorem eval_loadTables_refused (h : ¬ table.Loadable) :
    (loadTables (table :: tables)).eval listing.answer entries =
      (.error table.refusal, entries) := by
  simp only [loadTables, addColumns, Prog.bind_eq, Prog.perform, Prog.call_bind, Prog.eval, answer]
  rw [UCAPITable.refusal]
  rcases hadd : addEach [] (orderedColumns table.columns) with e | u
  · rfl
  · have hname : table.name = "" := by
      by_contra hne
      exact h ⟨addEach_orderedColumns.1 hadd, hne⟩
    simp only [Prog.ret_bind, if_pos hname]
    rfl

theorem entry_congr {name name' : String} (h : lower name = lower name') :
    entry entries name = entry entries name' := by
  rw [entry, entry, h]

/-- One entry more. -/
theorem entry_append {info : TableInformation} {name : String} :
    entry (entries ++ [info]) name = none ↔
      entry entries name = none ∧ lower info.table_data.name ≠ lower name := by
  rw [entry, entry, List.find?_append, Option.or_eq_none_iff, List.find?_singleton]
  simp

/-- An entry stays when others are added. -/
theorem isSome_entry_append {added : List TableInformation} {name : String}
    (h : (entry entries name).isSome = true) : (entry (entries ++ added) name).isSome = true := by
  rw [entry, List.find?_append, Option.isSome_or]
  exact Bool.or_eq_true_iff.2 (.inl h)

end TableListing

/-- How a table is refused: for the first column, by position, that has the name of one before it,
or for its own name. -/
def Refuses (table : UCAPITable) (e : Exception) : Prop :=
  (∃ columns before column behind, columns.Perm table.columns ∧
    (columns.Pairwise fun left right => left.position ≤ right.position) ∧
    columns = before ++ column :: behind ∧ (before.map fun c => lower c.name).Nodup ∧
    (∃ c ∈ before, lower c.name = lower column.name) ∧
    e = catalogException ("Column with name " ++ column.name ++ " already exists!")) ∨
  (table.columns.map fun column => lower column.name).Nodup ∧ table.name = "" ∧
    e = internalException "UCTableSet::CreateEntry called with empty name"

theorem UCAPITable.refuses_refusal {table : UCAPITable} (h : ¬ table.Loadable) :
    Refuses table table.refusal := by
  rw [refusal]
  rcases hadd : addEach [] (orderedColumns table.columns) with e | u
  · left
    obtain ⟨before, column, behind, hcolumns, hnodup, -, hrepeated, rfl⟩ := addEach_eq_error hadd
    have hrepeated := hrepeated.resolve_left List.not_mem_nil
    exact ⟨_, before, column, behind, orderedColumns_perm _, orderedColumns_pairwise _, hcolumns,
      hnodup, hrepeated, rfl⟩
  · right
    have hnodup := addEach_orderedColumns.1 hadd
    exact ⟨hnodup, by_contra fun hne => h ⟨hnodup, hne⟩, rfl⟩

/-- What `LoadEntries` comes to, from the entries there are, for the tables that are listed. -/
structure TableListing.Loaded (listing : TableListing) (tables : List UCAPITable)
    (entries entries' : List TableInformation) (r : Except Exception Unit) : Prop where
  /-- the entries that are there stay, and each new one reports the first listed table of its
  name -/
  added : ∃ added, entries' = entries ++ added ∧ ∀ info ∈ added, ∃ before table behind,
    tables = before ++ table :: behind ∧ (∀ t ∈ before, lower t.name ≠ lower table.name) ∧
    entry entries table.name = none ∧ info.table_data.name = table.name ∧
      Reports listing.cast table info
  /-- a load that succeeds has an entry for each table -/
  complete : r = .ok () → ∀ table ∈ tables, table.Loadable ∧
    (entry entries' table.name).isSome = true
  /-- and one that fails has one for each before the first table that is refused -/
  refused : ∀ e, r = .error e → ∃ before table behind, tables = before ++ table :: behind ∧
    (∀ t ∈ before, t.Loadable ∧ (entry entries' t.name).isSome = true) ∧ Refuses table e

namespace TableListing

variable {listing : TableListing} {table : UCAPITable} {tables : List UCAPITable}
  {entries entries' : List TableInformation} {r : Except Exception Unit}

theorem loaded_nil (entries : List TableInformation) :
    listing.Loaded [] entries entries (.ok ()) where
  added := ⟨[], by simp, by simp⟩
  complete := by simp
  refused := nofun

theorem loaded_refused (h : ¬ table.Loadable) :
    listing.Loaded (table :: tables) entries entries (.error table.refusal) where
  added := ⟨[], by simp, by simp⟩
  complete := nofun
  refused e he := by
    obtain rfl := Except.error.inj he
    exact ⟨[], table, tables, rfl, by simp, table.refuses_refusal h⟩

/-- The table's name has an entry already, and the table is left out. -/
theorem Loaded.skip (hload : table.Loadable) (hentry : (entry entries table.name).isSome = true)
    (h : listing.Loaded tables entries entries' r) :
      listing.Loaded (table :: tables) entries entries' r := by
  obtain ⟨added, rfl, hadded⟩ := h.added
  have hstays : (entry (entries ++ added) table.name).isSome = true := isSome_entry_append hentry
  refine ⟨⟨added, rfl, fun info hinfo => ?_⟩, fun hok t ht => ?_, fun e he => ?_⟩
  · obtain ⟨before, first, behind, rfl, hfirst, hnone, hname, hreports⟩ := hadded info hinfo
    refine ⟨table :: before, first, behind, rfl, fun t ht heq => ?_, hnone, hname, hreports⟩
    rcases List.mem_cons.1 ht with rfl | ht
    · rw [entry_congr heq, hnone] at hentry
      cases hentry
    · exact hfirst t ht heq
  · rcases List.mem_cons.1 ht with rfl | ht
    · exact ⟨hload, hstays⟩
    · exact h.complete hok t ht
  · obtain ⟨before, refused, behind, rfl, hbefore, hrefuses⟩ := h.refused e he
    refine ⟨table :: before, refused, behind, rfl, fun t ht => ?_, hrefuses⟩
    rcases List.mem_cons.1 ht with rfl | ht
    · exact ⟨hload, hstays⟩
    · exact hbefore t ht

/-- It has none, and gets one. -/
theorem Loaded.emplace (hload : table.Loadable) (hentry : entry entries table.name = none)
    (h : listing.Loaded tables (entries ++ [listing.describe table]) entries' r) :
    listing.Loaded (table :: tables) entries entries' r := by
  obtain ⟨added, rfl, hadded⟩ := h.added
  have hstays : (entry (entries ++ [listing.describe table] ++ added) table.name).isSome =
      true := by
    refine isSome_entry_append (Option.isSome_iff_ne_none.2 fun hnone => ?_)
    exact (entry_append.1 hnone).2 rfl
  refine ⟨⟨listing.describe table :: added, by simp, fun info hinfo => ?_⟩, fun hok t ht => ?_,
    fun e he => ?_⟩
  · rcases List.mem_cons.1 hinfo with rfl | hinfo
    · exact ⟨[], table, tables, rfl, by simp, hentry, rfl, listing.reports_describe table⟩
    obtain ⟨before, first, behind, rfl, hfirst, hnone, hname, hreports⟩ := hadded info hinfo
    obtain ⟨hnone, hne⟩ := entry_append.1 hnone
    refine ⟨table :: before, first, behind, rfl, fun t ht heq => ?_, hnone, hname, hreports⟩
    rcases List.mem_cons.1 ht with rfl | ht
    · exact hne heq
    · exact hfirst t ht heq
  · rcases List.mem_cons.1 ht with rfl | ht
    · exact ⟨hload, hstays⟩
    · exact h.complete hok t ht
  · obtain ⟨before, refused, behind, rfl, hbefore, hrefuses⟩ := h.refused e he
    refine ⟨table :: before, refused, behind, rfl, fun t ht => ?_, hrefuses⟩
    rcases List.mem_cons.1 ht with rfl | ht
    · exact ⟨hload, hstays⟩
    · exact hbefore t ht

/-- By induction on the tables that are left. -/
theorem loaded_of_eval (h : (loadTables tables).eval listing.answer entries = (r, entries')) :
    listing.Loaded tables entries entries' r := by
  induction tables generalizing entries with
  | nil =>
    obtain ⟨rfl, rfl⟩ := Prod.mk.inj h
    exact loaded_nil entries
  | cons table tables ih =>
    by_cases hload : table.Loadable
    · rw [eval_loadTables_cons hload] at h
      split_ifs at h with hentry
      · exact (ih h).skip hload hentry
      · exact (ih h).emplace hload (Option.not_isSome_iff_eq_none.1 hentry)
    · rw [eval_loadTables_refused hload] at h
      obtain ⟨rfl, rfl⟩ := Prod.mk.inj h
      exact loaded_refused hload

end TableListing

/-- **What is reported of the listed tables.** Whatever entries there are and whatever Unity Catalog
lists, the loop of `LoadEntries` gives each name without an entry one, for the first table of that
name, and stops at the first table it refuses. The columns that are reported are those listed, by
position, and in the order they are listed in where they share one; each is of the type its
definition names, or UNKNOWN. A read is refused exactly where one of them is UNKNOWN, for the first
of these. Where no two share a position, the order they are listed in makes no difference. -/
theorem listed_columns (listing : TableListing) (tables : List UCAPITable)
    (entries : List TableInformation) :
    (∃ r entries', (loadTables tables).Exec (W := listing.Entries) () entries r entries') ∧
    (∀ r entries', (loadTables tables).Exec (W := listing.Entries) () entries r entries' →
      listing.Loaded tables entries entries' r) ∧
    ∀ (table : UCAPITable) (columns : List UCAPIColumnDefinition),
      (table.columns.map UCAPIColumnDefinition.position).Nodup → table.columns.Perm columns →
        listing.describe { table with columns } = listing.describe table :=
  ⟨⟨_, _, Prog.exec_det.2 rfl⟩, fun _ _ h => TableListing.loaded_of_eval (Prog.exec_det.1 h),
    fun _ _ hdistinct hperm => listing.describe_of_perm hdistinct hperm⟩

/-! ### A column of a type that is too wide, and a table that is refused -/

/-- A decimal that no physical type holds. -/
def wideColumn : UCAPIColumnDefinition where
  name := "price"
  type_text := "decimal(50,2)"
  position := 1

/-- Listed behind its `id`, in the other order. -/
def wideTable : UCAPITable where
  table_id := "id"
  name := "wide"
  catalog_name := "c"
  schema_name := "s"
  storage_location := "/wide"
  columns := [wideColumn, { name := "id", type_text := "int" }]

/-- Two columns that differ in case only. -/
def twiceTable : UCAPITable :=
  { wideTable with
    name := "twice"
    columns := [{ name := "a", type_text := "int" }, { name := "A", type_text := "int" }] }

def wideListing : TableListing :=
    ⟨castNumeral, "c", false, { endpoint := "uc", token := "token" }, "s"⟩

theorem columnType_wide : columnTypeFromDefinition castNumeral wideColumn =
    .error (internalException
      "Decimal has a width of 50 which is bigger than the maximum supported width of 38") := by
  have htext : wideColumn.type_text.toList = "decimal(".toList ++ "50,2)".toList := rfl
  have hjson : wideColumn.type_json = "" := rfl
  rw [columnTypeFromDefinition, if_pos hjson, typeToLogicalType, htext, typeOfText_decimal_append]
  rfl

theorem orderedColumns_sorted {columns : List UCAPIColumnDefinition}
    (h : columns.Pairwise fun left right => left.position ≤ right.position) :
      orderedColumns columns = columns :=
  List.mergeSort_of_pairwise (h.imp fun hle => decide_eq_true hle)

theorem orderedColumns_wide :
    orderedColumns wideTable.columns = [{ name := "id", type_text := "int" }, wideColumn] := by
  have hperm : wideTable.columns.Perm [{ name := "id", type_text := "int" }, wideColumn] := .swap ..
  rw [orderedColumns_of_perm hperm (by decide)]
  exact orderedColumns_sorted (by decide)

theorem refusal_twice :
    twiceTable.refusal = catalogException "Column with name A already exists!" := by
  rw [UCAPITable.refusal, orderedColumns_sorted (by decide)]
  decide +kernel

/-- The first table is there and its read refused; the second ends the load. -/
theorem listed_columns_wide : ∃ entries', wideListing.Loaded [wideTable, twiceTable] [] entries'
      (.error (catalogException "Column with name A already exists!")) ∧
    entries'.map (fun info => info.throwIfUnreadableColumns) =
      [.error (unreadableTable "wide" 1 wideColumn)] := by
  have hwide : wideTable.Loadable := ⟨by decide, by decide⟩
  have htwice : ¬ twiceTable.Loadable := fun h => absurd h.columns (by decide)
  have heval : (loadTables [wideTable, twiceTable]).eval wideListing.answer [] =
      (.error (catalogException "Column with name A already exists!"),
        [wideListing.describe wideTable]) := by
    rw [TableListing.eval_loadTables_cons hwide, TableListing.eval_loadTables_refused htwice,
      refusal_twice]
    rfl
  refine ⟨_, (listed_columns wideListing _ _).2.1 _ _ (Prog.exec_det.2 heval), ?_⟩
  have hcolumns : (wideListing.describe wideTable).unreadable_columns =
      [("price", "decimal(50,2)")] := by
    have hid : columnTypeFromDefinition castNumeral { name := "id", type_text := "int" } =
        .ok .integer :=
      typeOfText_name (p := ("int", .integer)) (by simp [sqlTypes])
    show unreadableColumns castNumeral (orderedColumns wideTable.columns) = _
    rw [orderedColumns_wide]
    simp only [unreadableColumns, List.flatMap_cons, createColumnDefinition, hid, columnType_wide]
    rfl
  rw [List.map_singleton, TableInformation.throwIfUnreadableColumns, hcolumns]
  rfl

end UnityCatalog
