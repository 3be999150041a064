import UnityCatalog.Joined
import UnityCatalog.TableInformation
import UnityCatalog.Threads

/-!
# The names of internal databases

Every table of an attached catalog has a Delta database of its own, attached under a name that joins
the catalog's name, the schema's and the table's with underscores. The names live in DuckDB's one
name space of databases, which does not look at case.

`AttachedTables.apart_iff` says for which sets of tables these names, and so the databases, stay
apart.
-/

namespace UnityCatalog

open Effectful

/-! ## Identifiers -/

/-- What two texts that name one identifier agree on: an `Identifier` does not look at case. -/
def identifier (s : String) : List Char := s.toList.map Char.toLower

/-- Names are compared without case, character by character. -/
theorem identifier_append (a b : String) : identifier (a ++ b) = identifier a ++ identifier b := by
  rw [identifier, String.toList_append, List.map_append]
  rfl

theorem identifier_underscore : identifier "_" = ['_'] := by decide

/-- The name under which a table is attached, cut at its last separator but one. -/
theorem identifier_joined (a b c d : String) :
    identifier (a ++ b ++ "_" ++ c ++ "_" ++ d) =
      identifier (a ++ b ++ "_") ++ (identifier c ++ '_' :: identifier d) := by
  rw [identifier_append, identifier_append, identifier_append, identifier_underscore,
    List.append_assoc, List.append_assoc, List.singleton_append]

/-- The operations on a transaction's entries. -/
def Op.IsTableEntry : Op → Prop
  | .getTableEntry _ => True
  | .setTableEntry _ _ => True
  | _ => False

namespace TableInformation

/-- The schema and the name of the table, as identifiers. -/
def parts (t : TableInformation) : List Char × List Char :=
  (identifier t.table_data.schema_name, identifier t.table_data.name)

/-- One table's schema is the other's, an underscore and a text; the other's name is that text, an
underscore and the one's name. -/
def Straddles (t t' : TableInformation) : Prop :=
  Joined.Straddle '_' t.parts.1 t.parts.2 t'.parts.1 t'.parts.2

/-- The part of the name that tables of one catalog share, and the two that tell them apart. -/
theorem identifier_attachedCatalogName (t : TableInformation) :
    identifier t.attachedCatalogName =
      identifier ("__unity_catalog_internal_" ++ t.catalog_name ++ "_") ++
        (t.parts.1 ++ '_' :: t.parts.2) :=
  identifier_joined ..

/-- **The names of two tables of one catalog** are one exactly where the tables are, or straddle. -/
theorem attachedCatalogName_eq_iff {t t' : TableInformation}
    (h : t.catalog_name = t'.catalog_name) :
    identifier t.attachedCatalogName = identifier t'.attachedCatalogName ↔
      t.parts = t'.parts ∨ t.Straddles t' := by
  rw [identifier_attachedCatalogName, identifier_attachedCatalogName, h]
  rw [List.append_cancel_left_eq, Joined.append_cons_eq_iff, Prod.ext_iff]
  rfl

/-! ## What a table asks of the database manager -/

/-- Databases are attached and detached under the table's own name only. -/
def OwnName (t : TableInformation) : Op → Prop
  | .attachDatabase info => info.name = t.attachedCatalogName
  | .detachDatabase name => name = t.attachedCatalogName
  | _ => True

/-- The operations of an attach: nothing is asked of the transaction's entries. -/
def Attaching (t : TableInformation) (op : Op) : Prop := t.OwnName op ∧ ¬ op.IsTableEntry

/-- The operations an attach is made of. -/
def AttachStep (t : TableInformation) : Op → Prop
  | .ensureHttpfs | .issue _ | .answer => True
  | .lockAttach | .unlockAttach | .isDirty | .setDirty _ | .attached | .setAttached _ => True
  | .readCommitState | .updateCommitState _ | .tryGetTransaction _ => True
  | .attachDatabase info => info.name = t.attachedCatalogName
  | .detachDatabase name => name = t.attachedCatalogName
  | op => op.IsFile

/-- The steps of an attach go to the name of the table itself. -/
theorem attaching_of_attachStep {t : TableInformation} {op : Op} (h : t.AttachStep op) :
    t.Attaching op := by
  cases op <;> first | exact ⟨h, id⟩ | exact ⟨trivial, id⟩ | exact h.elim

/-- The lock adds nothing to what is asked for under it. -/
theorem uses_withAttachLock {t : TableInformation} {α : Type} {p : Run α}
    (hp : p.Uses t.AttachStep) :
    (withAttachLock p).Uses t.AttachStep := by
  refine (Prog.uses_perform trivial).bind fun _ => ?_
  refine Prog.Uses.bind (hp.tryCatch fun e => ?_) fun a => ?_
  · exact (Prog.uses_perform trivial).bind fun _ => trivial
  · exact (Prog.uses_perform trivial).bind fun _ => trivial

/-- A detach asks for the one name. -/
theorem uses_internalDetach (t : TableInformation) : t.internalDetach.Uses t.AttachStep := by
  have hdetach : (detachDatabase t.attachedCatalogName).Uses t.AttachStep := Prog.uses_perform rfl
  refine (Prog.uses_perform trivial).bind fun db => ?_
  split
  · exact hdetach.bind fun _ => Prog.uses_perform trivial
  · trivial

/-- Loading the commits asks for none. -/
theorem uses_loadCommits (t : TableInformation) : t.loadCommits.Uses t.AttachStep := by
  refine Prog.Uses.bind ?_ fun commits => ?_
  · rw [loadTable, UCAPI.loadTable_eq]
    refine (Prog.uses_perform trivial).bind fun _ => (Prog.uses_perform trivial).bind fun _ => ?_
    exact (Prog.uses_perform trivial).bind fun resp => Prog.uses_ofExcept _
  · refine (Prog.uses_perform trivial).bind fun state => Prog.Uses.bind ?_ fun wm => ?_
    · rw [newWatermark]
      split
      · trivial
      · refine (t.uses_backfillLoop _ _).mono fun op hop => ?_
        cases op <;> first | exact trivial | exact hop.elim
    · exact (Prog.uses_perform trivial).bind fun _ => trivial

/-- Attaching asks for the one name, with what was loaded. -/
theorem uses_attachFresh (t : TableInformation) : t.attachFresh.Uses t.AttachStep := by
  have hattach : ∀ managed, (attachDatabase (t.attachInfo managed)).Uses t.AttachStep :=
    fun managed => Prog.uses_perform rfl
  refine Prog.Uses.bind ?_ fun managed => ?_
  · rw [loadManaged]
    split
    · exact t.uses_loadCommits.bind fun _ => trivial
    · trivial
  · exact (hattach managed).bind fun _ => Prog.uses_perform trivial

/-- So `InternalAttach` asks for the one name, whichever way it goes. -/
theorem uses_internalAttach_steps (t : TableInformation) : t.internalAttach.Uses t.AttachStep := by
  refine uses_withAttachLock (Prog.Uses.bind ?_ fun read => ?_)
  · refine (Prog.uses_perform trivial).bind fun db => ?_
    cases db with
    | some db => exact Prog.uses_perform trivial
    | none => trivial
  · have htail : (attached.bind fun db =>
        if db.isSome then pure () else t.attachFresh).Uses t.AttachStep := by
      refine (Prog.uses_perform trivial).bind fun db => ?_
      split
      · trivial
      · exact t.uses_attachFresh
    refine (Prog.uses_perform trivial).bind fun dirty => ?_
    split
    · exact t.uses_internalDetach.bind fun _ => (Prog.uses_perform trivial).bind fun _ => htail
    · exact htail

/-- And every operation of it is one on the table's own name. -/
theorem uses_internalAttach (t : TableInformation) : t.internalAttach.Uses t.Attaching :=
  t.uses_internalAttach_steps.mono fun _ => attaching_of_attachStep

end TableInformation

/-! ## The tables of one catalog -/

/-- Distinct tables of one attached catalog. -/
structure AttachedTables where
  Table : Type
  decidableTable : DecidableEq Table
  table : Table → TableInformation
  catalog : ∀ i j, (table i).catalog_name = (table j).catalog_name
  distinct : ∀ i j, i ≠ j → (table i).parts ≠ (table j).parts

/-- What each table's `TableInformation` holds, and the databases DuckDB has attached for them. -/
structure DatabaseState (Table : Type) where
  /-- the thread that holds a table's `attach_lock` -/
  holder : Table → Option ℕ := fun _ => none
  is_dirty : Table → Bool := fun _ => false
  attached : Table → Option AttachedDatabase := fun _ => none
  commit_state : Table → UCCommitState := fun _ => {}
  /-- by name, each with the table it was attached for -/
  databases : List (List Char × Table × AttachedDatabase) := []
  next : AttachedDatabase := 0
  /-- attaches that were refused, each with the table whose database has the name -/
  refused : List (Table × Table) := []
  /-- databases that were detached, by whom and whose -/
  removed : List (Table × Table) := []

/-- What the surroundings may do with an operation. -/
inductive DatabaseChoice where
  | proceed
  | fail (e : Exception)
  | flag (b : Bool)
  | respond (resp : HttpResponse)
  | size (n : ℕ)
  | bytes (b : Bytes)

/-- What else happens to the databases. -/
inductive DatabaseEnv (Table : Type) where
  /-- a commit marks a table dirty -/
  | commit (i : Table)
  /-- the statement that attached a table's database rolls back, and DuckDB undoes the attach -/
  | undo (i : Table)

namespace AttachedTables

variable (T : AttachedTables)

instance : DecidableEq T.Table := T.decidableTable

/-- What a call of the catalog asks for. -/
inductive Request (Table : Type) where
  | internalAttach (i : Table)
  /-- the entries of the table set, in the order of its map -/
  | onDetach (entries : List Table)

/-- `UCTableSet::OnDetach` -/
def onDetach : List T.Table → Prog (Client.indexed T.Table) Exception Unit
  | [] => .ret ()
  | i :: entries =>
    ((withAttachLock (T.table i).internalDetach).on i).bind fun _ => onDetach entries

/-- The program of a call. -/
def program : Request T.Table → Prog (Client.indexed T.Table) Exception Unit
  | .internalAttach i => (T.table i).internalAttach.on i
  | .onDetach entries => T.onDetach entries

/-- The name of a table's database. -/
def name (i : T.Table) : List Char := identifier (T.table i).attachedCatalogName

/-- The operations of one table. UC and the file system answer whatever they like. -/
def databaseAnswer (thread : ℕ) (s : DatabaseState T.Table) (i : T.Table) :
    (op : Op) → DatabaseChoice → Option (Except Exception op.Ans × DatabaseState T.Table)
  | .lockAttach, .proceed =>
    if s.holder i = none then
      some (.ok (), { s with holder := Function.update s.holder i (some thread) })
    else none
  | .unlockAttach, .proceed => some (.ok (), { s with holder := Function.update s.holder i none })
  | .isDirty, .proceed => some (.ok (s.is_dirty i), s)
  | .setDirty b, .proceed => some (.ok (), { s with is_dirty := Function.update s.is_dirty i b })
  | .attached, .proceed => some (.ok (s.attached i), s)
  | .setAttached db, .proceed =>
    some (.ok (), { s with attached := Function.update s.attached i db })
  | .readCommitState, .proceed => some (.ok (s.commit_state i), s)
  | .updateCommitState f, .proceed =>
    some (.ok (),
      { s with commit_state := Function.update s.commit_state i (f (s.commit_state i)) })
  | .tryGetTransaction _, .flag b => some (.ok b, s)
  | .attachDatabase info, .proceed =>
    match s.databases.find? fun x => x.1 == identifier info.name with
    | some (_, j, _) =>
      some
        (.error (binderException ("Failed to attach database: database with name \"" ++ info.name ++
        "\" already exists")), { s with refused := (i, j) :: s.refused })
    | none => some (.ok s.next, { s with
        databases := (identifier info.name, i, s.next) :: s.databases, next := s.next + 1 })
  | .attachDatabase _, .fail e => some (.error e, s)
  | .detachDatabase name, .proceed =>
    some (.ok (), { s with
      databases := s.databases.filter fun x => x.1 != identifier name
      removed := ((s.databases.filter fun x => x.1 == identifier name).map fun x => (i, x.2.1)) ++
        s.removed })
  | .detachDatabase _, .fail e => some (.error e, s)
  | .ensureHttpfs, .proceed => some (.ok (), s)
  | .issue _, .proceed => some (.ok (), s)
  | .answer, .respond resp => some (.ok resp, s)
  | .answer, .fail e => some (.error e, s)
  | .openRead _, .size n => some (.ok n, s)
  | .openRead _, .fail e => some (.error e, s)
  | .openExclusive _, .flag b => some (.ok b, s)
  | .openExclusive _, .fail e => some (.error e, s)
  | .readFile _ _, .bytes b => some (.ok b, s)
  | .readFile _ _, .fail e => some (.error e, s)
  | .writeFile _ _, .proceed => some (.ok (), s)
  | .writeFile _ _, .fail e => some (.error e, s)
  | .closeFile _, .proceed => some (.ok (), s)
  | .closeFile _, .fail e => some (.error e, s)
  | _, _ => none

/-- The threads of a session at the tables of one catalog. -/
def attaches : Pool (Client.indexed T.Table) Exception Unit where
  Ctx := ℕ
  State := DatabaseState T.Table
  Choice := DatabaseChoice
  answer thread s op ch := T.databaseAnswer thread s op.1 op.2 ch
  Call := Request T.Table
  start s _ call := some (T.program call, s)
  finish s _ _ := s
  Env := DatabaseEnv T.Table
  env s
    | .commit i =>
      if s.holder i = none then some { s with is_dirty := Function.update s.is_dirty i true }
        else none
    | .undo i => some { s with databases := s.databases.filter fun x => x.2.1 != i }
  init s := s = {}

instance : DecidableEq T.attaches.Ctx := inferInstanceAs (DecidableEq ℕ)

/-- The names of distinct tables differ. -/
def NamesDiffer : Prop := ∀ i j, i ≠ j → T.name i ≠ T.name j

/-- No attach was refused because of another table's database, and none was detached for another. -/
def KeepsApart (s : DatabaseState T.Table) : Prop :=
  (∀ x ∈ s.refused, x.2 = x.1) ∧ ∀ x ∈ s.removed, x.2 = x.1

/-- No two of the tables straddle. -/
def Unstraddled : Prop := ∀ i j, i ≠ j → ¬ (T.table i).Straddles (T.table j)

/-- Different tables have different names exactly if no two straddle. -/
theorem namesDiffer_iff : T.NamesDiffer ↔ T.Unstraddled := by
  constructor
  · intro h i j hij hs
    exact h i j hij ((TableInformation.attachedCatalogName_eq_iff (T.catalog i j)).2 (.inr hs))
  · intro h i j hij heq
    rcases (TableInformation.attachedCatalogName_eq_iff (T.catalog i j)).1 heq with hp | hs
    · exact T.distinct i j hij hp
    · exact h i j hij hs

/-! ## Every run -/

/-- What holds in every state where the names differ: a database has its table's name. -/
structure DatabaseInv (s : DatabaseState T.Table) : Prop where
  named : ∀ x ∈ s.databases, x.1 = T.name x.2.1
  apart : T.KeepsApart s

/-- No thread relies on anything of the others. -/
def keeping : Outline T.attaches where
  guard := ⟨fun _ _ _ _ => True, fun _ _ => True⟩
  inv := T.DatabaseInv
  rely _ _ _ := True
  rely_refl _ _ := trivial
  rely_trans _ _ _ _ _ _ := trivial

variable {T} {s s' : DatabaseState T.Table}

/-- The invariant is about the databases and what was refused and removed. -/
theorem DatabaseInv.same (hs : T.DatabaseInv s) (hd : s'.databases = s.databases)
    (hf : s'.refused = s.refused) (hr : s'.removed = s.removed) : T.DatabaseInv s' where
  named := by
    rw [hd]
    exact hs.named
  apart := by
    rw [KeepsApart, hf, hr]
    exact hs.apart

/-- A database that has a table's name is that table's. -/
theorem DatabaseInv.owner (hT : T.NamesDiffer) (hs : T.DatabaseInv s) {i : T.Table}
    {x : List Char × T.Table × AttachedDatabase} (hx : x ∈ s.databases) (hn : x.1 = T.name i) :
    x.2.1 = i := by
  by_contra hne
  exact hT _ _ hne ((hs.named x hx).symm.trans hn)

/-- One operation of a table, under the table's own name. -/
theorem databaseAnswer_inv (hT : T.NamesDiffer) (hs : T.DatabaseInv s) {thread : ℕ} {i : T.Table}
    {op : Op} {ch : DatabaseChoice} {x : Except Exception op.Ans} (hop : (T.table i).OwnName op)
    (ha : T.databaseAnswer thread s i op ch = some (x, s')) : T.DatabaseInv s' := by
  cases op with
  | attachDatabase info =>
    have hname : identifier info.name = T.name i := congrArg identifier hop
    cases ch with
    | proceed =>
      simp only [databaseAnswer] at ha
      split at ha
      · -- the name is in use: it is refused, and by the invariant it was the table's own
        rename_i n j db hfind
        obtain ⟨-, rfl⟩ := Prod.mk.inj (Option.some.inj ha)
        refine ⟨hs.named, fun y hy => ?_, hs.apart.2⟩
        rcases List.mem_cons.1 hy with rfl | hy
        · have hfound : (n == identifier info.name) = true := by simpa using List.find?_some hfind
          have hn : n = T.name i := (beq_iff_eq.1 hfound).trans hname
          exact hs.owner hT (List.mem_of_find?_eq_some hfind) hn
        · exact hs.apart.1 y hy
      · obtain ⟨-, rfl⟩ := Prod.mk.inj (Option.some.inj ha)
        refine ⟨fun y hy => ?_, hs.apart⟩
        rcases List.mem_cons.1 hy with rfl | hy
        · exact hname
        · exact hs.named y hy
    | fail e =>
      obtain ⟨-, rfl⟩ := Prod.mk.inj (Option.some.inj ha)
      exact hs
    | _ => cases ha
  | detachDatabase name =>
    have hname : identifier name = T.name i := congrArg identifier hop
    cases ch with
    | proceed =>
      obtain ⟨-, rfl⟩ := Prod.mk.inj (Option.some.inj ha)
      refine ⟨fun y hy => hs.named y (List.mem_of_mem_filter hy), hs.apart.1, fun y hy => ?_⟩
      rcases List.mem_append.1 hy with hy | hy
      · obtain ⟨x, hx, rfl⟩ := List.mem_map.1 hy
        -- what goes is what has the name, which is the table's own
        have hn : x.1 = T.name i := (beq_iff_eq.1 (List.mem_filter.1 hx).2).trans hname
        exact hs.owner hT (List.mem_filter.1 hx).1 hn
      · exact hs.apart.2 y hy
    | fail e =>
      obtain ⟨-, rfl⟩ := Prod.mk.inj (Option.some.inj ha)
      exact hs
    | _ => cases ha
  | lockAttach =>
    cases ch with
    | proceed =>
      simp only [databaseAnswer] at ha
      split at ha
      · obtain ⟨-, rfl⟩ := Prod.mk.inj (Option.some.inj ha)
        exact hs.same rfl rfl rfl
      · cases ha
    | _ => cases ha
  | _ =>
    cases ch <;> cases ha <;> exact hs.same rfl rfl rfl

/-- A program that keeps to its own table's name takes no other table's database. -/
theorem keeps_on (hT : T.NamesDiffer) {thread : ℕ} {i : T.Table} {α : Type} {p : Run α}
    (hp : p.Uses (T.table i).OwnName) : T.keeping.Keeps thread (p.on i) := by
  have hon : (p.on i).Uses fun op : (Client.indexed T.Table).Op => (T.table op.1).OwnName op.2 :=
    Prog.Uses.on hp
  exact Outline.keeps_of_each hon fun s op ch x s' hs hop ha =>
    ⟨databaseAnswer_inv hT hs hop ha, fun _ _ => trivial⟩

/-- Every call of the model is such a program. -/
theorem keeps_program (hT : T.NamesDiffer) {thread : ℕ} (call : Request T.Table) :
    T.keeping.Keeps thread (T.program call) := by
  cases call with
  | internalAttach i => exact keeps_on hT ((T.table i).uses_internalAttach.mono fun _ h => h.1)
  | onDetach entries =>
    induction entries with
    | nil => exact Outline.keeps_ret ()
    | cons i entries ih =>
      have hdetach := TableInformation.uses_withAttachLock (T.table i).uses_internalDetach
      exact (keeps_on hT (hdetach.mono fun _ h =>
        (TableInformation.attaching_of_attachStep h).1)).bind fun _ => ih

/-- Where the names differ, every interleaving keeps the databases apart. -/
theorem keepsApart_of_namesDiffer (hT : T.NamesDiffer) {cfg : T.attaches.Config}
    (h : T.attaches.system.Reachable cfg) : T.KeepsApart cfg.state := by
  refine (Outline.keeps_sound (O := T.keeping) ⟨fun _ _ _ _ => trivial, fun _ _ => trivial⟩
    ?_ ?_ ?_ ?_ h).apart
  · intro s hs
    rw [show s = {} from hs]
    exact ⟨fun _ hx => absurd hx List.not_mem_nil, fun _ hx => absurd hx List.not_mem_nil,
      fun _ hx => absurd hx List.not_mem_nil⟩
  · intro s c call p s' hs hst
    obtain ⟨rfl, rfl⟩ := Prod.mk.inj (Option.some.inj hst)
    exact ⟨hs, fun _ _ => trivial, keeps_program hT call⟩
  · exact fun s c r hs => ⟨hs, fun _ _ => trivial⟩
  · intro (s : DatabaseState T.Table) e s' (hs : T.DatabaseInv s) he
    cases e with
    | commit i =>
      simp only [attaches] at he
      split at he
      · obtain rfl := Option.some.inj he
        exact ⟨hs.same rfl rfl rfl, fun _ => trivial⟩
      · cases he
    | undo i =>
      obtain rfl := Option.some.inj he
      exact ⟨⟨fun x hx => hs.named x (List.mem_of_mem_filter hx), hs.apart⟩, fun _ => trivial⟩

/-- **Internal databases stay apart** exactly for the sets of tables of which no two straddle: then
the names differ, and in every interleaving no attach is refused because of another table's database
and no detach removes one. -/
theorem apart_iff (T : AttachedTables) :
    (T.NamesDiffer ∧ ∀ cfg, T.attaches.system.Reachable cfg → T.KeepsApart cfg.state) ↔
      T.Unstraddled := by
  constructor
  · exact fun h => T.namesDiffer_iff.1 h.1
  · intro h
    have hT : T.NamesDiffer := T.namesDiffer_iff.2 h
    exact ⟨hT, fun cfg hcfg => keepsApart_of_namesDiffer hT hcfg⟩

/-! ### Two tables of one name -/

/-- A table that UC does not manage the commits of. -/
def plainTable (schema name : String) : TableInformation where
  catalog_name := "uc"
  read_only := false
  credentials := { endpoint := "http://uc", token := "" }
  schema_name := schema
  table_data :=
    { table_id := name, name := name, catalog_name := "c", schema_name := schema
      storage_location := "/" ++ schema ++ "/" ++ name }

/-- Table `b_c` of schema `a`, and table `c` of schema `a_b`. -/
def exampleTables : AttachedTables where
  Table := Bool
  decidableTable := inferInstance
  table i := if i then plainTable "a" "b_c" else plainTable "a_b" "c"
  catalog := by decide
  distinct := by decide

/-- A table's `InternalAttach`, up to what the database manager does. -/
def exampleAttach (thread : ℕ) (i : Bool) : List exampleTables.attaches.Label :=
  [.start thread (.internalAttach i)] ++ List.replicate 5 (.op thread .proceed)

/-- Nothing is attached. -/
def exampleDatabases : exampleTables.attaches.Config := ⟨({} : DatabaseState Bool), fun _ => none⟩

/-- One table's attach is refused: the other's database has its name. -/
theorem databases_collide : ¬ (exampleTables.NamesDiffer ∧
    ∀ cfg, exampleTables.attaches.system.Reachable cfg → exampleTables.KeepsApart cfg.state) := by
  rintro ⟨-, hruns⟩
  have h : (exampleTables.attaches.replay (fun _ _ => true)
      (exampleAttach 0 true ++ exampleAttach 1 false) exampleDatabases).map
        (fun cfg : exampleTables.attaches.Config =>
          (DatabaseState.refused cfg.state : List (Bool × Bool))) =
      some [(false, true)] := by
    decide +kernel
  obtain ⟨cfg, hcfg, hst⟩ := Option.map_eq_some_iff.1 h
  have hapart := hruns cfg
    ⟨exampleDatabases, ⟨rfl, rfl⟩, Pool.run_of_replay (fun _ _ _ => trivial) hcfg⟩
  have hmem : ((false, true) : Bool × Bool) ∈ DatabaseState.refused cfg.state := by
    rw [hst]
    exact List.mem_cons_self
  have heq : (true : Bool) = false := hapart.1 _ hmem
  cases heq

end AttachedTables

end UnityCatalog
