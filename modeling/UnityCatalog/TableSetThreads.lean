import UnityCatalog.RegisterOutcomes
import UnityCatalog.Threads

/-!
# The threads of a table set

One `UCTableSet` under any number of threads: creates, lookups and scans of the schema, interleaved
operation by operation, while other clients create and drop tables of the schema and Unity Catalog
handles the threads' requests whenever it comes to them. `load_lock` is held across a load, so a
`MarkNeedsReload` waits for it; nothing else of a create is under a lock.
-/

namespace UnityCatalog

open Effectful Yyjson

/-! ## Tables by name -/

/-- A table Unity Catalog lists. -/
structure ListedTable where
  name : String
  table_id : String
  storage_location : String
  deriving DecidableEq

/-- What tells an entry's table from another of its name. -/
def UCAPITable.listed (table : UCAPITable) : ListedTable :=
  ⟨table.name, table.table_id, table.storage_location⟩

/-- Names are one in the catalog, and one in an `identifier_map_t`, up to case. -/
abbrev SameName (a b : String) : Prop := lower a = lower b

/-! ## Threads -/

/-- What a thread can do with the set. -/
inductive SetCall where
  /-- `UCSchemaEntry::CreateTable` -/
  | create (info : BoundCreateTableInfo)
  /-- `GetEntry` -/
  | lookup (name : String)
  /-- `Scan`, which only loads -/
  | scan

/-- One thread's call. -/
structure SetThread where
  call : Option SetCall := none
  /-- the request whose answer it waits for -/
  pending : Option HttpRequest := none
  /-- it has sent a register request -/
  registering : Bool := false
  /-- the table its register request has made, while Unity Catalog has it -/
  made : Option ListedTable := none
  /-- since it began, a table of the name it creates was dropped -/
  dropped : Bool := false
  /-- it looks up a name that a create had returned for when it began, and that was not dropped
  since -/
  owed : Bool := false
  /-- the table a create of this set had registered under that name, while Unity Catalog has it -/
  expected : Option ListedTable := none

/-- The body of a register request. -/
def RequestBody.registers : RequestBody → Bool
  | .registerTable _ _ => true
  | _ => false

/-- It waits for the answer to a register request. -/
def SetThread.registers (th : SetThread) : Bool := th.pending.any fun req => req.body.registers

/-- A table of the name is dropped. -/
def SetThread.drop (th : SetThread) (name : String) : SetThread :=
  { th with
    made := th.made.filter fun x => lower x.name ≠ lower name
    expected := th.expected.filter fun x => lower x.name ≠ lower name
    dropped := th.dropped || match th.call with
      | some (.create info) => lower info.table_name == lower name
      | _ => false
    owed := th.owed && match th.call with
      | some (.lookup n) => lower n != lower name
      | _ => true }

/-! ## The set and its surroundings -/

/-- Unity Catalog's tables of the schema, the set, and what is going on between them. -/
structure SetState where
  uc : List ListedTable := []
  load_lock : Option ℕ := none
  is_loaded : Bool := false
  tables : List UCAPITable := []
  /-- what Unity Catalog has listed to the load under way -/
  listing : Option (List ListedTable) := none
  thread : ℕ → SetThread := fun _ => {}
  /-- the names of creates that returned, while Unity Catalog has a table of the name -/
  created : List String := []
  /-- the tables these creates registered, while Unity Catalog has them -/
  registered : List ListedTable := []
  /-- a lookup of a created name has found nothing -/
  missed : Bool := false
  /-- a lookup of a created name has found another table than the registered one -/
  wrong : Bool := false

/-- What else happens. -/
inductive SetEnv where
  /-- another client creates a table -/
  | create (x : ListedTable)
  /-- a table is dropped -/
  | drop (name : String)
  /-- Unity Catalog handles a thread's register request -/
  | register (c : ℕ) (table_id storage_location : String)
  /-- Unity Catalog makes the list a thread has asked for -/
  | list (c : ℕ)

namespace SetState

/-- Unity Catalog has a table of the name. -/
def lists (s : SetState) (name : String) : Bool := s.uc.any fun x => lower x.name == lower name

/-- The entry of the name. -/
def entry (s : SetState) (name : String) : Option UCAPITable :=
  s.tables.find? fun table => lower table.name == lower name

/-- A step of one thread's own. -/
def setThread (s : SetState) (c : ℕ) (f : SetThread → SetThread) : SetState :=
  { s with thread := Function.update s.thread c (f (s.thread c)) }

/-- A thread that begins a call. -/
def called (s : SetState) : SetCall → SetThread
  | .create info => { call := some (.create info) }
  | .lookup name =>
    { call := some (.lookup name)
      owed := s.created.any fun n => lower n == lower name
      expected := s.registered.find? fun x => lower x.name == lower name }
  | .scan => { call := some .scan }

/-- A call begins. -/
def begin (s : SetState) (c : ℕ) (call : SetCall) : SetState := s.setThread c fun _ => s.called call

/-- A create has returned. -/
def returned (s : SetState) (c : ℕ) (info : BoundCreateTableInfo) : SetState :=
  { s with
    created := if s.lists info.table_name && !(s.thread c).dropped then
      info.table_name :: s.created else s.created
    registered := (s.thread c).made.toList ++ s.registered }

/-- A lookup has returned. -/
def found (s : SetState) (c : ℕ) (table : Option UCAPITable) : SetState :=
  { s with
    missed := s.missed || (s.thread c).owed && table.isNone
    wrong := s.wrong || match (s.thread c).expected with
      | some x => table.map UCAPITable.listed != some x
      | none => false }

/-- A call has ended. -/
def ended (s : SetState) (c : ℕ) (r : Except Exception (Option UCAPITable)) : SetState :=
  match (s.thread c).call, r with
  | some (.create info), .ok _ => s.returned c info
  | some (.lookup _), .ok table => s.found c table
  | _, _ => s

/-- A table of the name is dropped: of what was created before, the name is nobody's. -/
def drop (s : SetState) (name : String) : SetState :=
  { s with
    uc := s.uc.filter fun x => lower x.name ≠ lower name
    thread := fun c => (s.thread c).drop name
    created := s.created.filter fun n => lower n ≠ lower name
    registered := s.registered.filter fun x => lower x.name ≠ lower name }

/-- Unity Catalog handles the register request thread `c` waits for, unless the name is taken. -/
def register (s : SetState) (c : ℕ) (table_id storage_location : String) : Option SetState :=
  (s.thread c).pending.bind fun req => match req.body with
    | .registerTable table _ =>
      if s.lists table.name then none
      else
        let x : ListedTable := ⟨table.name, table_id, storage_location⟩
        some ({ s with uc := x :: s.uc }.setThread c fun th => { th with made := some x })
    | _ => none

/-- Thread `c` waits for the list of the schema's tables. -/
def awaitsList (s : SetState) (c : ℕ) : Bool :=
  s.load_lock == some c && (s.thread c).pending.isSome && match (s.thread c).call with
    | some (.create _) => false
    | _ => true

end SetState

/-! ## The pool -/

/-- What an operation is answered, where the surroundings have a choice. -/
structure SetChoice where
  ans : (op : Op) → Except Exception op.Ans

/-- No error is one of the catalog's own. -/
def transported {α : Type} : Except Exception α → Bool
  | .ok _ => true
  | .error e => e.type ≠ .catalog

namespace CreatingCatalog

variable (t : CreatingCatalog)

/-- What `GetTables` makes of a response. -/
def listOutcome (resp : HttpResponse) : Except Exception (List UCAPITable) :=
  resp.decoded (tablesUrl t.credentials t.catalog_name t.schema_name)
    (decodeGetTables t.catalog_name t.schema_name)

/-- What Unity Catalog says is so: that a table was registered, that it is there to load, and which
tables the schema has. -/
def truthful (s : SetState) (c : ℕ) (req : HttpRequest) (x : Except Exception HttpResponse) :
    Bool :=
  match (s.thread c).call with
  | some (.create info) =>
    match req.body with
    | .registerTable table _ =>
      !(x.bind ((RegisterCase.mk t info).registerOutcome table)).isOk || s.lists table.name ||
        (s.thread c).dropped
    | _ =>
      req.url != (RegisterCase.mk t info).loadUrl ||
        !(x.bind (RegisterCase.mk t info).loadOutcome).isOk || s.lists info.table_name ||
          (s.thread c).dropped
  | _ =>
    match x.bind t.listOutcome with
    | .ok tables => s.listing.any fun listing =>
      decide ((tables.map UCAPITable.listed).Perm listing)
    | .error _ => true

/-- The operations. What a create does with files and attached databases is not this set's. -/
def setAnswer (c : ℕ) (s : SetState) :
    (op : Op) → SetChoice → Option (Except Exception op.Ans × SetState)
  | .ensureHttpfs, ch =>
    if transported (ch.ans .ensureHttpfs) then some (ch.ans .ensureHttpfs, s) else none
  | .issue req, ch =>
    match ch.ans (.issue req) with
    | .ok a => some (.ok a, s.setThread c fun th => { th with
        pending := some req
        registering := th.registering || req.body.registers })
    | .error e => if e.type = .catalog then none else some (.error e, s)
  | .answer, ch =>
    (s.thread c).pending.bind fun req =>
      if transported (ch.ans .answer) && t.truthful s c req (ch.ans .answer) then
        some (ch.ans .answer, s.setThread c fun th => { th with pending := none })
      else none
  | .lockLoad, _ => if s.load_lock = none then some (.ok (), { s with load_lock := some c })
    else none
  | .unlockLoad, _ => some (.ok (), { s with load_lock := none, listing := none })
  | .isLoaded, _ => some (.ok s.is_loaded, s)
  | .setLoaded b, _ => some (.ok (), { s with is_loaded := b })
  | .emplaceTable table, _ =>
    some (.ok (), if (s.entry table.name).isSome then s
      else { s with tables := s.tables ++ [table] })
  | .findTable name, _ => some (.ok (s.entry name), s)
  | op, ch => some (ch.ans op, s)

/-- A thread's program. -/
def callProgram : SetCall → Run (Option UCAPITable)
  | .create info => do
    t.schemaCreateTable info
    return none
  | .lookup name => t.getEntry name
  | .scan => do
    t.ensureLoaded
    return none

/-- The threads of the set. -/
def threads : Pool Client Exception (Option UCAPITable) where
  Ctx := ℕ
  State := SetState
  Choice := SetChoice
  answer c s op ch := t.setAnswer c s op ch
  Call := SetCall
  start s c call := some (t.callProgram call, s.begin c call)
  finish s c r := s.ended c r
  Env := SetEnv
  env s
    | .create x => if s.lists x.name then none else some { s with uc := x :: s.uc }
    | .drop name => if s.lists name then some (s.drop name) else none
    | .register c table_id storage_location => s.register c table_id storage_location
    | .list c => if s.awaitsList c then some { s with listing := some s.uc } else none
  init s := s = { uc := s.uc } ∧ s.uc.Pairwise fun x y => ¬ SameName x.name y.name

instance : DecidableEq t.threads.Ctx := inferInstanceAs (DecidableEq ℕ)

/-! ## The two conditions -/

end CreatingCatalog

namespace SetState

/-- The next lookup of the name finds an entry: there is one, or Unity Catalog has a table of the
name and the set is yet to load it. -/
def Resolves (s : SetState) (name : String) : Prop :=
  (s.entry name).isSome = true ∨ s.lists name = true ∧ s.is_loaded = false ∧
    ∀ listing, s.listing = some listing → ∃ x ∈ listing, SameName x.name name

/-- Every entry of the table's name is the table's own. -/
def OnlyEntry (s : SetState) (x : ListedTable) : Prop :=
  ∀ table ∈ s.tables, SameName table.name x.name → table.listed = x

end SetState

namespace CreatingCatalog

variable (t : CreatingCatalog)

/-- The response says that the name is taken: to `TableExists` before version 0 is written, to the
staging request, or to the register request. -/
def saysTaken (info : BoundCreateTableInfo) (th : SetThread) (resp : HttpResponse) : Prop :=
  ∃ req, th.pending = some req ∧ match req.body with
    | .stageTable _ => resp.saysTaken = true
    | .registerTable _ _ => resp.saysTaken = true
    | _ =>
      let url := lookupUrl t.credentials t.catalog_name t.schema_name info.table_name
      th.registering = false ∧ req.url = url ∧ resp.tableFound url = .ok true

/-- An IF NOT EXISTS create is told that the name is taken. -/
def HearsTaken (s : SetState) (c : ℕ) (ch : SetChoice) (info : BoundCreateTableInfo) : Prop :=
  (s.thread c).call = some (.create info) ∧ info.on_conflict = .ignore ∧
    ∃ resp, ch.ans .answer = .ok resp ∧ t.saysTaken info (s.thread c) resp

/-- The runs in which a create that marks the set finds no entry of another table of the name, and
no IF NOT EXISTS create is told that the name is taken by what its own register request has made. -/
def marksOwn : Guard t.threads where
  op s c op ch :=
    (op = .setLoaded false →
      ∀ x, (SetState.thread s c).made = some x → SetState.OnlyEntry s x) ∧
    (op = .answer → ∀ info, t.HearsTaken s c ch info → (SetState.thread s c).made = none)
  env _ _ := True

/-- The runs in which an IF NOT EXISTS create is told that the name is taken only where the next
lookup finds an entry anyway. -/
def takenResolves : Guard t.threads where
  op s c op ch :=
    op = .answer → ∀ info, t.HearsTaken s c ch info → SetState.Resolves s info.table_name
  env _ _ := True

end CreatingCatalog

end UnityCatalog
