import UnityCatalog.LateEtags

/-!
# The database a transaction read

The threads of `LateEtags` with the transactions they attach in, and with what each transaction has
read under the table's internal name. A read takes no lock: it finds whatever is attached at that
moment. So one may fall between the check that an `InternalAttach` makes, for its own transaction
alone, and the `InternalDetach` behind it, which drops the database for everyone.

A transaction keeps the database it read in every run in which no `InternalDetach` lets go of a
database that an open transaction has read by then.
-/

namespace UnityCatalog

open Effectful

/-! ## The readers -/

/-- An `InternalAttach` that has ended: what its transaction had read, and what was attached. -/
structure AttachEnd where
  met : List AttachedDatabase
  left : Option AttachedDatabase
  deriving DecidableEq

/-- One session, its threads and the catalog, with what the transactions have read. -/
structure ReaderState extends EtagState where
  /-- the databases open transactions have read under the table's internal name, each with the
  transaction -/
  met : List (ℕ × AttachedDatabase) := []
  /-- the databases there have been -/
  seen : List AttachedDatabase := []
  /-- the transaction each thread last attached in -/
  txn : ℕ → ℕ := fun _ => 0
  /-- each `InternalAttach` that has ended, whichever way -/
  ended : List AttachEnd := []

namespace ReaderState

/-- What a transaction has read. -/
def metBy (s : ReaderState) (txn : ℕ) : List AttachedDatabase :=
  (s.met.filter fun m => m.1 = txn).map Prod.snd

/-- `TryGetTransaction` knows what the thread's transaction has read, and a database that is
attached is a new one. -/
def mayAnswer (s : ReaderState) (thread : ℕ) : Op → EtagChoice → Bool
  | .tryGetTransaction db, .flag b => b == decide ((s.txn thread, db) ∈ s.met)
  | .attachDatabase _, .database db => db ∉ s.seen
  | _, _ => true

end ReaderState

/-- The database an operation has attached. -/
def Op.made : (op : Op) → Except Exception op.Ans → Option AttachedDatabase
  | .attachDatabase _, .ok db => some db
  | _, _ => none

/-- What else happens. -/
inductive ReaderEnv where
  | catalog (e : EtagEnv)
  /-- a transaction reads what is attached -/
  | read (txn : ℕ)
  /-- a transaction ends -/
  | finish (txn : ℕ)

/-- What a thread can be asked to run. -/
inductive ReaderCall where
  /-- an `InternalAttach` in a transaction -/
  | attach (txn : ℕ)
  | commit (res : StagedCommit)

namespace ManagedTable

variable (t : ManagedTable)

/-- The operations. -/
def readerAnswer (thread : ℕ) (s : ReaderState) (op : Op) (ch : EtagChoice) :
    Option (Except Exception op.Ans × ReaderState) :=
  if s.mayAnswer thread op ch then
    (t.etagAnswer thread s.toEtagState op ch).map fun r =>
      (r.1, { s with toEtagState := r.2, seen := (op.made r.1).toList ++ s.seen })
  else none

/-- The threads, among transactions that read. -/
def readers : Pool Client Exception Unit where
  Ctx := ℕ
  State := ReaderState
  Choice := EtagChoice
  answer thread s op ch := t.readerAnswer thread s op ch
  Call := ReaderCall
  start s thread
    | .attach txn => (t.threads.start s.toEtagState thread .attach).map fun r =>
        (r.1, { s with toEtagState := r.2, txn := Function.update s.txn thread txn })
    | .commit res => (t.threads.start s.toEtagState thread (.commit res)).map fun r =>
        (r.1, { s with toEtagState := r.2 })
  finish s thread r :=
    if thread ∈ s.committing then
      { s with toEtagState := t.threads.finish s.toEtagState thread r }
    else { s with
      toEtagState := t.threads.finish s.toEtagState thread r
      ended := ⟨s.metBy (s.txn thread), s.attached⟩ :: s.ended }
  Env := ReaderEnv
  env s
    | .catalog e => (t.threads.env s.toEtagState e).map fun s' => { s with toEtagState := s' }
    | .read txn => s.attached.map fun db => { s with met := (txn, db) :: s.met }
    | .finish txn => some { s with met := s.met.filter fun m => m.1 ≠ txn }
  init s := s = { catalog := ⟨s.catalog.etag, s.catalog.version, []⟩ }

instance : DecidableEq t.readers.Ctx := inferInstanceAs (DecidableEq ℕ)

/-- The runs in which no `InternalDetach` lets go of a database that an open transaction has
read. -/
def dropsNothingRead : Guard t.readers where
  op s _ op _ := op = .setAttached none → ∀ db, s.attached = some db → ∀ m ∈ s.met, m.2 ≠ db
  env _ _ := True

end ManagedTable

/-! ## The invariant -/

/-- Whatever an open transaction has read is what is attached. -/
structure ReaderInv (s : ReaderState) : Prop where
  met : ∀ m ∈ s.met, s.attached = some m.2
  ended : ∀ e ∈ s.ended, ∀ db ∈ e.met, e.left = some db

/-- What a thread relies on: what is attached stays so while it holds `attach_lock`. -/
def ReaderRely (c : ℕ) (s s' : ReaderState) : Prop :=
  s.attach_lock = some c → s'.attach_lock = some c ∧ s'.attached = s.attached

/-- What nearly every operation leaves alone. -/
structure SameDatabase (s s' : ReaderState) : Prop where
  lock : s'.attach_lock = s.attach_lock
  attached : s'.attached = s.attached
  met : s'.met = s.met
  ended : s'.ended = s.ended

theorem SameDatabase.inv {s s' : ReaderState} (h : SameDatabase s s') (hs : ReaderInv s) :
    ReaderInv s' where
  met := by
    rw [h.met, h.attached]
    exact hs.met
  ended := by
    rw [h.ended]
    exact hs.ended

theorem SameDatabase.rely {s s' : ReaderState} (h : SameDatabase s s') (c : ℕ) :
    ReaderRely c s s' :=
  fun hlock => ⟨h.lock.trans hlock, h.attached⟩

namespace ManagedTable

variable (t : ManagedTable)

/-- The threads under the invariant. -/
def keepingReads : Outline t.readers where
  guard := t.dropsNothingRead
  inv := ReaderInv
  rely := ReaderRely
  rely_refl _ _ h := ⟨h, rfl⟩
  rely_trans _ _ _ _ h h' hlock := by
    obtain ⟨h₁, ha⟩ := h hlock
    obtain ⟨h₂, ha'⟩ := h' h₁
    exact ⟨h₂, ha'.trans ha⟩

variable {t} {c : ℕ} {s s' : ReaderState} {α : Type}

/-! ## Operations -/

/-- `c` holds the lock. -/
def Holds (c : ℕ) (s : ReaderState) : Prop := s.attach_lock = some c

theorem stable_holds : t.keepingReads.Stable c (Holds c) :=
  fun _ _ hr _ _ h => (hr h).1

end ManagedTable

end UnityCatalog
