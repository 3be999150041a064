import UnityCatalog.InternalNames
import UnityCatalog.LockOrder

/-!
# Whose a database is

A table's entry holds one pointer, to the database it has attached, and nothing else leads from a
table to its databases: what the pointer does not name is never detached. `InternalAttach` and
`InternalDetach` move the pointer and the database one after the other under the table's
`attach_lock`, each may fail in between, and DuckDB undoes an attach on its own.

`AttachedTables.no_database_leaks`: while no two tables straddle, in every interleaving no attach is
refused, a table has one database at most, and it is the one the pointer names wherever nobody is
at work at the table. `AttachedTables.detach_leaves_nothing`: so from any such state an `OnDetach`
that runs to its end leaves its tables without a database and the others as they were.
-/

namespace UnityCatalog

open Effectful

/-! ## What is held for a table -/

namespace DatabaseState

variable {Table : Type} [DecidableEq Table]

/-- The databases attached for a table, the latest first. -/
def owned (s : DatabaseState Table) (i : Table) : List AttachedDatabase :=
  (s.databases.filter fun x => x.2.1 = i).map fun x => x.2.2

end DatabaseState

/-- What a table's entry and DuckDB hold for the table. -/
structure Holding where
  attached : Option AttachedDatabase
  owned : List AttachedDatabase

namespace Holding

/-- The pointer names every database. -/
def Recorded (h : Holding) : Prop := ∀ db ∈ h.owned, h.attached = some db

/-- There is no database. -/
def Empty (h : Holding) : Prop := h.owned = []

/-- Nor a pointer to one. -/
def Bare (h : Holding) : Prop := h.attached = none ∧ h.Empty

/-- There is no pointer, and no database but this. -/
def Fresh (db : AttachedDatabase) (h : Holding) : Prop := h.attached = none ∧ h.owned ⊆ [db]

/-- Where there is no database, all that there are are recorded. -/
theorem Empty.recorded {h : Holding} (he : h.Empty) : h.Recorded := by
  intro db hdb
  rw [he] at hdb
  cases hdb

/-- If all are recorded and none is attached, there is none. -/
theorem Recorded.bare {h : Holding} (hr : h.Recorded) (hn : h.attached = none) : h.Bare := by
  refine ⟨hn, List.eq_nil_iff_forall_not_mem.2 fun db hdb => ?_⟩
  have hsome := hr db hdb
  rw [hn] at hsome
  cases hsome

/-- What DuckDB's undoing of an attach does not end. -/
def Lasts (Q : Holding → Prop) : Prop := ∀ h ds, ds ⊆ h.owned → Q h → Q { h with owned := ds }

/-- That all are recorded lasts while databases only go. -/
theorem lasts_recorded : Lasts Recorded := fun _ _ hsub hr db hdb => hr db (hsub hdb)

/-- That there is none lasts while databases only go. -/
theorem lasts_empty : Lasts Empty := by
  intro h ds hsub he
  rw [he] at hsub
  exact List.subset_nil.1 hsub

/-- That none is attached and none is there lasts. -/
theorem lasts_bare : Lasts Bare := fun h ds hsub hb => ⟨hb.1, lasts_empty h ds hsub hb.2⟩

/-- That a database is the only one, and not yet recorded, lasts. -/
theorem lasts_fresh (db : AttachedDatabase) : Lasts (Fresh db) :=
  fun _ _ hsub hf => ⟨hf.1, List.Subset.trans hsub hf.2⟩

/-- Facts that last, last together. -/
theorem lasts_and {Q R : Holding → Prop} (hQ : Lasts Q) (hR : Lasts R) : Lasts fun h => Q h ∧ R h :=
  fun h ds hsub hq => ⟨hQ h ds hsub hq.1, hR h ds hsub hq.2⟩

/-- A fact that lasts, lasts under a condition that does not change. -/
theorem lasts_imp {p : Prop} {Q : Holding → Prop} (hQ : Lasts Q) : Lasts fun h => p → Q h :=
  fun h ds hsub hq hp => hQ h ds hsub (hq hp)

end Holding

/-- The operations that have nothing to do with a pointer, a database or the lock. -/
def Op.LeavesHolding : Op → Prop
  | .lockAttach | .unlockAttach | .setAttached _ | .attachDatabase _ | .detachDatabase _ => False
  | _ => True

namespace AttachedTables

variable (T : AttachedTables)

/-- What is held for a table. -/
def holding (s : DatabaseState T.Table) (i : T.Table) : Holding := ⟨s.attached i, s.owned i⟩

/-- Every database is its table's, a table has one at most, and where nobody holds the table's lock
the pointer names it. -/
structure Owners (s : DatabaseState T.Table) : Prop extends T.DatabaseInv s where
  accepted : s.refused = []
  single : ∀ i, (s.owned i).length ≤ 1
  recorded : ∀ i, s.holder i = none → (T.holding s i).Recorded

/-- The threads; who holds a table's lock relies on the pointer, and on no new databases. -/
def owning : Outline T.attaches where
  guard := ⟨fun _ _ _ _ => True, fun _ _ => True⟩
  inv := T.Owners
  rely c s s' := ∀ i, s.holder i = some c →
    s'.holder i = some c ∧ s'.attached i = s.attached i ∧ s'.owned i ⊆ s.owned i
  rely_refl _ _ := fun _ hi => ⟨hi, rfl, List.Subset.refl _⟩
  rely_trans _ _ _ _ h h' := fun i hi => by
    obtain ⟨hi₁, ha₁, ho₁⟩ := h i hi
    obtain ⟨hi₂, ha₂, ho₂⟩ := h' i hi₁
    exact ⟨hi₂, ha₂.trans ha₁, List.Subset.trans ho₂ ho₁⟩

variable {T} {c : ℕ} {i : T.Table} {s s' : DatabaseState T.Table}

/-! ## Databases by owner -/

/-- A table's databases are those under any name that were attached for it. -/
theorem mem_owned {db : AttachedDatabase} : db ∈ s.owned i ↔ ∃ n, (n, i, db) ∈ s.databases := by
  simp only [DatabaseState.owned, List.mem_map, List.mem_filter, decide_eq_true_eq]
  constructor
  · rintro ⟨⟨n, j, db⟩, ⟨hx, rfl⟩, rfl⟩
    exact ⟨n, hx⟩
  · rintro ⟨n, hx⟩
    exact ⟨(n, i, db), ⟨hx, rfl⟩, rfl⟩

/-- What a filter on the databases leaves of a table's. -/
theorem owned_filter (keep : List Char × T.Table × AttachedDatabase → Bool) (j : T.Table) :
    ({ s with databases := s.databases.filter keep }.owned j) =
      ((s.databases.filter fun x => x.2.1 = j).filter keep).map fun x => x.2.2 := by
  simp only [DatabaseState.owned, List.filter_filter, Bool.and_comm]

/-- A name is that of the databases of one table. -/
theorem DatabaseInv.name_eq_iff (hT : T.NamesDiffer) (hs : T.DatabaseInv s)
    {x : List Char × T.Table × AttachedDatabase} (hx : x ∈ s.databases) :
      x.1 = T.name i ↔ x.2.1 = i := by
  constructor
  · exact hs.owner hT hx
  · rintro rfl
    exact hs.named x hx

/-- Detaching by a table's name is detaching the table's databases. -/
theorem owned_detach (hT : T.NamesDiffer) (hs : T.DatabaseInv s) (j : T.Table) :
    { s with databases := s.databases.filter fun x => x.1 != T.name i }.owned j =
      if j = i then [] else s.owned j := by
  rw [owned_filter]
  split
  · rename_i hj
    subst hj
    rw [List.map_eq_nil_iff, List.filter_eq_nil_iff]
    intro x hx
    obtain ⟨hx, hown⟩ := List.mem_filter.1 hx
    simp [(hs.name_eq_iff hT hx).2 (of_decide_eq_true hown)]
  · rename_i hj
    rw [DatabaseState.owned, List.filter_eq_self.2]
    intro x hx
    obtain ⟨hx, hown⟩ := List.mem_filter.1 hx
    have hne : x.2.1 ≠ i := fun h => hj ((of_decide_eq_true hown).symm.trans h)
    simpa [bne_iff_ne] using fun hname => hne ((hs.name_eq_iff hT hx).1 hname)

/-- What is undone is the table's. -/
theorem owned_undo (j : T.Table) :
    { s with databases := s.databases.filter fun x => x.2.1 != i }.owned j =
      if j = i then [] else s.owned j := by
  rw [owned_filter]
  split
  · rename_i hj
    subst hj
    rw [List.map_eq_nil_iff, List.filter_eq_nil_iff]
    intro x hx
    simpa using of_decide_eq_true (List.mem_filter.1 hx).2
  · rename_i hj
    rw [DatabaseState.owned, List.filter_eq_self.2]
    intro x hx
    have hown : x.2.1 = j := of_decide_eq_true (List.mem_filter.1 hx).2
    simpa [hown] using hj

/-- An attach gives the database to the table it was made for, and to no other. -/
theorem owned_attach (n : List Char) (db : AttachedDatabase) (j : T.Table) :
    { s with databases := (n, i, db) :: s.databases }.owned j =
      if j = i then db :: s.owned i else s.owned j := by
  by_cases hj : j = i
  · subst hj
    simp [DatabaseState.owned]
  · simp [DatabaseState.owned, hj, Ne.symm hj]

/-- The entry's reference is set, and the databases stay. -/
theorem holding_setAttached (db : Option AttachedDatabase) :
    T.holding { s with attached := Function.update s.attached i db } i = ⟨db, s.owned i⟩ :=
  congrArg (Holding.mk · _) (Function.update_self ..)

/-! ## One operation -/

/-- An operation of a table, under the table's own name, leaves what is held for the others. -/
theorem databaseAnswer_others (hT : T.NamesDiffer) (hs : T.DatabaseInv s) {op : Op}
    {ch : DatabaseChoice} {x : Except Exception op.Ans} (hop : (T.table i).OwnName op)
    (ha : T.databaseAnswer c s i op ch = some (x, s')) {j : T.Table} (hj : j ≠ i) :
    s'.holder j = s.holder j ∧ T.holding s' j = T.holding s j := by
  cases op with
  | lockAttach =>
    cases ch with
    | proceed =>
      simp only [databaseAnswer] at ha
      split at ha
      · cases ha
        exact ⟨Function.update_of_ne hj _ _, rfl⟩
      · cases ha
    | _ => cases ha
  | unlockAttach =>
    cases ch <;> cases ha
    exact ⟨Function.update_of_ne hj _ _, rfl⟩
  | setAttached db =>
    cases ch <;> cases ha
    simp [holding, DatabaseState.owned, hj]
  | attachDatabase info =>
    cases ch with
    | proceed =>
      simp only [databaseAnswer] at ha
      split at ha
      · cases ha
        exact ⟨rfl, rfl⟩
      · cases ha
        -- the new database is the caller's, not the other table's
        have howned := owned_attach (s := s) (i := i) (identifier info.name) s.next j
        rw [if_neg hj] at howned
        exact ⟨rfl, congrArg (Holding.mk _) howned⟩
    | fail e =>
      cases ha
      exact ⟨rfl, rfl⟩
    | _ => cases ha
  | detachDatabase name =>
    cases ch with
    | proceed =>
      cases ha
      -- what is detached has the caller's name, and names differ
      have hname : identifier name = T.name i := congrArg identifier hop
      have howned := owned_detach hT hs (i := i) j
      rw [if_neg hj, ← hname] at howned
      exact ⟨rfl, congrArg (Holding.mk _) howned⟩
    | fail e =>
      cases ha
      exact ⟨rfl, rfl⟩
    | _ => cases ha
  | _ => cases ch <;> cases ha <;> exact ⟨rfl, rfl⟩

/-- Most operations leave a table's holding alone, the database manager's included. -/
theorem databaseAnswer_leavesHolding {op : Op} {ch : DatabaseChoice} {x : Except Exception op.Ans}
    (hop : op.LeavesHolding) (ha : T.databaseAnswer c s i op ch = some (x, s')) :
    s'.holder = s.holder ∧ s'.attached = s.attached ∧ s'.databases = s.databases ∧
      s'.refused = s.refused := by
  cases op with
  | lockAttach => exact hop.elim
  | unlockAttach => exact hop.elim
  | setAttached db => exact hop.elim
  | attachDatabase info => exact hop.elim
  | detachDatabase name => exact hop.elim
  | _ => cases ch <;> cases ha <;> exact ⟨rfl, rfl, rfl, rfl⟩

/-- `c` is at work at a table, and holds what `Q` says for it. -/
def Working (c : ℕ) (i : T.Table) (Q : Holding → Prop) (s : DatabaseState T.Table) : Prop :=
  s.holder i = some c ∧ Q (T.holding s i)

/-- Whoever works on a table holds its lock alone. -/
theorem Working.alone {Q : Holding → Prop} (hw : Working c i Q s) :
    ∀ d, s.holder i = some d → d = c :=
  fun _ hd => Option.some.inj (hd.symm.trans hw.1)

/-- While one works on it, the lock is not free. -/
theorem Working.not_free {Q : Holding → Prop} {q : Prop} (hw : Working c i Q s)
    (hfree : s.holder i = none) :
    q := by
  rw [hw.1] at hfree
  cases hfree

/-- What the holder of the lock knows of the holding is left alone by the others: they can only take
databases of their own tables. -/
theorem stable_working {Q : Holding → Prop} (hQ : Holding.Lasts Q) :
    T.owning.Stable c (Working c i Q) := by
  rintro s s' hrel - - ⟨hi, hq⟩
  obtain ⟨hi', hatt, howned⟩ := hrel i hi
  have hq' : Q ⟨s.attached i, s'.owned i⟩ := hQ (T.holding s i) _ howned hq
  rw [← hatt] at hq'
  exact ⟨hi', hq'⟩

/-- A program that returns has to show what holds for its value. -/
theorem safe_return {α : Type} {Q : Except Exception α → Holding → Prop} {a : α}
    (hQ : Holding.Lasts (Q (.ok a))) (hs : T.Owners s) (h : Working c i (Q (.ok a)) s) :
    T.owning.Safe c (.ret a) (fun x => Working c i (Q x)) s :=
  Outline.safe_ofExcept (x := .ok a) (stable_working hQ) hs h

/-- A program that throws has to show what holds for its error. -/
theorem safe_throw {α : Type} {Q : Except Exception α → Holding → Prop} {e : Exception}
    (hQ : Holding.Lasts (Q (.error e))) (hs : T.Owners s) (h : Working c i (Q (.error e)) s) :
    T.owning.Safe c (.throw e) (fun x => Working c i (Q x)) s :=
  Outline.safe_ofExcept (x := .error e) (stable_working hQ) hs h

/-- What a thread does at a table that no other is at work at keeps the invariant, and what the
others rely on. -/
theorem owners_step (hT : T.NamesDiffer) {op : Op} {ch : DatabaseChoice}
    {x : Except Exception op.Ans}
    (hop : (T.table i).OwnName op) (hs : T.Owners s) (hi : ∀ d, s.holder i = some d → d = c)
    (ha : T.databaseAnswer c s i op ch = some (x, s')) (hrefused : s'.refused = [])
    (hsingle : (s'.owned i).length ≤ 1)
    (hrecorded : s'.holder i = none → (T.holding s' i).Recorded) :
    T.Owners s' ∧ ∀ d, d ≠ c → T.owning.rely d s s' := by
  have hothers {j : T.Table} (hj : j ≠ i) := databaseAnswer_others hT hs.toDatabaseInv hop ha hj
  have howned {j : T.Table} (hj : j ≠ i) : s'.owned j = s.owned j :=
    congrArg Holding.owned (hothers hj).2
  refine ⟨⟨databaseAnswer_inv hT hs.toDatabaseInv hop ha, hrefused, fun j => ?_, fun j hfree => ?_⟩,
    fun d hd j hj => ?_⟩
  · by_cases hj : j = i
    · subst hj
      exact hsingle
    · rw [howned hj]
      exact hs.single j
  · by_cases hj : j = i
    · subst hj
      exact hrecorded hfree
    · rw [(hothers hj).2]
      exact hs.recorded j ((hothers hj).1.symm.trans hfree)
  · -- another thread holds locks of other tables only
    have hne : j ≠ i := by
      rintro rfl
      exact hd (hi d hj)
    obtain ⟨hholder, hholding⟩ := hothers hne
    refine ⟨hholder.trans hj, congrArg Holding.attached hholding, ?_⟩
    rw [howned hne]
    exact List.Subset.refl _

/-- An operation on a table, of the thread that is at work at it. -/
theorem safe_working (hT : T.NamesDiffer) {op : Op} {Q : Holding → Prop}
    {R : Except Exception op.Ans → Holding → Prop} (hop : (T.table i).OwnName op)
    (hQ : Holding.Lasts Q) (hR : ∀ x, Holding.Lasts (R x))
    (h : ∀ s ch x s', T.Owners s → Working c i Q s → T.databaseAnswer c s i op ch = some (x, s') →
      Working c i (R x) s' ∧ s'.refused = [] ∧ (s'.owned i).length ≤ 1)
    (hs : T.Owners s) (hw : Working c i Q s) :
    T.owning.Safe c ((Prog.perform (F := Client) op).on i) (fun x => Working c i (R x)) s := by
  rw [Prog.on_perform]
  refine Outline.safe_perform (fun x => stable_working (hR x)) ?_
  intro (u : DatabaseState T.Table) hrel (hu : T.Owners u) ch x (v : DatabaseState T.Table) _ ha
  have hwu : Working c i Q u := stable_working hQ s u hrel hs hu hw
  obtain ⟨hwv, hrefused, hsingle⟩ := h u ch x v hu hwu ha
  obtain ⟨hv, hothers⟩ := owners_step hT hop hu hwu.alone ha hrefused hsingle hwv.not_free
  exact ⟨hv, hothers, hwv⟩

/-! ### The operations of an attach -/

/-- What leaves the holding alone is on the table's own name or on none. -/
theorem ownName_of_leavesHolding {t : TableInformation} {op : Op} (hop : op.LeavesHolding) :
    t.OwnName op := by
  cases op <;> first | exact trivial | exact hop.elim

/-- A program that leaves what is held alone leaves what is said of it. -/
theorem safe_leavesHolding (hT : T.NamesDiffer) {α : Type} {p : Run α} {Q : Holding → Prop}
    (hp : p.Uses Op.LeavesHolding) (hQ : Holding.Lasts Q) (hs : T.Owners s) (hw : Working c i Q s) :
    T.owning.Safe c (p.on i) (fun _ => Working c i Q) s := by
  induction p generalizing s with
  | ret a => exact safe_return (Q := fun _ => Q) hQ hs hw
  | throw e => exact safe_throw (Q := fun _ => Q) hQ hs hw
  | call op k ih =>
    intro (u : DatabaseState T.Table) hrel (hu : T.Owners u) ch x (v : DatabaseState T.Table) _ ha
    have hwu : Working c i Q u := stable_working hQ s u hrel hs hu hw
    obtain ⟨hholder, hatt, hdatabases, hrefused⟩ := databaseAnswer_leavesHolding hp.1 ha
    have howned : v.owned i = u.owned i := by simp [DatabaseState.owned, hdatabases]
    have hwv : Working c i Q v := by
      rw [Working, holding, hholder, hatt, howned]
      exact hwu
    obtain ⟨hv, hothers⟩ := owners_step hT (ownName_of_leavesHolding hp.1) hu hwu.alone ha
      (hrefused.trans hu.accepted) (by rw [howned]; exact hu.single i) hwv.not_free
    exact ⟨hv, hothers, ih x (hp.2 x) hv hwv⟩

/-- The reference that is read is the one of the holding. -/
theorem safe_attached (hT : T.NamesDiffer) {Q : Holding → Prop} (hQ : Holding.Lasts Q)
    (hs : T.Owners s) (hw : Working c i Q s) :
    T.owning.Safe c (attached.on i) (fun x => Working c i fun h => Q h ∧ x = .ok h.attached) s := by
  have hop : (T.table i).OwnName .attached := trivial
  refine safe_working
    (R := fun (x : Except Exception (Op.Ans .attached)) (h : Holding) => Q h ∧ x = .ok h.attached)
    hT hop hQ (fun x h ds hsub hq => ⟨hQ h ds hsub hq.1, hq.2⟩) ?_ hs hw
  intro u ch x v hu ⟨hi, hq⟩ ha
  cases ch <;> cases ha
  exact ⟨⟨hi, hq, rfl⟩, hu.accepted, hu.single i⟩

/-- The pointer moves. -/
theorem safe_setAttached (hT : T.NamesDiffer) {Q R : Holding → Prop} (db : Option AttachedDatabase)
    (hQ : Holding.Lasts Q) (hR : Holding.Lasts R) (h : ∀ h, Q h → R { h with attached := db })
    (hs : T.Owners s) (hw : Working c i Q s) :
    T.owning.Safe c ((setAttached db).on i) (fun _ => Working c i R) s := by
  have hop : (T.table i).OwnName (.setAttached db) := trivial
  refine safe_working (R := fun _ => R) hT hop hQ (fun _ => hR) ?_ hs hw
  intro u ch x v hu ⟨hi, hq⟩ ha
  cases ch <;> cases ha
  refine ⟨⟨hi, ?_⟩, hu.accepted, hu.single i⟩
  rw [holding_setAttached]
  exact h _ hq

/-- A detach that succeeds leaves no database of the table's. -/
theorem safe_detachDatabase (hT : T.NamesDiffer) {Q : Holding → Prop} (hQ : Holding.Lasts Q)
    (hs : T.Owners s) (hw : Working c i Q s) :
    T.owning.Safe c ((detachDatabase (T.table i).attachedCatalogName).on i)
      (fun x => Working c i fun h => Q h ∧ (x = .ok () → h.Empty)) s := by
  have hop : (T.table i).OwnName (.detachDatabase (T.table i).attachedCatalogName) := rfl
  refine safe_working (R := fun x h => Q h ∧ (x = .ok () → h.Empty)) hT hop hQ
     (fun x => Holding.lasts_and hQ (Holding.lasts_imp Holding.lasts_empty)) ?_ hs hw
  intro u ch x v hu ⟨hi, hq⟩ ha
  cases ch with
  | proceed =>
    cases ha
    have howned := owned_detach hT hu.toDatabaseInv (i := i) i
    rw [if_pos rfl] at howned
    refine ⟨⟨hi, ?_, fun _ => howned⟩, hu.accepted, ?_⟩
    · refine hQ (T.holding u i) _ (fun db hdb => ?_) hq
      exact absurd hdb (List.eq_nil_iff_forall_not_mem.1 howned db)
    · exact (congrArg List.length howned).le.trans (Nat.zero_le 1)
  | fail e =>
    cases ha
    exact ⟨⟨hi, hq, fun hx => by cases hx⟩, hu.accepted, hu.single i⟩
  | _ => cases ha

/-- Where the table has no database, an attach is not refused: no other has its name. -/
theorem safe_attachDatabase (hT : T.NamesDiffer) {info : AttachInfo}
    (hname : info.name = (T.table i).attachedCatalogName) (hs : T.Owners s)
    (hw : Working c i Holding.Bare s) :
    T.owning.Safe c ((attachDatabase info).on i)
      (fun x => Working c i fun h =>
        (∀ db, x = .ok db → h.Fresh db) ∧ ∀ e, x = .error e → h.Bare) s := by
  have hop : (T.table i).OwnName (.attachDatabase info) := hname
  refine safe_working (R := fun x h => (∀ db, x = .ok db → h.Fresh db) ∧ ∀ e, x = .error e →
    h.Bare) hT hop
    Holding.lasts_bare (fun x h ds hsub hq =>
      ⟨fun db hx => Holding.lasts_fresh db h ds hsub (hq.1 db hx),
      fun e hx => Holding.lasts_bare h ds hsub (hq.2 e hx)⟩) ?_ hs hw
  intro u ch x v hu ⟨hi, hb⟩ ha
  cases ch with
  | proceed =>
    simp only [databaseAnswer] at ha
    split at ha
    · -- a database of this name would be the table's
      rename_i n j db hfind
      have hfound : n = identifier info.name := by simpa using List.find?_some hfind
      have hn : n = T.name i := hfound.trans (congrArg identifier hname)
      have hmem := List.mem_of_find?_eq_some hfind
      obtain rfl : j = i := hu.owner hT hmem hn
      have howned : db ∈ u.owned j := mem_owned.2 ⟨n, hmem⟩
      rw [show u.owned j = [] from hb.2] at howned
      cases howned
    · cases ha
      have howned := owned_attach (s := u) (i := i) (identifier info.name) u.next i
      rw [if_pos rfl, show u.owned i = [] from hb.2] at howned
      refine ⟨⟨hi, fun db hx => ⟨hb.1, ?_⟩, fun e hx => by cases hx⟩, hu.accepted, ?_⟩
      · obtain rfl := Except.ok.inj hx
        exact fun db hdb => howned ▸ hdb
      · exact (congrArg List.length howned).le
  | fail e =>
    cases ha
    exact ⟨⟨hi, fun db hx => (by cases hx), fun e _ => hb⟩, hu.accepted, hu.single i⟩
  | _ => cases ha

/-! ## The programs -/

/-- What an `InternalDetach` that fails leaves recorded is what it found. -/
theorem safe_internalDetach (hT : T.NamesDiffer) (hs : T.Owners s)
    (hw : Working c i Holding.Recorded s) :
    T.owning.Safe c ((T.table i).internalDetach.on i)
      (fun x => Working c i fun h => h.Recorded ∧ (x = .ok () → h.Bare)) s := by
  have hlasts (x : Except Exception Unit) : Holding.Lasts fun h => h.Recorded ∧
      (x = .ok () → h.Bare) :=
    Holding.lasts_and Holding.lasts_recorded (Holding.lasts_imp Holding.lasts_bare)
  have hprogram : (T.table i).internalDetach.on i = (attached.on i).bind fun db =>
      (if db.isSome then (detachDatabase (T.table i).attachedCatalogName).bind fun _ =>
        setAttached none
        else .ret ()).on i := Prog.on_bind i _ _
  rw [hprogram]
  refine (safe_attached hT Holding.lasts_recorded hs hw).bind hs (fun db s₁ hs₁ h₁ => ?_)
    fun e s₁ _ h₁ => by cases h₁.2.2
  obtain ⟨hi₁, hrecorded, hdb⟩ := h₁
  split
  · -- the database goes first, and the pointer stays where that fails
    rw [Prog.on_bind]
    refine (safe_detachDatabase hT Holding.lasts_recorded hs₁ ⟨hi₁, hrecorded⟩).bind hs₁
      (fun _ s₂ hs₂ h₂ => ?_) fun e s₂ hs₂ h₂ => ?_
    · refine (safe_setAttached hT none Holding.lasts_empty Holding.lasts_bare (fun h he =>
        ⟨rfl, he⟩) hs₂
        ⟨h₂.1, h₂.2.2 rfl⟩).mono fun x s₃ h₃ => ?_
      exact ⟨h₃.1, h₃.2.2.recorded, fun _ => h₃.2⟩
    · exact safe_throw (hlasts _) hs₂ ⟨h₂.1, h₂.2.1, fun hx => by cases hx⟩
  · rename_i hnone
    have hattached : (T.holding s₁ i).attached = none := by
      rw [Except.ok.inj hdb] at hnone
      simpa using hnone
    exact safe_return (hlasts _) hs₁ ⟨hi₁, hrecorded, fun _ => hrecorded.bare hattached⟩

/-- Loading a managed table asks the catalog, and touches no database. -/
theorem leavesHolding_loadManaged (t : TableInformation) : t.loadManaged.Uses Op.LeavesHolding := by
  have hload : t.loadCommits.Uses Op.LeavesHolding := by
    refine Prog.Uses.bind ?_ fun commits => ?_
    · rw [TableInformation.loadTable, UCAPI.loadTable_eq]
      refine (Prog.uses_perform trivial).bind fun _ => (Prog.uses_perform trivial).bind fun _ => ?_
      exact (Prog.uses_perform trivial).bind fun resp => Prog.uses_ofExcept _
    · refine (Prog.uses_perform trivial).bind fun state => Prog.Uses.bind ?_ fun wm => ?_
      · rw [TableInformation.newWatermark]
        split
        · trivial
        · refine (t.uses_backfillLoop _ _).mono fun op hop => ?_
          cases op <;> first | exact trivial | exact hop.elim
      · exact (Prog.uses_perform trivial).bind fun _ => trivial
  rw [TableInformation.loadManaged]
  split
  · exact hload.bind fun _ => trivial
  · trivial

/-- Asking what the transaction has read touches none. -/
theorem leavesHolding_readByThisTransaction : readByThisTransaction.Uses Op.LeavesHolding := by
  refine (Prog.uses_perform trivial).bind fun db => ?_
  cases db with
  | some db => exact Prog.uses_perform trivial
  | none => trivial

/-- A fresh attach is recorded, or there is none. -/
theorem safe_attachFresh (hT : T.NamesDiffer) (hs : T.Owners s) (hw : Working c i Holding.Bare s) :
    T.owning.Safe c ((T.table i).attachFresh.on i) (fun _ => Working c i Holding.Recorded) s := by
  have hprogram : (T.table i).attachFresh.on i = ((T.table i).loadManaged.on i).bind fun managed =>
      ((attachDatabase ((T.table i).attachInfo managed)).bind fun db =>
        setAttached (some db)).on i :=
    Prog.on_bind i _ _
  rw [hprogram]
  have herr (e : Exception) {s : DatabaseState T.Table} (hs : T.Owners s)
      (h : Working c i Holding.Bare s) :
      T.owning.Safe c (.throw e : Prog (Client.indexed T.Table) Exception Unit)
        (fun _ => Working c i Holding.Recorded) s :=
    safe_throw (Q := fun _ => Holding.Recorded) Holding.lasts_recorded hs ⟨h.1, h.2.2.recorded⟩
  refine (safe_leavesHolding hT (leavesHolding_loadManaged _) Holding.lasts_bare hs hw).bind hs
    (fun managed s₁ hs₁ h₁ => ?_) fun e s₁ hs₁ h₁ => herr e hs₁ h₁
  rw [Prog.on_bind]
  refine (safe_attachDatabase hT rfl hs₁ h₁).bind hs₁ (fun db s₂ hs₂ h₂ => ?_)
    fun e s₂ hs₂ h₂ => herr e hs₂ ⟨h₂.1, h₂.2.2 e rfl⟩
  refine safe_setAttached hT (some db) (Holding.lasts_fresh db) Holding.lasts_recorded ?_ hs₂
    ⟨h₂.1, h₂.2.1 db rfl⟩
  intro h hfresh db' hdb'
  rw [List.mem_singleton.1 (hfresh.2 hdb')]

/-- What `InternalAttach` does under the lock. -/
theorem safe_attachLocked (hT : T.NamesDiffer) (hs : T.Owners s)
    (hw : Working c i Holding.Recorded s) :
    T.owning.Safe c ((attached.bind fun db =>
      if db.isSome then .ret () else (T.table i).attachFresh).on i)
      (fun _ => Working c i Holding.Recorded) s := by
  rw [Prog.on_bind]
  refine (safe_attached hT Holding.lasts_recorded hs hw).bind hs (fun db s₁ hs₁ h₁ => ?_)
    fun e s₁ _ h₁ => by cases h₁.2.2
  obtain ⟨hi₁, hrecorded, hdb⟩ := h₁
  split
  · exact safe_return (Q := fun _ => Holding.Recorded) Holding.lasts_recorded hs₁ ⟨hi₁, hrecorded⟩
  · rename_i hnone
    have hattached : (T.holding s₁ i).attached = none := by
      rw [Except.ok.inj hdb] at hnone
      simpa using hnone
    exact safe_attachFresh hT hs₁ ⟨hi₁, hrecorded.bare hattached⟩

/-- Whoever takes the lock finds all databases recorded. -/
theorem safe_lockAttach (hT : T.NamesDiffer) :
    T.owning.Safe c (lockAttach.on i) (fun x s => x = .ok () ∧
      Working c i Holding.Recorded s) s := by
  rw [lockAttach, Prog.on_perform]
  refine Outline.safe_perform (fun x => (Outline.stable_const _).and
    (stable_working Holding.lasts_recorded)) ?_
  intro (u : DatabaseState T.Table) _ (hu : T.Owners u) ch x (v : DatabaseState T.Table) _
    (ha : T.databaseAnswer c u i .lockAttach ch = some (x, v))
  have hop : (T.table i).OwnName .lockAttach := trivial
  have hstep := ha
  cases ch with
  | proceed =>
    simp only [databaseAnswer] at ha
    split at ha
    · rename_i hfree
      cases ha
      have hw : Working c i Holding.Recorded
          { u with holder := Function.update u.holder i (some c) } :=
        ⟨Function.update_self .., hu.recorded i hfree⟩
      obtain ⟨hv, hothers⟩ :=
        owners_step hT hop hu (fun d hd => by rw [hfree] at hd; cases hd) hstep
        hu.accepted (hu.single i) hw.not_free
      exact ⟨hv, hothers, rfl, hw⟩
    · cases ha
  | _ => cases ha

/-- Whoever gives it back leaves all recorded. -/
theorem safe_unlockAttach (hT : T.NamesDiffer) (hs : T.Owners s)
    (hw : Working c i Holding.Recorded s) :
    T.owning.Safe c (unlockAttach.on i) (fun x _ => x = .ok () ∧ True) s := by
  rw [unlockAttach, Prog.on_perform]
  refine Outline.safe_perform (fun x => Outline.stable_const _) ?_
  intro (u : DatabaseState T.Table) hrel (hu : T.Owners u) ch x (v : DatabaseState T.Table) _
    (ha : T.databaseAnswer c u i .unlockAttach ch = some (x, v))
  have hop : (T.table i).OwnName .unlockAttach := trivial
  have hwu : Working c i Holding.Recorded u :=
    stable_working Holding.lasts_recorded s u hrel hs hu hw
  have hstep := ha
  cases ch <;> cases ha
  obtain ⟨hv, hothers⟩ := owners_step hT hop hu hwu.alone hstep hu.accepted (hu.single i) fun _ =>
    hwu.2
  exact ⟨hv, hothers, rfl, trivial⟩

/-- The scope guard of the lock, at one table: it is given back after a return and after a throw. -/
theorem on_withAttachLock (p : Run Unit) :
    (withAttachLock p).on i = (lockAttach.on i).bind fun _ =>
      ((p.on i).tryCatch fun e => (unlockAttach.on i).bind fun _ => .throw e).bind fun a =>
        (unlockAttach.on i).bind fun _ => .ret a := by
  refine (Prog.on_bind i _ _).trans (congrArg _ (funext fun _ => ?_))
  refine (Prog.on_bind i _ _).trans (congr (congrArg _ ?_) (funext fun a => Prog.on_bind i _ _))
  exact (Prog.on_tryCatch i _ _).trans (congrArg _ (funext fun e => Prog.on_bind i _ _))

/-- What leaves the pointer naming every database may be done under the lock. -/
theorem keeps_withAttachLock (hT : T.NamesDiffer) {p : Run Unit}
    (hp : ∀ s, T.Owners s → Working c i Holding.Recorded s →
      T.owning.Safe c (p.on i) (fun _ => Working c i Holding.Recorded) s) :
    T.owning.Keeps c ((withAttachLock p).on i) := by
  intro s hs
  rw [on_withAttachLock]
  exact Outline.Safe.bracket (safe_lockAttach hT) hs hp
    (fun r s hs hw => safe_unlockAttach hT hs hw) (fun _ => stable_working Holding.lasts_recorded)
    fun _ => Outline.stable_const _

/-- `InternalAttach` keeps the invariant, also where the database is attached and then something
throws. -/
theorem keeps_internalAttach (hT : T.NamesDiffer) :
    T.owning.Keeps c ((T.table i).internalAttach.on i) := by
  refine keeps_withAttachLock hT fun s hs hw => ?_
  have herr (e : Exception) {s : DatabaseState T.Table} (hs : T.Owners s)
      (h : Working c i Holding.Recorded s) :
      T.owning.Safe c (.throw e : Prog (Client.indexed T.Table) Exception Unit)
        (fun _ => Working c i Holding.Recorded) s :=
    safe_throw (Q := fun _ => Holding.Recorded) Holding.lasts_recorded hs h
  simp only [Prog.bind_eq, Prog.on_bind]
  refine (safe_leavesHolding hT leavesHolding_readByThisTransaction Holding.lasts_recorded hs
    hw).bind hs
    (fun read s₁ hs₁ h₁ => ?_) fun e _ hs₁ h₁ => herr e hs₁ h₁
  have hdirty : isDirty.Uses Op.LeavesHolding := Prog.uses_perform trivial
  refine (safe_leavesHolding hT hdirty Holding.lasts_recorded hs₁ h₁).bind hs₁
    (fun dirty s₂ hs₂ h₂ => ?_) fun e _ hs₂ h₂ => herr e hs₂ h₂
  split
  · rw [Prog.on_bind]
    refine (safe_internalDetach hT hs₂ h₂).bind hs₂ (fun _ s₃ hs₃ h₃ => ?_)
      fun e _ hs₃ h₃ => herr e hs₃ ⟨h₃.1, h₃.2.1⟩
    rw [Prog.on_bind]
    have hclean : (setDirty false).Uses Op.LeavesHolding := Prog.uses_perform trivial
    refine (safe_leavesHolding hT hclean Holding.lasts_recorded hs₃ ⟨h₃.1, h₃.2.1⟩).bind hs₃
      (fun _ s₄ hs₄ h₄ => ?_) fun e _ hs₄ h₄ => herr e hs₄ h₄
    exact safe_attachLocked hT hs₄ h₄
  · exact safe_attachLocked hT hs₂ h₂

/-- A detach takes the recorded database away and with it the record. -/
theorem keeps_detach (hT : T.NamesDiffer) :
    T.owning.Keeps c ((withAttachLock (T.table i).internalDetach).on i) :=
  keeps_withAttachLock hT fun _ hs hw => (safe_internalDetach hT hs hw).mono fun _ _ h =>
    ⟨h.1, h.2.1⟩

/-- Detaching the catalog detaches its entries one by one. -/
theorem keeps_onDetach (hT : T.NamesDiffer) (entries : List T.Table) :
    T.owning.Keeps c (T.onDetach entries) := by
  induction entries with
  | nil => exact Outline.keeps_ret ()
  | cons i entries ih => exact (keeps_detach hT).bind fun _ => ih

/-! ## Every run -/

/-- In every interleaving of these calls the invariant holds. -/
theorem owners_of_reachable (hT : T.NamesDiffer) {cfg : T.attaches.Config}
    (h : T.attaches.system.Reachable cfg) : T.Owners cfg.state := by
  refine Outline.keeps_sound (O := T.owning) ⟨fun _ _ _ _ => trivial, fun _ _ => trivial⟩
    ?_ ?_ ?_ ?_ h
  · intro s hs
    rw [show s = {} from hs]
    exact ⟨⟨fun _ hx => absurd hx List.not_mem_nil, fun _ hx => absurd hx List.not_mem_nil,
      fun _ hx => absurd hx List.not_mem_nil⟩, rfl, fun _ => Nat.zero_le 1,
      fun _ _ _ hdb => absurd hdb List.not_mem_nil⟩
  · intro s c call p s' hs hst
    obtain ⟨rfl, rfl⟩ := Prod.mk.inj (Option.some.inj hst)
    refine ⟨hs, fun d _ => T.owning.rely_refl d _, ?_⟩
    cases call with
    | internalAttach i => exact keeps_internalAttach hT
    | onDetach entries => exact keeps_onDetach hT entries
  · exact fun s c r hs => ⟨hs, fun d _ => T.owning.rely_refl d _⟩
  · intro (s : DatabaseState T.Table) e s' (hs : T.Owners s) he
    cases e with
    | commit i =>
      simp only [attaches] at he
      split at he
      · obtain rfl := Option.some.inj he
        exact ⟨⟨hs.toDatabaseInv.same rfl rfl rfl, hs.accepted, hs.single, hs.recorded⟩,
          fun d j hj => ⟨hj, rfl, List.Subset.refl _⟩⟩
      · cases he
    | undo i =>
      obtain rfl := Option.some.inj he
      have hsub (j : T.Table) :
        ({ s with databases := s.databases.filter fun x => x.2.1 != i }.owned j).Sublist
          (s.owned j) := by
        rw [owned_undo]
        split
        · exact List.nil_sublist _
        · exact List.Sublist.refl _
      refine ⟨⟨⟨fun x hx => hs.named x (List.mem_of_mem_filter hx), hs.apart⟩, hs.accepted,
        fun j => (hsub j).length_le.trans (hs.single j), fun j hfree => ?_⟩,
        fun d j hj => ⟨hj, rfl, (hsub j).subset⟩⟩
      exact Holding.lasts_recorded (T.holding s j) _ (hsub j).subset (hs.recorded j hfree)

/-- **No database leaks.** Of tables no two of which straddle, in every interleaving no attach is
refused, a table has one database at most, and where nobody is at work at the table its entry's
pointer names it, so that the next detach removes it. -/
theorem no_database_leaks (T : AttachedTables) (hT : T.Unstraddled) {cfg : T.attaches.Config}
    (h : T.attaches.system.Reachable cfg) :
    DatabaseState.refused cfg.state = [] ∧ ∀ i, (DatabaseState.owned cfg.state i).length ≤ 1 ∧
      (DatabaseState.holder cfg.state i = none →
        ∀ db ∈ DatabaseState.owned cfg.state i, DatabaseState.attached cfg.state i = some db) := by
  have howners := owners_of_reachable (T.namesDiffer_iff.2 hT) h
  exact ⟨howners.accepted, fun i => ⟨howners.single i, howners.recorded i⟩⟩

/-- Tables `t` and `u` of schema `s`. -/
def neighbours : AttachedTables where
  Table := Bool
  decidableTable := inferInstance
  table i := if i then plainTable "s" "t" else plainTable "s" "u"
  catalog := by decide
  distinct := by decide

theorem neighbours_unstraddled : neighbours.Unstraddled := by
  refine neighbours.namesDiffer_iff.1 ?_
  rintro (_ | _) (_ | _) hij
  · exact absurd rfl hij
  · decide
  · decide
  · exact absurd rfl hij

/-- One table is attached, and a thread at the other has attached its database and not yet recorded
it. -/
def neighboursRun : List neighbours.attaches.Label :=
  [.start (0 : ℕ) (.internalAttach true)] ++ List.replicate 7 (.op (0 : ℕ) .proceed) ++
    [.finish (0 : ℕ)] ++
    [.start (1 : ℕ) (.internalAttach false)] ++ List.replicate 5 (.op (1 : ℕ) .proceed)

/-- What a run leaves attached, and what an `OnDetach` of `t` after it leaves. -/
theorem neighbours_reached : ∃ cfg s', neighbours.attaches.system.Reachable cfg ∧
    (neighbours.onDetach [true]).Exec (W := neighbours.attaches.toWorld) (2 : ℕ) cfg.state
      (.ok ()) s' ∧
    DatabaseState.holder cfg.state true = none ∧ DatabaseState.owned cfg.state true = [0] ∧
    DatabaseState.owned cfg.state false = [1] := by
  have h : ((neighbours.attaches.replay (fun _ _ => true) neighboursRun
      ⟨({} : DatabaseState Bool), fun _ => none⟩).bind fun cfg : neighbours.attaches.Config =>
        (Prog.follow (W := neighbours.attaches.toWorld) (2 : ℕ) (neighbours.onDetach [true])
          (List.replicate 5 .proceed) cfg.state).map fun r => ((r.1.toOption,
            DatabaseState.holder cfg.state true, DatabaseState.owned cfg.state true,
            DatabaseState.owned cfg.state false) :
              Option Unit × Option ℕ × List AttachedDatabase × List AttachedDatabase)) =
      some (some (), none, [0], [1]) := by
    decide +kernel
  obtain ⟨cfg, hcfg, h⟩ := Option.bind_eq_some_iff.1 h
  obtain ⟨⟨r, s'⟩, hexec, h⟩ := Option.map_eq_some_iff.1 h
  simp only [Prod.mk.injEq] at h
  obtain ⟨hr, hholder, howned, hother⟩ := h
  have hreached : neighbours.attaches.system.Reachable cfg :=
    ⟨⟨({} : DatabaseState Bool), fun _ => none⟩, ⟨rfl, rfl⟩,
      Pool.run_of_replay (fun _ _ _ => trivial) hcfg⟩
  cases r with
  | error e => cases hr
  | ok a => exact ⟨cfg, s', hreached, Prog.exec_of_follow _ hexec, hholder, howned, hother⟩

/-- The table nobody is at work at has recorded its database. -/
theorem no_database_leaks_neighbours : ∃ cfg, neighbours.attaches.system.Reachable cfg ∧
    DatabaseState.owned cfg.state true = [0] ∧ DatabaseState.attached cfg.state true = some 0 := by
  obtain ⟨cfg, -, hcfg, -, hfree, howned, -⟩ := neighbours_reached
  have hleaks := no_database_leaks neighbours neighbours_unstraddled hcfg
  refine ⟨cfg, hcfg, howned, (hleaks.2 true).2 hfree 0 ?_⟩
  rw [howned]
  exact List.mem_singleton.2 rfl

/-! ## Detaching the catalog -/

/-- The outline looks at every step. -/
theorem unguarded : T.owning.Unguarded := ⟨fun _ _ _ _ => trivial, fun _ _ => trivial⟩

/-- A detach of one table that nobody interrupts, and that returns. -/
theorem exec_detach (hT : T.NamesDiffer) (hs : T.Owners s)
    (he : ((withAttachLock (T.table i).internalDetach).on i).Exec (W := T.attaches.toWorld) c s
      (.ok ()) s') :
    T.Owners s' ∧ (T.holding s' i).Bare := by
  refine ⟨((keeps_detach hT s hs).exec unguarded hs he).1, ?_⟩
  have unlocked {u v : DatabaseState T.Table} {r : Except Exception Unit}
      (hunlock : (unlockAttach.on i).Exec (W := T.attaches.toWorld) c u r v) :
      r = .ok () ∧ T.holding v i = T.holding u i := by
    rw [unlockAttach, Prog.on_perform] at hunlock
    obtain ⟨ch, ha⟩ := Prog.exec_perform.1 hunlock
    cases ch <;> cases ha
    exact ⟨rfl, rfl⟩
  rw [on_withAttachLock] at he
  rcases Prog.exec_bind.1 he with ⟨_, s₁, hlock, he⟩ | ⟨e, -, he⟩
  · obtain ⟨hs₁, -, hw₁⟩ := (safe_lockAttach hT).exec unguarded hs hlock
    rcases Prog.exec_bind.1 he with ⟨_, s₂, hbody, he⟩ | ⟨e, -, he⟩
    · rcases Prog.exec_tryCatch.1 hbody with ⟨_, hbody, -⟩ | ⟨e, s₃, -, hrethrow⟩
      · obtain ⟨-, -, -, hbare⟩ := (safe_internalDetach hT hs₁ hw₁).exec unguarded hs₁ hbody
        rcases Prog.exec_bind.1 he with ⟨_, s₃, hunlock, -, rfl⟩ | ⟨e, -, he⟩
        · rw [(unlocked hunlock).2]
          exact hbare rfl
        · cases he
      · -- the handler gives the lock back and throws on
        rcases Prog.exec_bind.1 hrethrow with ⟨_, s₄, -, he, -⟩ | ⟨e', hunlock, -⟩
        · cases he
        · cases (unlocked hunlock).1
    · cases he
  · cases he

/-- What is done at one table leaves what is held for another. -/
theorem exec_others (hT : T.NamesDiffer) {p : Run Unit} (hp : p.Uses (T.table i).OwnName)
    (hs : T.DatabaseInv s) {r : Except Exception Unit}
    (he : (p.on i).Exec (W := T.attaches.toWorld) c s r s') {j : T.Table} (hj : j ≠ i) :
    T.holding s' j = T.holding s j := by
  have hon : (p.on i).Uses fun op : (Client.indexed T.Table).Op => op.1 = i ∧
      (T.table i).OwnName op.2 :=
    Prog.Uses.on (hp.mono fun op hop => ⟨rfl, hop⟩)
  refine (Prog.Exec.frame (I := fun u => T.DatabaseInv u ∧ T.holding u j = T.holding s j) hon ?_ he
    ⟨hs, rfl⟩).2
  rintro u ⟨_, op⟩ ch x v ⟨rfl, hop⟩ ⟨hu, hholding⟩ ha
  exact ⟨databaseAnswer_inv hT hu hop ha, (databaseAnswer_others hT hu hop ha hj).2.trans hholding⟩

/-- The loop over the entries. -/
theorem exec_onDetach (hT : T.NamesDiffer) {entries : List T.Table} :
    ∀ {s : DatabaseState T.Table}, T.Owners s →
      (T.onDetach entries).Exec (W := T.attaches.toWorld) c s (.ok ()) s' → ∀ i,
        (i ∈ entries → (T.holding s' i).Bare) ∧ (i ∉ entries → T.holding s' i = T.holding s i) := by
  induction entries with
  | nil =>
    rintro s - ⟨-, rfl⟩ i
    exact ⟨fun hi => absurd hi List.not_mem_nil, fun _ => rfl⟩
  | cons k entries ih =>
    intro s hs he i
    rcases Prog.exec_bind.1 he with ⟨_, s₁, hdetach, he⟩ | ⟨e, -, he⟩
    · obtain ⟨hs₁, hbare⟩ := exec_detach hT hs hdetach
      obtain ⟨hin, hout⟩ := ih hs₁ he i
      constructor
      · intro hi
        by_cases hmem : i ∈ entries
        · exact hin hmem
        · obtain rfl : i = k := (List.mem_cons.1 hi).resolve_right hmem
          rw [hout hmem]
          exact hbare
      · intro hi
        have hown : (withAttachLock (T.table k).internalDetach).Uses (T.table k).OwnName :=
          (TableInformation.uses_withAttachLock (T.table k).uses_internalDetach).mono
            fun _ hop => (TableInformation.attaching_of_attachStep hop).1
        have hne : i ≠ k := fun h => hi (h ▸ List.mem_cons_self)
        rw [hout fun hmem => hi (List.mem_cons_of_mem k hmem)]
        exact exec_others hT hown hs.toDatabaseInv hdetach hne
    · cases he

/-- **Detaching leaves nothing.** From any state a run comes to, an `OnDetach` that nobody
interrupts and that returns leaves its tables without a pointer and without a database, and the
others as they were. -/
theorem detach_leaves_nothing (T : AttachedTables) (hT : T.Unstraddled) {cfg : T.attaches.Config}
    (h : T.attaches.system.Reachable cfg) {c : ℕ} {entries : List T.Table}
    {s' : DatabaseState T.Table}
    (he : (T.onDetach entries).Exec (W := T.attaches.toWorld) c cfg.state (.ok ()) s')
    (i : T.Table) :
    (i ∈ entries → s'.attached i = none ∧ s'.owned i = []) ∧
      (i ∉ entries → s'.attached i = DatabaseState.attached cfg.state i ∧
        s'.owned i = DatabaseState.owned cfg.state i) := by
  have hnames : T.NamesDiffer := T.namesDiffer_iff.2 hT
  obtain ⟨hin, hout⟩ := exec_onDetach hnames (owners_of_reachable hnames h) he i
  refine ⟨fun hi => hin hi, fun hi => ?_⟩
  have hholding := hout hi
  exact ⟨congrArg Holding.attached hholding, congrArg Holding.owned hholding⟩

/-- One table's database is gone, and the other's is left. -/
theorem detach_leaves_nothing_neighbours : ∃ cfg s', neighbours.attaches.system.Reachable cfg ∧
    (neighbours.onDetach [true]).Exec (W := neighbours.attaches.toWorld) (2 : ℕ) cfg.state
      (.ok ()) s' ∧
    DatabaseState.owned cfg.state true = [0] ∧ DatabaseState.owned s' true = [] ∧
    DatabaseState.owned s' false = [1] := by
  obtain ⟨cfg, s', hcfg, hexec, -, howned, hother⟩ := neighbours_reached
  have hdetach := detach_leaves_nothing neighbours neighbours_unstraddled hcfg hexec
  have hout : (false : Bool) ∉ [true] := by decide
  refine ⟨cfg, s', hcfg, hexec, howned, ((hdetach true).1 (List.mem_singleton.2 rfl)).2, ?_⟩
  exact ((hdetach false).2 hout).2.trans hother

end AttachedTables

end UnityCatalog
