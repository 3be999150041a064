import UnityCatalog.CatalogLocks

/-!
# The schema list is loaded once

`UCSchemaSet` lists the schemas of a catalog once and answers every lookup from that list, until
`ClearEntries` drops it. `SchemaEvent.next` says what its callers may see of it: an object that is
either empty or holds a list as it was loaded, and that changes in one step each time. In every
interleaving of the catalog's calls the lookups, scans and clearings, in the order they happen, are
a history of that object (`schema_list_is_atomic`): nobody is answered from a list that is half
loaded, the list is not loaded twice, and lookups of one name agree.

A load that fails half way leaves what it has added. It shows nothing of it, but the next load keeps
these entries.
-/

namespace UnityCatalog

open Effectful Yyjson

/-! ## What callers see -/

/-- `schemas.find`; the keys' case makes no difference. -/
def findSchema (schemas : List UCSchemaEntry) (schema_name : String) : Option UCSchemaEntry :=
  schemas.find? fun entry => lower entry.name == lower schema_name

/-- What happens to the schema list. -/
inductive SchemaEvent where
  /-- it is loaded -/
  | loaded (schemas : List UCSchemaEntry)
  /-- a lookup is answered -/
  | looked (schema_name : String) (entry : Option UCSchemaEntry)
  /-- a scan begins -/
  | scanned (schemas : List UCSchemaEntry)
  /-- it is dropped -/
  | cleared
  deriving DecidableEq

/-- The object: what it becomes, or `none` where it cannot happen. -/
def SchemaEvent.next : Option (List UCSchemaEntry) → SchemaEvent →
    Option (Option (List UCSchemaEntry))
  | none, .loaded schemas => some (some schemas)
  | some schemas, .looked schema_name entry =>
    if entry = findSchema schemas schema_name then some (some schemas) else none
  | some schemas, .scanned schemas' => if schemas' = schemas then some (some schemas) else none
  | _, .cleared => some none
  | _, _ => none

/-- What a history leads to. -/
def schemasAfter (start : Option (List UCSchemaEntry)) (history : List SchemaEvent) :
    Option (Option (List UCSchemaEntry)) :=
  history.foldlM SchemaEvent.next start

/-- What a history leads to is what its end leads to from where its beginning does. -/
theorem schemasAfter_append (start : Option (List UCSchemaEntry))
    (history history' : List SchemaEvent) :
    schemasAfter start (history ++ history') =
      (schemasAfter start history).bind fun schemas => schemasAfter schemas history' :=
  List.foldlM_append ..

/-- The last event of a history is the one that counts last. -/
theorem schemasAfter_concat (start : Option (List UCSchemaEntry)) (history : List SchemaEvent)
    (event : SchemaEvent) :
    schemasAfter start (history ++ [event]) =
      (schemasAfter start history).bind fun schemas => event.next schemas := by
  rw [schemasAfter_append]
  cases schemasAfter start history with
  | none => rfl
  | some schemas =>
    show (event.next schemas).bind some = event.next schemas
    cases event.next schemas <;> rfl

/-- A list that is not dropped stays as it is. -/
theorem schemasAfter_of_not_cleared {schemas : List UCSchemaEntry} {history : List SchemaEvent}
    {after : Option (List UCSchemaEntry)} (h : schemasAfter (some schemas) history = some after)
    (hkept : SchemaEvent.cleared ∉ history) : after = some schemas := by
  induction history with
  | nil => exact (Option.some.inj h).symm
  | cons event history ih =>
    obtain ⟨hevent, hhistory⟩ := not_or.1 (fun hmem => hkept (List.mem_cons.2 hmem))
    obtain ⟨next, hnext, hrest⟩ := Option.bind_eq_some_iff.1 h
    -- what does not drop the list leaves it
    have hsame : next = some schemas := by
      cases event with
      | loaded schemas' => cases hnext
      | looked schema_name entry => simp_all [SchemaEvent.next]
      | scanned schemas' => simp_all [SchemaEvent.next]
      | cleared => exact absurd rfl hevent
    subst hsame
    exact ih hrest hhistory

/-- **Lookups agree.** Between two clearings, lookups of one name find the same entry. -/
theorem lookups_agree {before between behind : List SchemaEvent} {schema_name schema_name' : String}
    {entry entry' : Option UCSchemaEntry}
    (h : schemasAfter none (before ++ .looked schema_name entry :: (between ++
      .looked schema_name' entry' :: behind)) ≠ none)
    (hkept : SchemaEvent.cleared ∉ between) (hname : lower schema_name = lower schema_name') :
    entry = entry' := by
  obtain ⟨after, h⟩ := Option.ne_none_iff_exists'.1 h
  rw [schemasAfter_append] at h
  obtain ⟨start, -, h⟩ := Option.bind_eq_some_iff.1 h
  obtain ⟨next, hnext, h⟩ := Option.bind_eq_some_iff.1 h
  cases start with
  | none => cases hnext
  | some schemas =>
    have hfirst : entry = findSchema schemas schema_name ∧ next = some schemas := by
      simp only [SchemaEvent.next] at hnext
      split at hnext
      · rename_i hentry
        exact ⟨hentry, (Option.some.inj hnext).symm⟩
      · cases hnext
    obtain ⟨hentry, rfl⟩ := hfirst
    obtain ⟨between', hbetween, h⟩ :=
      Option.bind_eq_some_iff.1 ((schemasAfter_append _ _ _).symm.trans h)
    obtain rfl := schemasAfter_of_not_cleared hbetween hkept
    obtain ⟨last, hlast, -⟩ := Option.bind_eq_some_iff.1 h
    have hsecond : entry' = findSchema schemas schema_name' := by
      simp only [SchemaEvent.next] at hlast
      split at hlast
      · assumption
      · cases hlast
    rw [hentry, hsecond, findSchema, findSchema, hname]

/-! ## The members -/

/-- `SchemaSetState`, with what has happened to it. -/
structure SchemaSetState where
  schemas : List UCSchemaEntry := []
  is_loaded : Bool := false
  /-- how many entries have been made -/
  made : ℕ := 0
  /-- what the requests for the list were answered -/
  answers : List HttpResponse := []
  history : List SchemaEvent := []

namespace SchemaSetState

/-- `schemas.emplace`: an entry that is there already stays. -/
def emplace (m : SchemaSetState) (schema_name : String) (internal : Bool) : SchemaSetState :=
  if (findSchema m.schemas schema_name).isSome then m
  else { m with
    schemas := m.schemas ++ [⟨m.made, schema_name, internal⟩]
    made := m.made + 1 }

/-- What the list is for callers, where nobody is at work on it. -/
def view (m : SchemaSetState) : Option (List UCSchemaEntry) :=
  if m.is_loaded then some m.schemas else none

/-- What an operation on the list answers and leaves; `none` for an operation that is none on it. -/
def answer (m : SchemaSetState) : (op : CatalogOp) → Option (op.Ans × SchemaSetState)
  | .lockSchemas => some ((), m)
  | .unlockSchemas => some ((), m)
  | .schemasLoaded => some (m.is_loaded, m)
  | .setSchemasLoaded b => some ((), { m with
      is_loaded := b
      history := if b then m.history ++ [.loaded m.schemas] else m.history })
  | .emplaceSchema schema_name internal => some ((), m.emplace schema_name internal)
  | .findSchema schema_name => some (findSchema m.schemas schema_name, { m with
      history := m.history ++ [.looked schema_name (findSchema m.schemas schema_name)] })
  | .schemas => some (m.schemas, { m with history := m.history ++ [.scanned m.schemas] })
  | .clearSchemas => some ((), { m with schemas := [], history := m.history ++ [.cleared] })
  | _ => none

/-- An answer to a request for the list is kept. -/
def heard (m : SchemaSetState) : Place → (op : Op) → Except Exception op.Ans → SchemaSetState
  | .catalog, .answer, .ok resp => { m with answers := m.answers ++ [resp] }
  | _, _, _ => m

/-- The list itself is the same, and no answer is forgotten. -/
structure Same (m m' : SchemaSetState) : Prop where
  schemas : m'.schemas = m.schemas
  is_loaded : m'.is_loaded = m.is_loaded
  history : m'.history = m.history
  answers : m.answers ⊆ m'.answers

/-- A list is the same as itself. -/
theorem Same.refl (m : SchemaSetState) : m.Same m := ⟨rfl, rfl, rfl, List.Subset.refl _⟩

/-- Lists that are the same by steps are the same. -/
theorem Same.trans {m m' m'' : SchemaSetState} (h : m.Same m') (h' : m'.Same m'') : m.Same m'' :=
  ⟨h'.schemas.trans h.schemas, h'.is_loaded.trans h.is_loaded, h'.history.trans h.history,
    List.Subset.trans h.answers h'.answers⟩

/-- To hear an answer notes it, and changes nothing in the list. -/
theorem same_heard (m : SchemaSetState) (place : Place) (op : Op) (x : Except Exception op.Ans) :
    m.Same (m.heard place op x) := by
  unfold heard
  split
  · exact ⟨rfl, rfl, rfl, List.subset_append_left _ _⟩
  · exact Same.refl m

end SchemaSetState

/-- Surroundings whose schema list is that. -/
def Surroundings.withSchemaSet (S : Surroundings) : Surroundings where
  State := S.State × SchemaSetState
  Choice := S.Choice
  answer c s op ch :=
    match op with
    | .inl (place, op) =>
      (S.answer c s.1 (.inl (place, op)) ch).map fun y => (y.1, y.2, s.2.heard place op y.1)
    | .inr op =>
      match s.2.answer op with
      | some y => some (.ok y.1, s.1, y.2)
      | none => (S.answer c s.1 (.inr op) ch).map fun y => (y.1, y.2, s.2)
  responds c s op := by
    rcases op with op | op
    · obtain ⟨ch, hch⟩ := S.responds c s.1 (.inl op)
      exact ⟨ch, Option.isSome_map.trans hch⟩
    · obtain ⟨ch, hch⟩ := S.responds c s.1 (.inr op)
      refine ⟨ch, ?_⟩
      dsimp only
      split
      · rfl
      · exact Option.isSome_map.trans hch
  Env := S.Env
  env s e := (S.env s.1 e).map fun s' => (s', s.2)
  init s := S.init s.1 ∧ s.2 = {}

/-! ## Complete lists -/

namespace AttachedCatalog

variable (t : AttachedCatalog)

/-- Unity Catalog has listed these schemas. -/
def Listed (m : SchemaSetState) (listing : List UCAPISchema) : Prop :=
  ∃ resp ∈ m.answers, resp.accepted statusInvalid = true ∧
    decodeGetSchemas t.internal_name (read resp.body) = some listing

/-- The list has every schema of one listing, and of each entry's name it was told by some
listing. -/
structure Complete (m : SchemaSetState) (schemas : List UCSchemaEntry) : Prop where
  whole : ∃ listing, t.Listed m listing ∧
    ∀ schema ∈ listing, (findSchema schemas schema.schema_name).isSome
  told : ∀ entry ∈ schemas, ∃ listing, t.Listed m listing ∧
    ∃ schema ∈ listing, schema.schema_name = entry.name

variable {t} {m m' : SchemaSetState}

/-- A listing that was answered stays one as more answers come. -/
theorem Listed.of_subset {listing : List UCAPISchema} (h : t.Listed m listing)
    (hsub : m.answers ⊆ m'.answers) : t.Listed m' listing := by
  obtain ⟨resp, hresp, hrest⟩ := h
  exact ⟨resp, hsub hresp, hrest⟩

/-- Every entry's name was told by some listing. -/
def Told (t : AttachedCatalog) (m : SchemaSetState) (schemas : List UCSchemaEntry) : Prop :=
  ∀ entry ∈ schemas, ∃ listing, t.Listed m listing ∧ ∃ schema ∈ listing,
    schema.schema_name = entry.name

/-- Schemas that an answer told of stay told. -/
theorem Told.of_subset {schemas : List UCSchemaEntry} (h : t.Told m schemas)
    (hsub : m.answers ⊆ m'.answers) : t.Told m' schemas := by
  intro entry hentry
  obtain ⟨listing, hlisted, hschema⟩ := h entry hentry
  exact ⟨listing, hlisted.of_subset hsub, hschema⟩

/-- A list that is complete for an answer stays so as more answers come. -/
theorem Complete.of_subset {schemas : List UCSchemaEntry} (h : t.Complete m schemas)
    (hsub : m.answers ⊆ m'.answers) : t.Complete m' schemas where
  whole := by
    obtain ⟨listing, hlisted, hfound⟩ := h.whole
    exact ⟨listing, hlisted.of_subset hsub, hfound⟩
  told := Told.of_subset (t := t) h.told hsub

/-- What `emplace` finds afterwards. -/
theorem findSchema_emplace (m : SchemaSetState) (schema_name : String) (internal : Bool) :
    (findSchema (m.emplace schema_name internal).schemas schema_name).isSome ∧
      ∀ other, (findSchema m.schemas other).isSome →
        (findSchema (m.emplace schema_name internal).schemas other).isSome := by
  unfold SchemaSetState.emplace
  split
  · rename_i h
    exact ⟨h, fun _ h => h⟩
  · constructor
    · simp [findSchema, List.find?_append]
    · intro other h
      simp only [findSchema, List.find?_append, Option.isSome_or] at h ⊢
      rw [h, Bool.true_or]

/-- After an insertion there is at most the new entry besides those that were there. -/
theorem mem_emplace {m : SchemaSetState} {schema_name : String} {internal : Bool}
    {entry : UCSchemaEntry} (h : entry ∈ (m.emplace schema_name internal).schemas) :
    entry ∈ m.schemas ∨ entry.name = schema_name := by
  unfold SchemaSetState.emplace at h
  split at h
  · exact .inl h
  · rcases List.mem_append.1 h with h | h
    · exact .inl h
    · rw [List.mem_singleton.1 h]
      exact .inr rfl

/-! ## Threads -/

variable (t) (S : Surroundings) (A : CatalogCall → Prop)

/-- The catalog's calls, over its schema list. -/
abbrev listThreads : Pool CatalogClient Exception Unit := t.lockedThreads S.withSchemaSet A

variable {t S A}

/-- Who holds the schema list's mutex. -/
def listOwner (s : (t.listThreads S A).State) : Option ℕ := s.2 .schemas

/-- What holds of the list, whoever is at work on it: what has happened to it is a history of the
object, and every list that was loaded was complete. -/
structure WellListed (t : AttachedCatalog) (m : SchemaSetState) : Prop where
  atomic : ∃ object, schemasAfter none m.history = some object
  complete : ∀ schemas, SchemaEvent.loaded schemas ∈ m.history → t.Complete m schemas
  told : t.Told m m.schemas

/-- The object is what the members say. -/
def Settled (m : SchemaSetState) : Prop := schemasAfter none m.history = some m.view

/-- Where nobody is at work on the list, it is settled. -/
structure ListInv (s : (t.listThreads S A).State) : Prop where
  wellListed : t.WellListed s.1.2
  settled : listOwner s = none → Settled s.1.2

/-- What the others may do under `c`: nothing to a list it holds, and they do not make it the
holder. -/
structure ListRely (c : ℕ) (s s' : (t.listThreads S A).State) : Prop where
  kept : listOwner s = some c → listOwner s' = some c ∧ s.1.2.Same s'.1.2
  taken : listOwner s' = some c → listOwner s = some c

variable (t S A)

/-- The proof's outline. -/
def listing : Outline (t.listThreads S A) where
  guard := ⟨fun _ _ _ _ => True, fun _ _ => True⟩
  inv := ListInv
  rely := ListRely
  rely_refl c s := ⟨fun h => ⟨h, SchemaSetState.Same.refl _⟩, fun h => h⟩
  rely_trans c s u v h h' := {
    kept := fun hs => by
      obtain ⟨hu, hsame⟩ := h.kept hs
      obtain ⟨hv, hsame'⟩ := h'.kept hu
      exact ⟨hv, hsame.trans hsame'⟩
    taken := fun hv => h.taken (h'.taken hv) }

variable {t S A} {c : ℕ} {s s' : (t.listThreads S A).State}

/-- Whether the list is settled is a matter of the list alone. -/
theorem Settled.same {m m' : SchemaSetState} (hsame : m.Same m') (h : Settled m) : Settled m' := by
  rw [Settled, SchemaSetState.view, hsame.history, hsame.schemas, hsame.is_loaded]
  exact h

/-- The invariant is kept where the list is, whatever else was answered meanwhile. -/
theorem WellListed.same {m m' : SchemaSetState} (h : t.WellListed m) (hsame : m.Same m') :
    t.WellListed m' where
  atomic := by
    rw [hsame.history]
    exact h.atomic
  complete schemas hmem := by
    rw [hsame.history] at hmem
    exact (h.complete schemas hmem).of_subset hsame.answers
  told := by
    rw [hsame.schemas]
    exact Told.of_subset h.told hsame.answers

/-- What leaves the list and its holder alone keeps the invariant, and what everyone relies on. -/
theorem ListInv.same (hs : ListInv s) (hsame : s.1.2.Same s'.1.2)
    (howner : listOwner s' = listOwner s) :
    ListInv s' ∧ ∀ d, ListRely d s s' :=
  ⟨⟨hs.wellListed.same hsame, fun hfree => (hs.settled (howner.symm.trans hfree)).same hsame⟩,
    fun _ => ⟨fun h => ⟨howner.trans h, hsame⟩, fun h => howner.symm.trans h⟩⟩

/-- What an operation on the list answers. -/
theorem answer_of_list (op : CatalogOp) {ch : S.Choice} {x : Except Exception op.Ans}
    {a : op.Ans} {m : SchemaSetState} (hop : s.1.2.answer op = some (a, m))
    (h : (t.listThreads S A).answer c s (.inr op) ch = some (x, s')) :
    x = .ok a ∧ s'.1 = (s.1.1, m) ∧ s'.2 = ownersAfter c s.2 op.lockUse x ∧
      ∀ l, op.lockUse.awaited = some l → s.2 l = none := by
  obtain ⟨hfree, ha, howners⟩ := Pool.answer_locking h
  have hans : S.withSchemaSet.answer c s.1 (.inr op) ch = some (.ok a, s.1.1, m) := by
    simp only [Surroundings.withSchemaSet, hop]
  have heq := Option.some.inj (hans.symm.trans ha)
  obtain ⟨hx, hstate⟩ := Prod.mk.inj heq
  exact ⟨hx.symm, hstate.symm, howners, hfree⟩

/-- An operation that is none on the list. -/
def LeavesList : CatalogClient.Op → Prop
  | .inl _ => True
  | .inr op => ∀ m : SchemaSetState, m.answer op = none

/-- An operation that leaves the list alone leaves it the same, and the lock with its holder. -/
theorem leavesList_answer (op : CatalogClient.Op) {ch : S.Choice}
    {x : Except Exception (CatalogClient.Ans op)} (hop : LeavesList op)
    (h : (t.listThreads S A).answer c s op ch = some (x, s')) :
    s.1.2.Same s'.1.2 ∧ listOwner s' = listOwner s := by
  obtain ⟨-, ha, howners⟩ := Pool.answer_locking h
  have hmutex (use : LockUse CatalogLock) (huse : ∀ l, use = .acquire l ∨ use = .release l →
    l ≠ .schemas)
      (hs' : s'.2 = ownersAfter c s.2 use x) : listOwner s' = listOwner s := by
    rw [listOwner, hs', listOwner]
    cases use with
    | none => rfl
    | visit l => rfl
    | acquire l =>
      cases x with
      | error e => rfl
      | ok a => exact Function.update_of_ne (huse l (.inl rfl)).symm _ _
    | release l => cases x <;> exact Function.update_of_ne (huse l (.inr rfl)).symm _ _
  rcases op with ⟨place, op⟩ | op
  · refine ⟨?_, hmutex _ ?_ howners⟩
    · obtain ⟨y, -, hy⟩ := Option.map_eq_some_iff.1 ha
      obtain ⟨-, hstate⟩ := Prod.mk.inj hy
      rw [← hstate]
      exact SchemaSetState.same_heard _ _ _ _
    · rintro _ hl rfl
      cases op <;> cases place <;> simp [catalogLocks, Place.lockUse] at hl
  · refine ⟨?_, hmutex _ ?_ howners⟩
    · simp only [Surroundings.withSchemaSet, hop s.1.2] at ha
      obtain ⟨y, -, hy⟩ := Option.map_eq_some_iff.1 ha
      obtain ⟨-, hstate⟩ := Prod.mk.inj hy
      rw [← hstate]
      exact SchemaSetState.Same.refl _
    · rintro _ hl rfl
      cases op <;> simp [catalogLocks, CatalogOp.lockUse] at hl <;> cases hop s.1.2

/-! ## At work on the list -/

/-- `c` is at work on the list, of which `R` holds. -/
def Working (c : ℕ) (R : SchemaSetState → Prop) (s : (t.listThreads S A).State) : Prop :=
  listOwner s = some c ∧ R s.1.2

/-- What does not depend on how much has been answered. -/
def Lasts (R : SchemaSetState → Prop) : Prop := ∀ m m' : SchemaSetState, m.Same m' → R m → R m'

/-- A settled list stays settled while the lock is held. -/
theorem lasts_settled : Lasts Settled := fun _ _ hsame h => h.same hsame

/-- What the holder of the lock knows of the list is left alone by the others. -/
theorem stable_working {R : SchemaSetState → Prop} (hR : Lasts R) :
    (listing t S A).Stable c (Working c R) := by
  intro s u hrel _ _ h
  obtain ⟨howner, hsame⟩ := hrel.kept h.1
  exact ⟨howner, hR _ _ hsame h.2⟩

/-- A value that leaves `c` at work. -/
theorem safe_return {α : Type} {a : α} {K : Except Exception α → SchemaSetState → Prop}
    (hK : ∀ x, Lasts (K x)) (hs : ListInv s) (h : Working c (K (.ok a)) s) :
    (listing t S A).Safe c (.ret a : CatalogRun α) (fun x => Working c (K x)) s :=
  Outline.safe_ofExcept (x := .ok a) (stable_working (hK _)) hs h

/-- An error that leaves `c` at work. -/
theorem safe_throw {α : Type} {e : Exception} {K : Except Exception α → SchemaSetState → Prop}
    (hK : ∀ x, Lasts (K x)) (hs : ListInv s) (h : Working c (K (.error e)) s) :
    (listing t S A).Safe c (.throw e : CatalogRun α) (fun x => Working c (K x)) s :=
  Outline.safe_ofExcept (x := .error e) (stable_working (hK _)) hs h

/-- One operation on the list, by who is at work on it. -/
theorem safe_own (op : CatalogOp) (huse : op.lockUse = .none) {R : SchemaSetState → Prop}
    {Q : op.Ans → SchemaSetState → Prop} (hR : Lasts R) (hQ : ∀ a, Lasts (Q a))
    (hop : ∀ m, R m → t.WellListed m → ∃ a m', m.answer op = some (a, m') ∧ Q a m' ∧
      t.WellListed m')
    (hs : ListInv s) (h : Working c R s) :
    (listing t S A).Safe c (own op) (fun x s => ∃ a, x = .ok a ∧ Working c (Q a) s) s := by
  refine Outline.safe_perform ?_ ?_
  · rintro x u v hrel hu hv ⟨a, rfl, hw⟩
    exact ⟨a, rfl, stable_working (hQ a) u v hrel hu hv hw⟩
  · intro u hrel hu ch x v _ ha
    obtain ⟨howner, hm⟩ := stable_working hR s u hrel hs hu h
    obtain ⟨a, m', hans, hq, hwell⟩ := hop u.1.2 hm hu.wellListed
    obtain ⟨rfl, hstate, howners, -⟩ := answer_of_list op hans ha
    have howner' : listOwner v = some c := by
      rw [listOwner, howners, huse]
      exact howner
    have hm' : v.1.2 = m' := by rw [hstate]
    refine ⟨⟨hm' ▸ hwell, fun hfree => ?_⟩, fun d hd => ⟨fun hd' => ?_, fun hd' => ?_⟩, a, rfl,
      howner', ?_⟩
    · rw [howner'] at hfree
      cases hfree
    · exact absurd (Option.some.inj (hd'.symm.trans howner)) hd
    · exact absurd (Option.some.inj (hd'.symm.trans howner')) hd
    · exact hm' ▸ hq

/-- Operations that are none on the list, by who is at work on it. -/
theorem safe_leaving {α : Type} {p : CatalogRun α} {R : SchemaSetState → Prop}
    (hp : p.Uses LeavesList) (hR : Lasts R) (hs : ListInv s) (h : Working c R s) :
    (listing t S A).Safe c p (fun _ => Working c R) s := by
  induction p generalizing s with
  | ret a => exact safe_return (fun _ => hR) hs h
  | throw e => exact safe_throw (fun _ => hR) hs h
  | call op k ih =>
    intro u hrel hu ch x v _ ha
    obtain ⟨hsame, howner⟩ := leavesList_answer op hp.1 ha
    obtain ⟨hv, hothers⟩ := hu.same hsame howner
    obtain ⟨howner', hm⟩ := stable_working hR s u hrel hs hu h
    exact ⟨hv, fun d _ => hothers d, ih x (hp.2 x) hv ⟨howner.trans howner', hR _ _ hsame hm⟩⟩

/-- Operations that are none on the list. -/
theorem keeps_leaving {α : Type} {p : CatalogRun α} (hp : p.Uses LeavesList) :
    (listing t S A).Keeps c p := by
  refine Outline.keeps_of_each hp fun s op ch x s' hs hop ha => ?_
  obtain ⟨hsame, howner⟩ := leavesList_answer _ hop ha
  obtain ⟨hs', hothers⟩ := hs.same hsame howner
  exact ⟨hs', fun d _ => hothers d⟩

/-- A function of the extension does nothing to the list. -/
theorem leaving_run {α : Type} (place : Place) (p : Run α) : (place.run p).Uses LeavesList :=
  Prog.Uses.left (Prog.Uses.on p.uses_trivial)

/-! ### The mutex -/

/-- Whoever takes the lock finds the list settled: nothing is halfway done but under the lock. -/
theorem safe_lockSchemas :
    (listing t S A).Safe c (own .lockSchemas) (fun x s => x = .ok () ∧ Working c Settled s) s := by
  refine Outline.safe_perform ?_ ?_
  · rintro x u v hrel hu hv ⟨rfl, hw⟩
    exact ⟨rfl, stable_working lasts_settled u v hrel hu hv hw⟩
  · intro u hrel hu ch x v _ ha
    obtain ⟨rfl, hstate, howners, hfree⟩ := answer_of_list .lockSchemas rfl ha
    have hnone : listOwner u = none := hfree .schemas rfl
    have howner : listOwner v = some c := by
      rw [listOwner, howners]
      exact Function.update_self (CatalogLock.schemas) (some c) u.2
    have hm : v.1.2 = u.1.2 := by rw [hstate]
    refine ⟨⟨hm ▸ hu.wellListed, fun h => ?_⟩, fun d hd => ⟨fun hd' => ?_, fun hd' => ?_⟩, rfl,
      howner, ?_⟩
    · rw [howner] at h
      cases h
    · rw [hnone] at hd'
      cases hd'
    · exact absurd (Option.some.inj (hd'.symm.trans howner)) hd
    · exact hm ▸ hu.settled hnone

/-- Whoever gives it back leaves the list settled. -/
theorem safe_unlockSchemas (hs : ListInv s) (h : Working c Settled s) :
    (listing t S A).Safe c (own .unlockSchemas) (fun x _ => x = .ok () ∧ True) s := by
  refine Outline.safe_perform (fun _ _ _ _ _ _ h => h) ?_
  intro u hrel hu ch x v _ ha
  obtain ⟨howner, hsettled⟩ := stable_working lasts_settled s u hrel hs hu h
  obtain ⟨rfl, hstate, howners, -⟩ := answer_of_list .unlockSchemas rfl ha
  have hnone : listOwner v = none := by
    rw [listOwner, howners]
    exact Function.update_self (CatalogLock.schemas) none u.2
  have hm : v.1.2 = u.1.2 := by rw [hstate]
  refine ⟨⟨hm ▸ hu.wellListed, fun _ => hm ▸ hsettled⟩, fun d hd => ⟨fun hd' => ?_, fun hd' => ?_⟩,
    rfl, trivial⟩
  · exact absurd (Option.some.inj (hd'.symm.trans howner)) hd
  · rw [hnone] at hd'
    cases hd'

/-- What is done under the mutex leaves the list settled. -/
theorem keeps_withSchemas {α : Type} {p : CatalogRun α}
    (hp : ∀ s, ListInv s → Working c Settled s →
      (listing t S A).Safe c p (fun _ => Working c Settled) s) :
    (listing t S A).Keeps c (withSchemas p) := by
  intro s hs
  refine Outline.Safe.bracket
    (K := fun _ => Working c Settled) (L := fun _ _ => True) safe_lockSchemas hs hp
    (fun _ _ => safe_unlockSchemas) (fun _ => stable_working lasts_settled) fun _ => ?_
  exact Outline.stable_const True

/-! ### Loading and dropping -/

/-- Nothing is loaded, for callers and by the flag. -/
def Unloaded (m : SchemaSetState) : Prop :=
  schemasAfter none m.history = some none ∧ m.is_loaded = false

/-- It is loaded, for callers and by the flag. -/
def Loaded (m : SchemaSetState) : Prop :=
  schemasAfter none m.history = some (some m.schemas) ∧ m.is_loaded = true

/-- Nothing is loaded for callers, whatever the flag says. -/
def Dropped (m : SchemaSetState) : Prop := schemasAfter none m.history = some none

/-- A list is settled if it is loaded or not loaded, and nothing between. -/
theorem settled_iff {m : SchemaSetState} : Settled m ↔ Unloaded m ∨ Loaded m := by
  cases h : m.is_loaded <;> simp [Settled, SchemaSetState.view, Unloaded, Loaded, h]

/-- An unloaded list stays so under the lock. -/
theorem lasts_unloaded : Lasts Unloaded := by
  intro m m' hsame h
  rw [Unloaded, hsame.history, hsame.is_loaded]
  exact h

/-- A loaded list stays so under the lock. -/
theorem lasts_loaded : Lasts Loaded := by
  intro m m' hsame h
  rw [Loaded, hsame.history, hsame.is_loaded, hsame.schemas]
  exact h

/-- A list that was dropped stays so under the lock. -/
theorem lasts_dropped : Lasts Dropped := by
  intro m m' hsame h
  rw [Dropped, hsame.history]
  exact h

/-- Two facts that last, last together. -/
theorem lasts_and {R R' : SchemaSetState → Prop} (hR : Lasts R) (hR' : Lasts R') :
    Lasts fun m => R m ∧ R' m :=
  fun m m' hsame h => ⟨hR m m' hsame h.1, hR' m m' hsame h.2⟩

/-- An event that is no load keeps what is asked of the loaded lists. -/
theorem WellListed.event {m m' : SchemaSetState} {event : SchemaEvent}
    {object : Option (List UCSchemaEntry)}
    (h : t.WellListed m) (hhistory : m'.history = m.history ++ [event])
    (hafter : schemasAfter none m'.history = some object) (hanswers : m'.answers = m.answers)
    (hevent : ∀ schemas, event ≠ .loaded schemas) (htold : t.Told m' m'.schemas) :
      t.WellListed m' where
  atomic := ⟨object, hafter⟩
  complete schemas hmem := by
    rw [hhistory, List.mem_append, List.mem_singleton] at hmem
    have hold := hmem.resolve_right fun heq => hevent schemas heq.symm
    exact (h.complete schemas hold).of_subset (by rw [hanswers]; exact List.Subset.refl _)
  told := htold

/-- A whole listing has been entered. -/
def Whole (t : AttachedCatalog) (m : SchemaSetState) : Prop :=
  ∃ schemas, t.Listed m schemas ∧
    ∀ schema ∈ schemas, (findSchema m.schemas schema.schema_name).isSome

/-- That the list is whole for an answer lasts. -/
theorem lasts_whole : Lasts t.Whole := by
  rintro m m' hsame ⟨schemas, hlisted, hfound⟩
  refine ⟨schemas, hlisted.of_subset hsame.answers, ?_⟩
  rw [hsame.schemas]
  exact hfound

/-- A listing is being entered, and these are to come. -/
structure Entering (t : AttachedCatalog) (schemas rest : List UCAPISchema) (m : SchemaSetState) :
    Prop where
  listed : t.Listed m schemas
  entered : ∀ schema ∈ schemas, schema ∈ rest ∨ (findSchema m.schemas schema.schema_name).isSome
  rest_subset : rest ⊆ schemas

/-- How far the entering of an answer's schemas has come lasts. -/
theorem lasts_entering {schemas rest : List UCAPISchema} : Lasts (t.Entering schemas rest) := by
  intro m m' hsame h
  refine ⟨h.listed.of_subset hsame.answers, ?_, h.rest_subset⟩
  rw [hsame.schemas]
  exact h.entered

/-- When no schema is left to enter, the list is whole. -/
theorem Entering.whole {schemas : List UCAPISchema} {m : SchemaSetState}
    (h : t.Entering schemas [] m) :
    t.Whole m :=
  ⟨schemas, h.listed, fun schema hschema =>
    (h.entered schema hschema).resolve_left List.not_mem_nil⟩

/-- An insertion changes neither the history nor the mark. -/
theorem emplace_rest (m : SchemaSetState) (schema_name : String) (internal : Bool) :
    (m.emplace schema_name internal).history = m.history ∧
      (m.emplace schema_name internal).is_loaded = m.is_loaded ∧
      (m.emplace schema_name internal).answers = m.answers := by
  unfold SchemaSetState.emplace
  split <;> exact ⟨rfl, rfl, rfl⟩

/-- One entry more. -/
theorem Entering.emplace {schemas rest : List UCAPISchema} {schema : UCAPISchema}
    {m : SchemaSetState} {internal : Bool} (h : t.Entering schemas (schema :: rest) m) :
    t.Entering schemas rest (m.emplace schema.schema_name internal) where
  listed := h.listed.of_subset (by rw [(emplace_rest ..).2.2]; exact List.Subset.refl _)
  entered other hother := by
    obtain ⟨hself, hothers⟩ := findSchema_emplace m schema.schema_name internal
    rcases h.entered other hother with hmem | hfound
    · rcases List.mem_cons.1 hmem with rfl | hmem
      · exact .inr hself
      · exact .inl hmem
    · exact .inr (hothers _ hfound)
  rest_subset := List.Subset.trans (List.subset_cons_self _ _) h.rest_subset

/-- One more schema of the answer is entered: the invariant holds with one less to come. -/
theorem WellListed.emplace {schemas rest : List UCAPISchema} {schema : UCAPISchema}
    {m : SchemaSetState}
    {internal : Bool} (h : t.WellListed m) (hentering : t.Entering schemas (schema :: rest) m) :
    t.WellListed (m.emplace schema.schema_name internal) := by
  obtain ⟨hhistory, -, hanswers⟩ := emplace_rest m schema.schema_name internal
  have hsub : m.answers ⊆ (m.emplace schema.schema_name internal).answers := by
    rw [hanswers]
    exact List.Subset.refl _
  refine ⟨by rw [hhistory]; exact h.atomic, fun loaded hmem => ?_, fun entry hentry => ?_⟩
  · rw [hhistory] at hmem
    exact (h.complete loaded hmem).of_subset hsub
  · rcases mem_emplace hentry with hold | hname
    · exact h.told.of_subset hsub entry hold
    · exact ⟨schemas, hentering.listed.of_subset hsub, schema,
        hentering.rest_subset List.mem_cons_self, hname.symm⟩

/-- The loop enters the whole listing. -/
theorem safe_addEntries {schemas : List UCAPISchema} (rest : List UCAPISchema) :
    ∀ {s : (t.listThreads S A).State}, ListInv s →
      Working c (fun m => Unloaded m ∧ t.Entering schemas rest m) s →
      (listing t S A).Safe c (addEntries rest)
        (fun x => Working c fun m => Unloaded m ∧ (x = .ok () → t.Whole m)) s := by
  have hlasts (x : Except Exception Unit) : Lasts fun m => Unloaded m ∧ (x = .ok () → t.Whole m) :=
    lasts_and lasts_unloaded fun m m' hsame h hx => lasts_whole m m' hsame (h hx)
  induction rest with
  | nil =>
    intro s hs h
    exact safe_return hlasts hs ⟨h.1, h.2.1, fun _ => h.2.2.whole⟩
  | cons schema rest ih =>
    intro s hs h
    rw [addEntries]
    split
    · exact safe_throw hlasts hs ⟨h.1, h.2.1, fun hx => by cases hx⟩
    · -- `emplace` leaves what callers see
      refine (safe_own (.emplaceSchema _ _)
        (Q := fun _ m => Unloaded m ∧ t.Entering schemas rest m) rfl
          (lasts_and lasts_unloaded lasts_entering)
        (fun _ => lasts_and lasts_unloaded lasts_entering) ?_ hs h).bind hs ?_ ?_
      · rintro m ⟨hunloaded, hentering⟩ hwell
        refine ⟨(), _, rfl, ⟨?_, hentering.emplace⟩, hwell.emplace hentering⟩
        obtain ⟨hhistory, hloaded, -⟩ := emplace_rest m schema.schema_name
          (isInternalTable schema.schema_name)
        rw [Unloaded, hhistory, hloaded]
        exact hunloaded
      · rintro a s₁ hs₁ ⟨-, -, h₁⟩
        exact ih hs₁ h₁
      · rintro e s₁ - ⟨a, ha, -⟩
        cases ha

/-! ### The request for the list -/

/-- A program at one place of the catalog runs there part by part. -/
theorem run_bind {α β : Type} (place : Place) (p : Run α) (f : α → Run β) :
    place.run (p.bind f) = (place.run p).bind fun a => place.run (f a) := by
  simp only [Place.run, Prog.on_bind, Prog.left_bind]

/-- An answer that is heard is kept. -/
theorem safe_answer (hs : ListInv s) (h : Working c Unloaded s) :
    (listing t S A).Safe c (Place.catalog.run UnityCatalog.answer) (fun x => Working c fun m =>
      Unloaded m ∧ ∀ resp, x = .ok resp → resp ∈ m.answers) s := by
  have hlasts (x : Except Exception HttpResponse) :
      Lasts fun m => Unloaded m ∧ ∀ resp, x = .ok resp → resp ∈ m.answers :=
    lasts_and lasts_unloaded fun m m' hsame h resp hx => hsame.answers (h resp hx)
  intro u hrel hu ch x v _ ha
  obtain ⟨hsame, howner⟩ := leavesList_answer (.inl (.catalog, .answer)) trivial ha
  obtain ⟨hv, hothers⟩ := hu.same hsame howner
  obtain ⟨howner', hm⟩ := stable_working lasts_unloaded s u hrel hs hu h
  -- the answer is the last one that was kept
  have hkept : v.1.2 = u.1.2.heard .catalog .answer x := by
    obtain ⟨y, -, hy⟩ := Option.map_eq_some_iff.1 (Pool.answer_locking ha).2.1
    obtain ⟨hx, hstate⟩ := Prod.mk.inj hy
    rw [← hstate, ← hx]
  refine ⟨hv, fun d _ => hothers d, ?_⟩
  have hend : Working c (fun m => Unloaded m ∧ ∀ resp, x = .ok resp → resp ∈ m.answers) v := by
    refine ⟨howner.trans howner', lasts_unloaded _ _ hsame hm, fun resp hx => ?_⟩
    subst hx
    rw [hkept]
    exact List.mem_append_right _ (List.mem_singleton.2 rfl)
  cases x with
  | ok resp => exact safe_return hlasts hv hend
  | error e => exact safe_throw hlasts hv hend

/-- What `GetSchemas` returns was listed. -/
theorem safe_getSchemas (hs : ListInv s) (h : Working c Unloaded s) :
    (listing t S A).Safe c (Place.catalog.run (UCAPI.getSchemas t.internal_name t.credentials))
      (fun x => Working c fun m =>
        Unloaded m ∧ ∀ schemas, x = .ok (some schemas) → t.Listed m schemas) s := by
  have hlasts (x : Except Exception (Option (List UCAPISchema))) :
      Lasts fun m => Unloaded m ∧ ∀ schemas, x = .ok (some schemas) → t.Listed m schemas :=
    lasts_and lasts_unloaded fun m m' hsame h schemas hx => (h schemas hx).of_subset hsame.answers
  have herr (e : Exception) {s : (t.listThreads S A).State} (hs : ListInv s)
      (h : Working c Unloaded s) :
      (listing t S A).Safe c (.throw e) (fun x => Working c fun m =>
        Unloaded m ∧ ∀ schemas, x = .ok (some schemas) → t.Listed m schemas) s :=
    safe_throw hlasts hs ⟨h.1, h.2, fun _ hx => by cases hx⟩
  rw [UCAPI.getSchemas_eq, run_bind]
  refine (safe_leaving (leaving_run _ _) lasts_unloaded hs h).bind hs (fun _ s₁ hs₁ h₁ => ?_)
    fun e _ hs₁ h₁ => herr e hs₁ h₁
  rw [run_bind]
  refine (safe_leaving (leaving_run _ _) lasts_unloaded hs₁ h₁).bind hs₁ (fun _ s₂ hs₂ h₂ => ?_)
    fun e _ hs₂ h₂ => herr e hs₂ h₂
  rw [run_bind]
  refine (safe_answer hs₂ h₂).bind hs₂ (fun resp s₃ hs₃ h₃ => ?_)
    fun e _ hs₃ h₃ => herr e hs₃ ⟨h₃.1, h₃.2.1⟩
  obtain ⟨howner, hunloaded, hheard⟩ := h₃
  rw [HttpResponse.decoded]
  split
  · rename_i haccepted
    refine safe_return hlasts hs₃ ⟨howner, hunloaded, fun schemas hx => ?_⟩
    exact ⟨resp, hheard resp rfl, haccepted, Except.ok.inj hx⟩
  · exact herr _ hs₃ ⟨howner, hunloaded⟩

/-- A load that succeeds has entered a whole listing, and one that does not is not seen. -/
theorem safe_loadEntries (hs : ListInv s) (h : Working c Unloaded s) :
    (listing t S A).Safe c t.loadEntries
      (fun x => Working c fun m => Unloaded m ∧ (x = .ok () → t.Whole m)) s := by
  have hlasts (x : Except Exception Unit) : Lasts fun m => Unloaded m ∧ (x = .ok () → t.Whole m) :=
    lasts_and lasts_unloaded fun m m' hsame h hx => lasts_whole m m' hsame (h hx)
  have herr (e : Exception) {s : (t.listThreads S A).State} (hs : ListInv s)
      (h : Working c Unloaded s) :
      (listing t S A).Safe c (.throw e)
        (fun x => Working c fun m => Unloaded m ∧ (x = .ok () → t.Whole m)) s :=
    safe_throw hlasts hs ⟨h.1, h.2, fun hx => by cases hx⟩
  refine (safe_getSchemas hs h).bind hs (fun schemas s₁ hs₁ h₁ => ?_)
    fun e _ hs₁ h₁ => herr e hs₁ ⟨h₁.1, h₁.2.1⟩
  obtain ⟨howner, hunloaded, hlisted⟩ := h₁
  cases schemas with
  | none => exact herr _ hs₁ ⟨howner, hunloaded⟩
  | some schemas =>
    refine safe_addEntries schemas hs₁ ⟨howner, hunloaded,
      ⟨hlisted schemas rfl, ?_, List.Subset.refl _⟩⟩
    exact fun schema hschema => .inl hschema

/-! ### `EnsureLoaded` -/

/-- After `EnsureLoaded` the list is loaded, or it has failed and nothing is seen. -/
theorem safe_ensureLoaded (hs : ListInv s) (h : Working c Settled s) :
    (listing t S A).Safe c t.ensureLoaded
      (fun x => Working c fun m => Settled m ∧ (x = .ok () → Loaded m)) s := by
  have hlasts (x : Except Exception Unit) : Lasts fun m => Settled m ∧ (x = .ok () → Loaded m) :=
    lasts_and lasts_settled fun m m' hsame h hx => lasts_loaded m m' hsame (h hx)
  have hflag (loaded : Bool) : Lasts fun m => Settled m ∧ m.is_loaded = loaded :=
    lasts_and lasts_settled fun _ _ hsame h => hsame.is_loaded.trans h
  refine (safe_own .schemasLoaded rfl lasts_settled hflag ?_ hs h).bind hs ?_ ?_
  · exact fun m hm hwell => ⟨m.is_loaded, m, rfl, ⟨hm, rfl⟩, hwell⟩
  · rintro loaded s₁ hs₁ ⟨_, hx, howner, hsettled, hloaded⟩
    obtain rfl := Except.ok.inj hx
    split
    · rename_i htrue
      subst htrue
      refine safe_return hlasts hs₁ ⟨howner, hsettled, fun _ => ?_⟩
      exact (settled_iff.1 hsettled).resolve_left fun hun => by simp [hun.2] at hloaded
    · rename_i hfalse
      have hunloaded : Unloaded s₁.1.2 := by
        refine (settled_iff.1 hsettled).resolve_right fun hl => hfalse ?_
        rw [← hloaded, hl.2]
      refine (safe_loadEntries hs₁ ⟨howner, hunloaded⟩).bind hs₁ ?_ ?_
      · rintro _ s₂ hs₂ ⟨howner₂, hunloaded₂, hwhole⟩
        -- the flag makes what has been entered what callers see
        refine (safe_own (.setSchemasLoaded true) (Q := fun _ => Loaded) rfl
          (lasts_and lasts_unloaded lasts_whole) (fun _ => lasts_loaded) ?_ hs₂
          ⟨howner₂, hunloaded₂, hwhole rfl⟩).mono ?_
        · rintro m ⟨⟨hobject, -⟩, hlisting⟩ hwell
          have hafter : schemasAfter none (m.history ++ [.loaded m.schemas]) =
              some (some m.schemas) := by
            rw [schemasAfter_concat, hobject]
            rfl
          refine ⟨(), _, rfl, ⟨hafter, rfl⟩, ⟨⟨_, hafter⟩, fun schemas hmem => ?_, hwell.told⟩⟩
          rcases List.mem_append.1 hmem with hold | hnew
          · exact (hwell.complete schemas hold).of_subset (List.Subset.refl _)
          · obtain rfl := SchemaEvent.loaded.inj (List.mem_singleton.1 hnew)
            exact ⟨hlisting, hwell.told⟩
        · rintro x s₃ ⟨a, rfl, howner₃, hloaded₃⟩
          exact ⟨howner₃, settled_iff.2 (.inr hloaded₃), fun _ => hloaded₃⟩
      · rintro e s₂ hs₂ ⟨howner₂, hunloaded₂, -⟩
        refine safe_throw hlasts hs₂ ⟨howner₂, settled_iff.2 (.inl hunloaded₂), ?_⟩
        exact fun hx => by cases hx
  · rintro e s₁ - ⟨a, hx, -⟩
    cases hx

/-! ### The operations of the schema set -/

/-- What is done once the list is loaded, under the mutex. -/
theorem keeps_loaded {α : Type} {f : CatalogRun α}
    (hf : ∀ s, ListInv s → Working c Loaded s →
      (listing t S A).Safe c f (fun _ => Working c Settled) s) :
    (listing t S A).Keeps c (withSchemas (t.ensureLoaded.bind fun _ => f)) := by
  refine keeps_withSchemas fun s hs h => ?_
  refine (safe_ensureLoaded hs h).bind hs ?_ ?_
  · rintro _ s₁ hs₁ ⟨howner, -, hloaded⟩
    exact hf s₁ hs₁ ⟨howner, hloaded rfl⟩
  · rintro e s₁ hs₁ ⟨howner, hsettled, -⟩
    exact safe_throw (fun _ => lasts_settled) hs₁ ⟨howner, hsettled⟩

/-- What callers are told of a loaded list leaves it loaded. -/
theorem Loaded.event {m m' : SchemaSetState} (event : SchemaEvent) (h : Loaded m)
    (hwell : t.WellListed m) (hm' : m' = { m with history := m.history ++ [event] })
    (hnext : event.next (some m.schemas) = some (some m.schemas))
    (hevent : ∀ schemas, event ≠ .loaded schemas) : Loaded m' ∧ t.WellListed m' := by
  subst hm'
  have hafter : schemasAfter none (m.history ++ [event]) = some (some m.schemas) := by
    rw [schemasAfter_concat, h.1]
    exact hnext
  exact ⟨⟨hafter, h.2⟩, hwell.event rfl hafter rfl hevent hwell.told⟩

/-- A lookup loads the list if need be, under the lock, and keeps the invariant. -/
theorem keeps_getEntry (name : String) : (listing t S A).Keeps c (t.getEntry name) := by
  refine keeps_loaded fun s hs h => ?_
  refine (safe_own (.findSchema name) (Q := fun _ => Loaded) rfl lasts_loaded
    (fun _ => lasts_loaded) ?_ hs h).mono ?_
  · intro m hm hwell
    obtain ⟨hloaded, hwell'⟩ := hm.event (.looked name (findSchema m.schemas name)) hwell rfl
      (by simp [SchemaEvent.next]) (fun _ heq => by cases heq)
    exact ⟨_, _, rfl, hloaded, hwell'⟩
  · rintro x s₁ ⟨_, -, howner, hloaded⟩
    exact ⟨howner, settled_iff.2 (.inr hloaded)⟩

/-- What a callback may ask for, a loop over it may. -/
theorem uses_forEach {α : Type} {P : CatalogClient.Op → Prop} {callback : α → CatalogRun Unit}
    (h : ∀ a, (callback a).Uses P) (as : List α) : (forEach callback as).Uses P := by
  induction as with
  | nil => trivial
  | cons a as ih => exact (h a).bind fun _ => ih

/-- A scan over the schemas keeps the invariant, whatever its callback does below the list. -/
theorem keeps_scan {callback : UCSchemaEntry → CatalogRun Unit}
    (hcallback : ∀ schema, (callback schema).Uses LeavesList) :
    (listing t S A).Keeps c (t.scan callback) := by
  refine keeps_loaded fun s hs h => ?_
  refine (safe_own .schemas (Q := fun _ => Loaded) rfl lasts_loaded
    (fun _ => lasts_loaded) ?_ hs h).bind hs ?_ ?_
  · intro m hm hwell
    obtain ⟨hloaded, hwell'⟩ := hm.event (.scanned m.schemas) hwell rfl
      (by simp [SchemaEvent.next]) (fun _ heq => by cases heq)
    exact ⟨_, _, rfl, hloaded, hwell'⟩
  · -- the callbacks run with the mutex still held
    rintro schemas s₁ hs₁ ⟨_, -, howner, hloaded⟩
    refine (safe_leaving (uses_forEach hcallback schemas) lasts_loaded hs₁ ⟨howner, hloaded⟩).mono
      ?_
    rintro x s₂ ⟨howner₂, hloaded₂⟩
    exact ⟨howner₂, settled_iff.2 (.inr hloaded₂)⟩
  · rintro e s₁ - ⟨_, hx, -⟩
    cases hx

/-- Clearing the list drops all of it, under the lock. -/
theorem keeps_clearEntries : (listing t S A).Keeps c clearEntries := by
  refine keeps_withSchemas fun s hs h => ?_
  refine (safe_own .clearSchemas (Q := fun _ => Dropped) rfl lasts_settled
    (fun _ => lasts_dropped) ?_ hs h).bind hs ?_ ?_
  · intro m hm hwell
    have hafter : schemasAfter none (m.history ++ [.cleared]) = some none := by
      rw [schemasAfter_concat, hm]
      cases m.view <;> rfl
    refine ⟨(), _, rfl, hafter, hwell.event rfl hafter rfl (fun _ heq => by cases heq) ?_⟩
    exact fun entry hentry => absurd hentry List.not_mem_nil
  · rintro _ s₁ hs₁ ⟨_, -, howner, hdropped⟩
    refine (safe_own (.setSchemasLoaded false) (Q := fun _ => Unloaded) rfl lasts_dropped
      (fun _ => lasts_unloaded) ?_ hs₁ ⟨howner, hdropped⟩).mono ?_
    · refine fun m hm hwell =>
        ⟨(), _, rfl, ⟨hm, rfl⟩, hwell.atomic, fun schemas hmem => ?_, hwell.told⟩
      exact (hwell.complete schemas hmem).of_subset (List.Subset.refl _)
    · rintro x s₂ ⟨_, -, howner₂, hunloaded⟩
      exact ⟨howner₂, settled_iff.2 (.inl hunloaded)⟩
  · rintro e s₁ - ⟨_, hx, -⟩
    cases hx

/-! ### The other calls -/

/-- An operation of the catalog's own that no part of the list answers leaves it alone. -/
theorem leaving_own {op : CatalogOp} (h : ∀ m : SchemaSetState, m.answer op = none) :
    (own op).Uses LeavesList :=
  have hop : LeavesList (.inr op) := h
  Prog.uses_perform hop

/-- What is done under the lock of a schema's entries leaves the list of schemas alone. -/
theorem leaving_withEntries {α : Type} {p : CatalogRun α} {schema : ℕ} (hp : p.Uses LeavesList) :
    (withEntries schema p).Uses LeavesList := by
  have hleave : (own (.unlockEntries schema)).Uses LeavesList := leaving_own fun _ => rfl
  refine Prog.Uses.bind (leaving_own fun _ => rfl) fun _ => ?_
  refine (Prog.Uses.tryCatch hp fun e => hleave.bind fun _ => Prog.uses_throw e).bind fun a => ?_
  exact hleave.bind fun _ => Prog.uses_ret a

theorem leaving_withFunctions {α : Type} {p : CatalogRun α} {schema : ℕ} (hp : p.Uses LeavesList) :
    (withFunctions schema p).Uses LeavesList := by
  have hleave : (own (.unlockFunctions schema)).Uses LeavesList := leaving_own fun _ => rfl
  refine Prog.Uses.bind (leaving_own fun _ => rfl) fun _ => ?_
  refine (Prog.Uses.tryCatch hp fun e => hleave.bind fun _ => Prog.uses_throw e).bind fun a => ?_
  exact hleave.bind fun _ => Prog.uses_ret a

/-- A table is looked up below its schema. -/
theorem leaving_getTable (schema : UCSchemaEntry) (name : String) (at_clause : Option BoundAtClause)
    (txn : ℕ) : (t.getTable schema name at_clause txn).Uses LeavesList := by
  refine (leaving_run _ _).bind fun _ => leaving_withEntries ?_
  refine Prog.Uses.bind (leaving_own fun _ => rfl) fun table => ?_
  cases table with
  | none => trivial
  | some table => exact (leaving_run _ _).bind fun _ => trivial

/-- Tables are scanned below their schema. -/
theorem leaving_scanTables (schema : UCSchemaEntry) :
    (t.scanTables schema fun _ => return ()).Uses LeavesList := by
  refine (leaving_run _ _).bind fun _ => leaving_withEntries ?_
  exact Prog.Uses.bind (leaving_own fun _ => rfl) fun tables =>
    uses_forEach (fun _ => Prog.uses_ret ()) tables

/-- Tables are detached below their schema. -/
theorem leaving_onDetachTables (schema : UCSchemaEntry) (txn : ℕ) :
    (t.onDetachTables schema txn).Uses LeavesList :=
  Prog.Uses.bind (leaving_own fun _ => rfl) fun tables =>
    uses_forEach (fun _ => leaving_run _ _) tables

/-- A table's Delta database is worked on below the list. -/
theorem leaving_withDelta (schema : UCSchemaEntry) (table : UCAPITable) (txn : ℕ)
    {p : AttachedDatabase → CatalogRun Unit} (hp : ∀ db, (p db).Uses LeavesList) :
    (t.withDelta schema table txn p).Uses LeavesList :=
  Prog.Uses.bind (leaving_run _ _) hp

/-- Built-in functions are made below the list. -/
theorem leaving_tryLoadBuiltInFunction (schema : UCSchemaEntry) (entry_name : String) :
    (tryLoadBuiltInFunction schema entry_name).Uses LeavesList := by
  refine leaving_withFunctions (Prog.Uses.bind (leaving_own fun _ => rfl) fun found => ?_)
  split
  · trivial
  · split
    · exact Prog.Uses.bind (leaving_own fun _ => rfl) fun _ => trivial
    · trivial

/-- A lookup by name is one in the list, or the error that there is none. -/
theorem keeps_lookupSchema (entry_name : String) (if_not_found : OnEntryNotFound) :
    (listing t S A).Keeps c (t.lookupSchema entry_name if_not_found) := by
  refine Outline.Keeps.bind (keeps_leaving (Prog.uses_ofExcept _)) fun name => ?_
  refine Outline.Keeps.bind (keeps_getEntry name) fun entry => ?_
  split
  · exact Outline.keeps_throw _
  · exact Outline.keeps_ret _

/-- Every call of the catalog keeps the invariant. -/
theorem keeps_program (txn : ℕ) (call : CatalogCall) :
    (listing t S A).Keeps c (t.program txn call) := by
  -- most calls work below the list; four of them on the list itself
  cases call with
  | lookupSchema entry_name if_not_found =>
    exact (keeps_lookupSchema _ _).bind fun _ => Outline.keeps_ret _
  | scanSchemas tables =>
    refine keeps_scan fun schema => ?_
    cases tables with
    | false => trivial
    | true => exact leaving_scanTables schema
  | clearCache => exact keeps_clearEntries
  | onDetach => exact keeps_scan fun schema => leaving_onDetachTables schema txn
  | lookupTable schema name at_clause =>
    exact keeps_leaving ((leaving_getTable schema name at_clause txn).bind fun _ => trivial)
  | lookupFunction schema entry_name =>
    exact keeps_leaving ((leaving_tryLoadBuiltInFunction schema entry_name).bind fun _ => trivial)
  | scanTables schema => exact keeps_leaving (leaving_scanTables schema)
  | createTable schema info => exact keeps_leaving (leaving_run _ _)
  | tableDataPath schema table_name =>
    refine keeps_leaving (Prog.Uses.bind ?_ fun _ => trivial)
    refine (leaving_getTable schema table_name none txn).bind fun entry => ?_
    rcases entry with _ | ⟨table, entry⟩ <;> trivial
  | checkpointTable finished schema_name table_name force =>
    cases finished with
    | true => exact Outline.keeps_ret _
    | false =>
      refine (keeps_lookupSchema _ _).bind fun schema => keeps_leaving ?_
      cases schema with
      | none => trivial
      | some schema =>
        refine (leaving_getTable schema table_name none txn).bind fun entry => ?_
        rcases entry with _ | ⟨table, entry⟩
        · trivial
        · exact leaving_withDelta schema table txn fun db => leaving_own fun _ => rfl
  | planInsert schema table =>
    exact keeps_leaving (leaving_withDelta schema table txn fun db => leaving_own fun _ => rfl)
  | getScanFunction schema table lookup_info =>
    exact keeps_leaving ((leaving_run _ _).bind fun _ => trivial)
  | initGlobal schema table lookup_info filter_json input =>
    exact keeps_leaving ((leaving_run _ _).bind fun _ => trivial)
  | expandNextPath schema table remaining_tokens tokens =>
    exact keeps_leaving ((leaving_run _ _).bind fun _ => trivial)
  | commitExecute schema table res => exact keeps_leaving (leaving_run _ _)
  | startTransaction => exact keeps_leaving (leaving_own fun _ => rfl)
  | endTransaction => exact keeps_leaving (leaving_own fun _ => rfl)

/-- In every interleaving the invariant holds. Each call of the catalog keeps it under the lock of
the schema set. -/
theorem listInv_of_reachable {cfg : (t.listThreads S A).Config}
    (h : (t.listThreads S A).system.Reachable cfg) : ListInv cfg.state := by
  refine Outline.keeps_sound (O := listing t S A) ⟨fun _ _ _ _ => trivial, fun _ _ =>
    trivial⟩ ?_ ?_ ?_ ?_ h
  · rintro s ⟨⟨-, hempty⟩, -⟩
    refine ⟨?_, fun _ => by rw [hempty]; rfl⟩
    rw [hempty]
    refine ⟨⟨none, rfl⟩, fun schemas hmem => ?_, fun entry hentry => ?_⟩
    · cases hmem
    · cases hentry
  · intro s c call p s' hs hstart
    cases hstart
    exact ⟨hs, fun d _ => (listing t S A).rely_refl d _, keeps_program call.2 call.1.1⟩
  · exact fun s c r hs => ⟨hs, fun d _ => (listing t S A).rely_refl d _⟩
  · intro s e s' hs henv
    obtain ⟨s₁, hs₁, rfl⟩ := Option.map_eq_some_iff.1 henv
    obtain ⟨s₂, -, rfl⟩ := Option.map_eq_some_iff.1 hs₁
    exact hs.same (SchemaSetState.Same.refl _) rfl

variable (t S A)

/-- **The schema list is atomic.** In every interleaving of any calls of the catalog, what its
callers are answered from the schema list is a history of the object above, lookups of one name
between two clearings agree, and where nobody holds the mutex the object is what the members say. A
list that is loaded has every schema of one answer; beyond that it may have schemas that a load
which failed half way has left, all of which were listed once. -/
theorem schema_list_is_atomic {cfg : (t.listThreads S A).Config}
    (h : (t.listThreads S A).system.Reachable cfg) :
    (∃ object, schemasAfter none cfg.state.1.2.history = some object ∧
      (cfg.state.2 .schemas = none → object = cfg.state.1.2.view)) ∧
    (∀ schemas, SchemaEvent.loaded schemas ∈ cfg.state.1.2.history →
      t.Complete cfg.state.1.2 schemas) ∧
    ∀ before between behind schema_name schema_name' entry entry',
      cfg.state.1.2.history = before ++ .looked schema_name entry ::
        (between ++ .looked schema_name' entry' :: behind) →
      SchemaEvent.cleared ∉ between → lower schema_name = lower schema_name' → entry = entry' := by
  have hinv := listInv_of_reachable h
  obtain ⟨object, hobject⟩ := hinv.wellListed.atomic
  refine ⟨⟨object, hobject, fun hfree => ?_⟩, hinv.wellListed.complete, ?_⟩
  · exact Option.some.inj (hobject.symm.trans (hinv.settled hfree))
  · intro before between behind schema_name schema_name' entry entry' hhistory hkept hname
    rw [hhistory] at hobject
    exact lookups_agree (by rw [hobject]; exact Option.some_ne_none object) hkept hname

/-! ### A list that is loaded after a load that failed -/

/-- Unity Catalog answers with this body. -/
def listedAnswer (body : String) : (op : CatalogClient.Op) → Except Exception (CatalogClient.Ans op)
  | .inl (_, .issue _) => .ok ()
  | .inl (_, .answer) => .ok { status := 200, success := true, body }
  | op => exampleAnswer op

/-- Surroundings that answer so. -/
def listedSurroundings : Surroundings where
  State := Unit
  Choice := String
  answer _ s op body := some (listedAnswer body op, s)
  responds _ _ _ := ⟨"", rfl⟩
  Env := Empty
  env _ e := e.elim
  init _ := True

/-- A catalog over that list. -/
abbrev listedThreads : Pool CatalogClient Exception Unit :=
  exampleCatalog.listThreads listedSurroundings fun _ => True

/-- A lookup of schema `A`, for so many operations. -/
def looksUp (operations : ℕ) (body : String) : List listedThreads.Label :=
  .start 0 (⟨.lookupSchema "A" .returnNull, trivial⟩, 0) :: List.replicate operations (.op 0 body)

/-- The first answer has a schema without a name behind `a`, and the load fails there; the second
lists `b`. -/
def twoLoads : List listedThreads.Label :=
  looksUp 7 "\x7b\"schemas\":[\x7b\"name\":\"a\"\x7d,\x7b\"name\":\"\"\x7d]\x7d" ++
    .finish 0 :: looksUp 9 "\x7b\"schemas\":[\x7b\"name\":\"b\"\x7d]\x7d"

/-- The list that is loaded has all of the second answer, and what the first left. -/
theorem schema_list_is_atomic_twoLoads : ∃ cfg : listedThreads.Config,
    cfg.state.1.2.history =
      [.loaded [⟨0, "a", false⟩, ⟨1, "b", false⟩], .looked "A" (some ⟨0, "a", false⟩)] ∧
      exampleCatalog.Complete cfg.state.1.2 [⟨0, "a", false⟩, ⟨1, "b", false⟩] := by
  have h : (listedThreads.replay (fun _ _ => true) twoLoads
      ⟨(((), {}), fun _ => none), fun _ => none⟩).map (fun cfg : listedThreads.Config =>
        cfg.state.1.2.history) =
      some [.loaded [⟨0, "a", false⟩, ⟨1, "b", false⟩], .looked "A" (some ⟨0, "a", false⟩)] := by
    decide +kernel
  obtain ⟨cfg, hcfg, hhistory⟩ := Option.map_eq_some_iff.1 h
  have hreach : listedThreads.system.Reachable cfg :=
    ⟨_, ⟨⟨⟨trivial, rfl⟩, rfl⟩, rfl⟩, Pool.run_of_replay (fun _ _ _ => trivial) hcfg⟩
  refine ⟨cfg, hhistory, (schema_list_is_atomic _ _ _ hreach).2.1 _ ?_⟩
  rw [hhistory]
  exact List.mem_cons_self

end AttachedCatalog

end UnityCatalog
