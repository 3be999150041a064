import UnityCatalog.Decoding
import UnityCatalog.TableSetThreads
import Mathlib.Data.List.Pairwise

/-!
# Runs of a table set

A lookup after a create, over every interleaving: what it finds, and that it finds anything. Both
come from one proof outline, whose invariant keeps of every name a create has returned for that the
set `Resolves` it, and of every table a create has registered that the set has nothing else under
its name. `G₁` and `G₂` say which of the two conditions the outline is under.
-/

namespace UnityCatalog

open Effectful Yyjson

/-! ## The set -/

namespace SetState

variable {s s' : SetState} {c d : ℕ} {name : String} {x : ListedTable}

@[simp] theorem thread_setThread_self (f : SetThread → SetThread) :
    (s.setThread c f).thread c = f (s.thread c) :=
  Function.update_self ..

theorem thread_setThread_of_ne (f : SetThread → SetThread) (h : d ≠ c) :
    (s.setThread c f).thread d = s.thread d :=
  Function.update_of_ne h ..

theorem lists_iff : s.lists name = true ↔ ∃ x ∈ s.uc, SameName x.name name := by
  simp [lists, SameName]

theorem lists_eq_false : s.lists name = false ↔ ∀ x ∈ s.uc, ¬ SameName x.name name := by
  simp [lists, SameName]

theorem entry_isSome : (s.entry name).isSome = true ↔
    ∃ table ∈ s.tables, SameName table.name name := by
  simp [entry, SameName, List.find?_isSome]

theorem entry_eq_some {table : UCAPITable} (h : s.entry name = some table) :
    table ∈ s.tables ∧ SameName table.name name := by
  refine ⟨List.mem_of_find?_eq_some h, ?_⟩
  simpa using List.find?_some h

/-- Another spelling of the name. -/
theorem Resolves.spelled {other : String} (h : s.Resolves name) (hn : SameName name other) :
    s.Resolves other := by
  rcases h with h | ⟨hl, hloaded, hlisting⟩
  · left
    obtain ⟨table, hmem, ht⟩ := entry_isSome.1 h
    exact entry_isSome.2 ⟨table, hmem, ht.trans hn⟩
  · right
    obtain ⟨x, hx, hxn⟩ := lists_iff.1 hl
    refine ⟨lists_iff.2 ⟨x, hx, hxn.trans hn⟩, hloaded, fun listing hlist => ?_⟩
    obtain ⟨y, hy, hyn⟩ := hlisting listing hlist
    exact ⟨y, hy, hyn.trans hn⟩

/-- Where the set is loaded, what resolves is there. -/
theorem Resolves.loaded (h : s.Resolves name) (hl : s.is_loaded = true) :
    (s.entry name).isSome = true := by
  rcases h with h | ⟨-, hno, -⟩
  · exact h
  · exact absurd (hl.symm.trans hno) (by decide)

/-- Unity Catalog has the table, and the set has nothing else under its name and comes to find
it. -/
structure Owns (s : SetState) (x : ListedTable) : Prop where
  listed : x ∈ s.uc
  only : s.OnlyEntry x
  listing : ∀ listing, s.listing = some listing → ∀ y ∈ listing, SameName y.name x.name → y = x
  resolves : s.Resolves x.name

/-- What is found under the name is the table. -/
theorem Owns.found {table : UCAPITable} (h : s.Owns x) (hn : SameName x.name name)
    (hf : s.entry name = some table) : table.listed = x := by
  obtain ⟨hmem, ht⟩ := entry_eq_some hf
  exact h.only table hmem (ht.trans hn.symm)

/-- What no step takes back but a drop. -/
structure Advances (s s' : SetState) : Prop where
  uc : ∀ x ∈ s.uc, x ∈ s'.uc
  entry : ∀ name, (s.entry name).isSome = true → (s'.entry name).isSome = true
  resolves : ∀ name, s.Resolves name → s'.Resolves name
  owns : ∀ x, s.Owns x → s'.Owns x

theorem Advances.refl (s : SetState) : Advances s s :=
  ⟨fun _ h => h, fun _ h => h, fun _ h => h, fun _ h => h⟩

theorem Advances.trans {s'' : SetState} (h : Advances s s') (h' : Advances s' s'') :
    Advances s s'' :=
  ⟨fun x hx => h'.uc x (h.uc x hx), fun name he => h'.entry name (h.entry name he),
    fun name hr => h'.resolves name (h.resolves name hr), fun x ho => h'.owns x (h.owns x ho)⟩

theorem Advances.lists (h : Advances s s') (hl : s.lists name = true) : s'.lists name = true := by
  obtain ⟨x, hx, hn⟩ := lists_iff.1 hl
  exact lists_iff.2 ⟨x, h.uc x hx, hn⟩

/-- The set is as it was. -/
structure SameSet (s s' : SetState) : Prop where
  uc : s'.uc = s.uc
  is_loaded : s'.is_loaded = s.is_loaded
  tables : s'.tables = s.tables
  listing : s'.listing = s.listing

theorem SameSet.resolves (h : SameSet s s') (hr : s.Resolves name) : s'.Resolves name := by
  rwa [Resolves, SetState.entry, SetState.lists, h.tables, h.uc, h.is_loaded, h.listing]

theorem SameSet.advances (h : SameSet s s') : Advances s s' where
  uc x hx := h.uc ▸ hx
  entry name he := by rwa [SetState.entry, h.tables]
  resolves name hr := h.resolves hr
  owns x hx := by
    refine ⟨h.uc ▸ hx.listed, ?_, fun listing hl => hx.listing listing (h.listing ▸ hl),
      h.resolves hx.resolves⟩
    rw [OnlyEntry, h.tables]
    exact hx.only

theorem sameSet_setThread (f : SetThread → SetThread) : SameSet s (s.setThread c f) :=
  ⟨rfl, rfl, rfl, rfl⟩

/-- A table is created. -/
theorem advances_create (y : ListedTable) : Advances s { s with uc := y :: s.uc } := by
  have hres : ∀ name, s.Resolves name → SetState.Resolves { s with uc := y :: s.uc } name := by
    rintro name (h | ⟨hl, hloaded, hlisting⟩)
    · exact .inl h
    · refine .inr ⟨?_, hloaded, hlisting⟩
      obtain ⟨x, hx, hn⟩ := lists_iff.1 hl
      exact lists_iff.2 ⟨x, List.mem_cons_of_mem _ hx, hn⟩
  exact ⟨fun x hx => List.mem_cons_of_mem _ hx, fun _ h => h, hres, fun x hx =>
    ⟨List.mem_cons_of_mem _ hx.listed, hx.only, hx.listing, hres _ hx.resolves⟩⟩

/-- Names tell the schema's tables apart. -/
def UniqueNames (uc : List ListedTable) : Prop := uc.Pairwise fun x y => ¬ SameName x.name y.name

theorem UniqueNames.eq {uc : List ListedTable} {x y : ListedTable} (h : UniqueNames uc)
    (hx : x ∈ uc) (hy : y ∈ uc) (hn : SameName x.name y.name) : x = y := by
  have : Std.Symm fun x y : ListedTable => ¬ SameName x.name y.name :=
    ⟨fun _ _ hab hba => hab hba.symm⟩
  by_contra hne
  exact List.Pairwise.forall h hx hy hne hn

/-- Unity Catalog makes the list. -/
theorem advances_list (h : UniqueNames s.uc) : Advances s { s with listing := some s.uc } := by
  have hres : ∀ name, s.Resolves name →
      SetState.Resolves { s with listing := some s.uc } name := by
    rintro name (h | ⟨hl, hloaded, -⟩)
    · exact .inl h
    · refine .inr ⟨hl, hloaded, ?_⟩
      rintro _ ⟨⟩
      exact lists_iff.1 hl
  refine ⟨fun _ hx => hx, fun _ h => h, hres, fun x hx =>
    ⟨hx.listed, hx.only, ?_, hres _ hx.resolves⟩⟩
  rintro _ ⟨⟩ y hy hn
  exact h.eq hy hx.listed hn

/-- The lock is taken or released, and with it the list of the load under it is gone. -/
theorem advances_lock (o : Option ℕ) {listing : Option (List ListedTable)}
    (h : listing = s.listing ∨ listing = none) :
    Advances s { s with load_lock := o, listing } := by
  have hsub : ∀ l, listing = some l → s.listing = some l := by
    rintro l rfl
    rcases h with h | h
    · exact h.symm
    · cases h
  have hres : ∀ name, s.Resolves name →
      SetState.Resolves { s with load_lock := o, listing } name := by
    rintro name (h | ⟨hl, hloaded, hlisting⟩)
    · exact .inl h
    · exact .inr ⟨hl, hloaded, fun l hl => hlisting l (hsub l hl)⟩
  exact ⟨fun _ hx => hx, fun _ h => h, hres, fun x hx =>
    ⟨hx.listed, hx.only, fun l hl => hx.listing l (hsub l hl), hres _ hx.resolves⟩⟩

/-- The set is marked. -/
theorem advances_mark : Advances s { s with is_loaded := false } := by
  have hres : ∀ name, s.Resolves name → SetState.Resolves { s with is_loaded := false } name := by
    rintro name (h | ⟨hl, -, hlisting⟩)
    · exact .inl h
    · exact .inr ⟨hl, rfl, hlisting⟩
  exact ⟨fun _ hx => hx, fun _ h => h, hres, fun x hx =>
    ⟨hx.listed, hx.only, hx.listing, hres _ hx.resolves⟩⟩

/-- The load under way is done: all that Unity Catalog listed has an entry. -/
theorem advances_loaded {listing : List ListedTable} (hl : s.listing = some listing)
    (hall : ∀ x ∈ listing, (s.entry x.name).isSome = true) :
    Advances s { s with is_loaded := true } := by
  have hres : ∀ name, s.Resolves name → SetState.Resolves { s with is_loaded := true } name := by
    rintro name (h | ⟨-, -, hlisting⟩)
    · exact .inl h
    · obtain ⟨x, hx, hn⟩ := hlisting listing hl
      obtain ⟨table, hmem, ht⟩ := entry_isSome.1 (hall x hx)
      exact .inl (entry_isSome.2 ⟨table, hmem, ht.trans hn⟩)
  exact ⟨fun _ hx => hx, fun _ h => h, hres, fun x hx =>
    ⟨hx.listed, hx.only, hx.listing, hres _ hx.resolves⟩⟩

/-- An entry for a table of the list, unless its name has one. -/
theorem advances_emplace {table : UCAPITable} {listing : List ListedTable}
    (hl : s.listing = some listing) (hmem : table.listed ∈ listing) :
    Advances s (if (s.entry table.name).isSome then s else
      { s with tables := s.tables ++ [table] }) := by
  split
  · exact Advances.refl s
  · have hent : ∀ name, (s.entry name).isSome = true →
        (SetState.entry { s with tables := s.tables ++ [table] } name).isSome = true := by
      intro name h
      obtain ⟨e, he, hn⟩ := entry_isSome.1 h
      exact entry_isSome.2 ⟨e, List.mem_append_left _ he, hn⟩
    have hres : ∀ name, s.Resolves name →
        SetState.Resolves { s with tables := s.tables ++ [table] } name := by
      rintro name (h | h)
      · exact .inl (hent name h)
      · exact .inr h
    refine ⟨fun _ hx => hx, hent, hres, fun x hx =>
      ⟨hx.listed, fun e he hn => ?_, hx.listing, hres _ hx.resolves⟩⟩
    rcases List.mem_append.1 he with he | he
    · exact hx.only e he hn
    · obtain rfl := List.mem_singleton.1 he
      exact hx.listing listing hl _ hmem hn

/-- It has an entry then. -/
theorem entry_emplaced (table : UCAPITable) :
    (SetState.entry (if (s.entry table.name).isSome then s else
      { s with tables := s.tables ++ [table] }) table.name).isSome = true := by
  split
  · assumption
  · exact entry_isSome.2 ⟨table, List.mem_append_right _ (List.mem_singleton_self _), rfl⟩

end SetState

/-! ## The outline -/

open SetState

/-- What the others may do to a thread's own data. -/
structure SetThread.Left (th th' : SetThread) : Prop where
  call : th'.call = th.call
  pending : th'.pending = th.pending
  registering : th'.registering = th.registering
  made : th.registers = false → ∀ x, th'.made = some x → th.made = some x
  dropped : th'.dropped = false → th.dropped = false
  owed : th'.owed = true → th.owed = true
  expected : ∀ x, th'.expected = some x → th.expected = some x

theorem SetThread.Left.refl (th : SetThread) : th.Left th :=
  ⟨rfl, rfl, rfl, fun _ _ h => h, id, id, fun _ h => h⟩

theorem SetThread.Left.registers {th th' : SetThread} (h : th.Left th') :
    th'.registers = th.registers := by
  rw [SetThread.registers, h.pending, SetThread.registers]

theorem SetThread.Left.trans {th₁ th₂ th₃ : SetThread} (h : th₁.Left th₂) (h' : th₂.Left th₃) :
    th₁.Left th₃ where
  call := h'.call.trans h.call
  pending := h'.pending.trans h.pending
  registering := h'.registering.trans h.registering
  made hreg x hx := h.made hreg x (h'.made (h.registers.trans hreg) x hx)
  dropped hd := h.dropped (h'.dropped hd)
  owed ho := h.owed (h'.owed ho)
  expected x hx := h.expected x (h'.expected x hx)

/-- What a thread relies on: the others do not touch what `load_lock` guards while it holds it, they
take no entry away, and what it knows of its name they leave so unless the name is dropped. -/
structure SetRely (c : ℕ) (s s' : SetState) : Prop where
  thread : (s.thread c).Left (s'.thread c)
  lock : s'.load_lock = some c ↔ s.load_lock = some c
  entry : ∀ name, (s.entry name).isSome = true → (s'.entry name).isSome = true
  loaded : s.load_lock = some c → s'.is_loaded = s.is_loaded
  listing : s.load_lock = some c → s.awaitsList c = false → s'.listing = s.listing
  owns : (s.thread c).registers = false → ∀ x, (s'.thread c).made = some x → s.Owns x → s'.Owns x
  lists : ∀ info, (s.thread c).call = some (.create info) → (s'.thread c).dropped = false →
    s.lists info.table_name = true → s'.lists info.table_name = true
  resolves : ∀ info, (s.thread c).call = some (.create info) → (s'.thread c).dropped = false →
    s.Resolves info.table_name → s'.Resolves info.table_name

section

variable {s s' s'' : SetState} {c d : ℕ}

theorem SetRely.refl (c : ℕ) (s : SetState) : SetRely c s s :=
  ⟨.refl _, Iff.rfl, fun _ h => h, fun _ => rfl, fun _ _ => rfl, fun _ _ _ h => h,
    fun _ _ _ h => h, fun _ _ _ h => h⟩

theorem SetRely.awaitsList (h : SetRely c s s') : s'.awaitsList c = s.awaitsList c := by
  have hlock : (s'.load_lock == some c) = (s.load_lock == some c) := by
    rw [Bool.eq_iff_iff, beq_iff_eq, beq_iff_eq, h.lock]
  rw [SetState.awaitsList, SetState.awaitsList, hlock, h.thread.pending, h.thread.call]

theorem SetRely.trans (h : SetRely c s s') (h' : SetRely c s' s'') : SetRely c s s'' where
  thread := h.thread.trans h'.thread
  lock := h'.lock.trans h.lock
  entry name he := h'.entry name (h.entry name he)
  loaded hl := (h'.loaded (h.lock.2 hl)).trans (h.loaded hl)
  listing hl ha := (h'.listing (h.lock.2 hl) (h.awaitsList.trans ha)).trans (h.listing hl ha)
  owns hreg x hx ho := by
    have hreg' := h.thread.registers.trans hreg
    exact h'.owns hreg' x hx (h.owns hreg x (h'.thread.made hreg' x hx) ho)
  lists info hc hd hl :=
    h'.lists info (h.thread.call.trans hc) hd (h.lists info hc (h'.thread.dropped hd) hl)
  resolves info hc hd hr :=
    h'.resolves info (h.thread.call.trans hc) hd (h.resolves info hc (h'.thread.dropped hd) hr)

/-- A step that advances the set and leaves the thread its own. -/
theorem SetRely.of_advances (hadv : Advances s s') (hthread : (s.thread c).Left (s'.thread c))
    (hlock : s'.load_lock = some c ↔ s.load_lock = some c)
    (hloaded : s.load_lock = some c → s'.is_loaded = s.is_loaded)
    (hlisting : s.load_lock = some c → s.awaitsList c = false → s'.listing = s.listing) :
    SetRely c s s' :=
  ⟨hthread, hlock, hadv.entry, hloaded, hlisting, fun _ x _ h => hadv.owns x h,
    fun _ _ _ h => hadv.lists h, fun _ _ _ h => hadv.resolves _ h⟩

end

/-- What holds in every state. -/
structure SetInv (G₁ G₂ : Prop) (s : SetState) : Prop where
  names : UniqueNames s.uc
  listing : s.load_lock = none → s.listing = none
  made : ∀ c x, (s.thread c).made = some x → x ∈ s.uc
  expects : ∀ c name x, (s.thread c).call = some (.lookup name) →
    (s.thread c).expected = some x → SameName x.name name
  wrong : G₁ → s.wrong = false
  registered : G₁ → ∀ x ∈ s.registered, s.Owns x
  expected : G₁ → ∀ c x, (s.thread c).expected = some x → s.Owns x
  missed : G₂ → s.missed = false
  created : G₂ → ∀ name ∈ s.created, s.Resolves name
  owed : G₂ → ∀ c name, (s.thread c).call = some (.lookup name) → (s.thread c).owed = true →
    s.Resolves name

/-- Nothing new is owed to anyone. -/
structure SameDebts (s s' : SetState) : Prop where
  call : ∀ c, (s'.thread c).call = (s.thread c).call
  owed : ∀ c, (s'.thread c).owed = (s.thread c).owed
  expected : ∀ c, (s'.thread c).expected = (s.thread c).expected
  created : s'.created = s.created
  registered : s'.registered = s.registered
  missed : s'.missed = s.missed
  wrong : s'.wrong = s.wrong

section

variable {G₁ G₂ : Prop} {s s' : SetState} {c : ℕ}

theorem SetInv.advance (hs : SetInv G₁ G₂ s) (hadv : Advances s s') (hd : SameDebts s s')
    (hnames : UniqueNames s'.uc) (hlisting : s'.load_lock = none → s'.listing = none)
    (hmade : ∀ c x, (s'.thread c).made = some x → x ∈ s'.uc) : SetInv G₁ G₂ s' where
  names := hnames
  listing := hlisting
  made := hmade
  expects c name x hc hx :=
    hs.expects c name x ((hd.call c).symm.trans hc) ((hd.expected c).symm.trans hx)
  wrong hG := hd.wrong.trans (hs.wrong hG)
  registered hG x hx := hadv.owns x (hs.registered hG x (hd.registered ▸ hx))
  expected hG c x hx := hadv.owns x (hs.expected hG c x (hd.expected c ▸ hx))
  missed hG := hd.missed.trans (hs.missed hG)
  created hG name hn := hadv.resolves name (hs.created hG name (hd.created ▸ hn))
  owed hG c name hc ho :=
    hadv.resolves name (hs.owed hG c name ((hd.call c).symm.trans hc) ((hd.owed c).symm.trans ho))

/-- A step of the threads: what it does to the set is behind the lock, or is nothing. -/
theorem SetInv.step (hs : SetInv G₁ G₂ s) (hadv : Advances s s') (huc : s'.uc = s.uc)
    (hd : SameDebts s s') (hlisting : s'.load_lock = none → s'.listing = none)
    (hmade : ∀ d, (s'.thread d).made = (s.thread d).made)
    (hthread : ∀ d, d ≠ c → s'.thread d = s.thread d)
    (hlock : ∀ d, d ≠ c → (s'.load_lock = some d ↔ s.load_lock = some d))
    (hheld : ∀ d, d ≠ c → s.load_lock = some d →
      s'.is_loaded = s.is_loaded ∧ s'.listing = s.listing) :
    SetInv G₁ G₂ s' ∧ ∀ d, d ≠ c → SetRely d s s' := by
  refine ⟨hs.advance hadv hd (huc ▸ hs.names) hlisting fun d x hx => ?_, fun d hne => ?_⟩
  · exact huc ▸ hs.made d x ((hmade d).symm.trans hx)
  · refine .of_advances hadv ?_ (hlock d hne) (fun h => (hheld d hne h).1) fun h _ =>
      (hheld d hne h).2
    rw [hthread d hne]
    exact .refl _

/-- A step that only touches the thread's own data. -/
theorem SetInv.own (hs : SetInv G₁ G₂ s) {f : SetThread → SetThread}
    (hf : ∀ th, (f th).call = th.call ∧ (f th).made = th.made ∧ (f th).owed = th.owed ∧
      (f th).expected = th.expected) :
    SetInv G₁ G₂ (s.setThread c f) ∧ ∀ d, d ≠ c → SetRely d s (s.setThread c f) := by
  have hsame : ∀ {β : Type} (g : SetThread → β), (∀ th, g (f th) = g th) →
      ∀ d, g ((s.setThread c f).thread d) = g (s.thread d) := by
    intro β g hg d
    by_cases hd : d = c
    · subst hd
      rw [thread_setThread_self, hg]
    · rw [thread_setThread_of_ne f hd]
  refine hs.step (sameSet_setThread f).advances rfl ?_ hs.listing
    (hsame _ fun th => (hf th).2.1) (fun d hd => thread_setThread_of_ne f hd)
    (fun _ _ => Iff.rfl) fun _ _ _ => ⟨rfl, rfl⟩
  exact ⟨hsame _ fun th => (hf th).1, hsame _ fun th => (hf th).2.2.1,
    hsame _ fun th => (hf th).2.2.2, rfl, rfl, rfl, rfl⟩

/-- A step of the thread that holds the lock. -/
theorem SetInv.held (hs : SetInv G₁ G₂ s) (hadv : Advances s s') (hheld : s.load_lock = some c)
    (huc : s'.uc = s.uc) (hthread : s'.thread = s.thread) (hcreated : s'.created = s.created)
    (hregistered : s'.registered = s.registered) (hmissed : s'.missed = s.missed)
    (hwrong : s'.wrong = s.wrong) (hlisting : s'.load_lock = none → s'.listing = none)
    (hlock : ∀ d, d ≠ c → s'.load_lock ≠ some d) :
    SetInv G₁ G₂ s' ∧ ∀ d, d ≠ c → SetRely d s s' := by
  have hother : ∀ d, d ≠ c → s.load_lock ≠ some d := by
    intro d hd h
    exact hd (Option.some.inj (h.symm.trans hheld))
  refine hs.step hadv huc ?_ hlisting (fun d => by rw [hthread]) (fun d _ => by rw [hthread])
    (fun d hd => iff_of_false (hlock d hd) (hother d hd)) fun d hd h => absurd h (hother d hd)
  exact ⟨fun d => by rw [hthread], fun d => by rw [hthread], fun d => by rw [hthread], hcreated,
    hregistered, hmissed, hwrong⟩

end

/-! ## The surroundings -/

section

variable {G₁ G₂ : Prop} {s s' : SetState} {c : ℕ} {name other : String} {x : ListedTable}

theorem drop_lists (h : s.lists other = true) (hn : ¬ SameName other name) :
    (s.drop name).lists other = true := by
  obtain ⟨y, hy, hyn⟩ := lists_iff.1 h
  refine lists_iff.2 ⟨y, List.mem_filter.2 ⟨hy, ?_⟩, hyn⟩
  simpa using fun heq => hn (hyn.symm.trans heq)

theorem drop_resolves (h : s.Resolves other) (hn : ¬ SameName other name) :
    (s.drop name).Resolves other := by
  rcases h with h | ⟨hl, hloaded, hlisting⟩
  · exact .inl h
  · exact .inr ⟨drop_lists hl hn, hloaded, hlisting⟩

theorem drop_owns (h : s.Owns x) (hn : ¬ SameName x.name name) : (s.drop name).Owns x :=
  ⟨List.mem_filter.2 ⟨h.listed, by simpa using hn⟩, h.only, h.listing, drop_resolves h.resolves hn⟩

/-- What outlives a drop has another name. -/
theorem filter_eq_some {o : Option ListedTable}
    (h : o.filter (fun x => decide (lower x.name ≠ lower name)) = some x) :
    o = some x ∧ ¬ SameName x.name name := by
  obtain ⟨ho, hn⟩ := Option.filter_eq_some_iff.1 h
  exact ⟨ho, by simpa using hn⟩

/-- What a thread has left after a drop. -/
theorem left_drop (th : SetThread) (name : String) : th.Left (th.drop name) where
  call := rfl
  pending := rfl
  registering := rfl
  made _ _ hx := (filter_eq_some hx).1
  dropped hd := (Bool.or_eq_false_iff.1 hd).1
  owed ho := (Bool.and_eq_true_iff.1 ho).1
  expected _ hx := (filter_eq_some hx).1

/-- A create whose name was not dropped has another. -/
theorem name_of_not_dropped {th : SetThread} {info : BoundCreateTableInfo}
    (hc : th.call = some (.create info)) (hd : (th.drop name).dropped = false) :
    ¬ SameName info.table_name name := by
  have h := (Bool.or_eq_false_iff.1 hd).2
  rw [hc] at h
  simpa using h

theorem SetInv.drop (hs : SetInv G₁ G₂ s) (name : String) :
    SetInv G₁ G₂ (s.drop name) ∧ ∀ d, SetRely d s (s.drop name) := by
  refine ⟨⟨hs.names.filter _, hs.listing, ?_, ?_, hs.wrong, ?_, ?_, hs.missed, ?_, ?_⟩, fun d => ?_⟩
  · intro c x hx
    obtain ⟨hmade, hn⟩ := filter_eq_some hx
    exact List.mem_filter.2 ⟨hs.made c x hmade, by simpa using hn⟩
  · exact fun c n x hc hx => hs.expects c n x hc (filter_eq_some hx).1
  · intro hG x hx
    obtain ⟨hmem, hn⟩ := List.mem_filter.1 hx
    exact drop_owns (hs.registered hG x hmem) (by simpa using hn)
  · intro hG c x hx
    obtain ⟨hexp, hn⟩ := filter_eq_some hx
    exact drop_owns (hs.expected hG c x hexp) hn
  · intro hG n hn
    obtain ⟨hmem, hne⟩ := List.mem_filter.1 hn
    exact drop_resolves (hs.created hG n hmem) (by simpa using hne)
  · intro hG c n hc ho
    have hc : (s.thread c).call = some (.lookup n) := hc
    obtain ⟨howed, hne⟩ := Bool.and_eq_true_iff.1 ho
    rw [hc] at hne
    exact drop_resolves (hs.owed hG c n hc howed) (by simpa using hne)
  · refine ⟨left_drop _ _, Iff.rfl, fun _ h => h, fun _ => rfl, fun _ _ => rfl, ?_, ?_, ?_⟩
    · exact fun _ x hx ho => drop_owns ho (filter_eq_some hx).2
    · exact fun info hc hd hl => drop_lists hl (name_of_not_dropped hc hd)
    · exact fun info hc hd hr => drop_resolves hr (name_of_not_dropped hc hd)

/-- A free name can be added. -/
theorem names_cons (h : UniqueNames s.uc) (hfree : s.lists x.name = false) :
    UniqueNames (x :: s.uc) :=
  List.Pairwise.cons (fun y hy hn => lists_eq_false.1 hfree y hy hn.symm) h

theorem SetInv.create (hs : SetInv G₁ G₂ s) (hfree : s.lists x.name = false) :
    SetInv G₁ G₂ { s with uc := x :: s.uc } ∧ ∀ d, SetRely d s { s with uc := x :: s.uc } := by
  refine ⟨hs.advance (advances_create x) ?_ (names_cons hs.names hfree) hs.listing ?_, fun d => ?_⟩
  · exact ⟨fun _ => rfl, fun _ => rfl, fun _ => rfl, rfl, rfl, rfl, rfl⟩
  · exact fun c y hy => List.mem_cons_of_mem _ (hs.made c y hy)
  · exact .of_advances (advances_create x) (.refl _) Iff.rfl (fun _ => rfl) fun _ _ => rfl

/-- Unity Catalog handles a register request: only the thread that waits for the answer learns of
it. -/
theorem SetInv.register {table_id storage_location : String} (hs : SetInv G₁ G₂ s)
    (h : s.register c table_id storage_location = some s') :
    SetInv G₁ G₂ s' ∧ ∀ d, SetRely d s s' := by
  obtain ⟨req, hpending, hreq⟩ := Option.bind_eq_some_iff.1 h
  split at hreq
  · rename_i table table_type hbody
    split at hreq
    · cases hreq
    · rename_i hfree
      obtain rfl := Option.some.inj hreq
      rw [Bool.not_eq_true] at hfree
      -- the thread that waits is registering, by its request
      have hregisters : (s.thread c).registers = true := by
        rw [SetThread.registers, hpending, Option.any_some, hbody]
        rfl
      obtain ⟨hs₁, hrely⟩ := hs.create (x := ⟨table.name, table_id, storage_location⟩) hfree
      -- what a thread knows of itself, but for the answer, is as it was
      have hsame : ∀ {β : Type} (g : SetThread → β) (f : SetThread → SetThread),
          (∀ th, g (f th) = g th) → ∀ d, g ((SetState.setThread { s with
            uc := ⟨table.name, table_id, storage_location⟩ :: s.uc } c f).thread d) =
              g (s.thread d) := by
        intro β g f hg d
        by_cases hd : d = c
        · subst hd
          exact (congrArg g (thread_setThread_self f)).trans (hg _)
        · exact congrArg g (thread_setThread_of_ne f hd)
      refine ⟨hs₁.advance (sameSet_setThread _).advances ?_ hs₁.names hs₁.listing ?_, fun d => ?_⟩
      · exact ⟨hsame SetThread.call _ fun _ => rfl, hsame SetThread.owed _ fun _ => rfl,
          hsame SetThread.expected _ fun _ => rfl, rfl, rfl, rfl, rfl⟩
      · intro d y hy
        by_cases hd : d = c
        · subst hd
          rw [thread_setThread_self] at hy
          obtain rfl := Option.some.inj hy
          exact List.mem_cons_self
        · rw [thread_setThread_of_ne _ hd] at hy
          exact hs₁.made d y hy
      · refine (hrely d).trans
          (.of_advances (sameSet_setThread _).advances ?_ Iff.rfl (fun _ => rfl)
          fun _ _ => rfl)
        by_cases hd : d = c
        · subst hd
          rw [thread_setThread_self]
          refine ⟨rfl, rfl, rfl, fun hno => ?_, id, id, fun _ h => h⟩
          exact absurd (hregisters.symm.trans hno) (by decide)
        · rw [thread_setThread_of_ne _ hd]
          exact .refl _
  · cases hreq

theorem SetInv.list (hs : SetInv G₁ G₂ s) (h : s.awaitsList c = true) :
    SetInv G₁ G₂ { s with listing := some s.uc } ∧
      ∀ d, SetRely d s { s with listing := some s.uc } := by
  have hlock : s.load_lock = some c := by
    rw [SetState.awaitsList, Bool.and_assoc] at h
    simpa using (Bool.and_eq_true_iff.1 h).1
  refine ⟨hs.advance (advances_list hs.names) ?_ hs.names ?_ hs.made, fun d => ?_⟩
  · exact ⟨fun _ => rfl, fun _ => rfl, fun _ => rfl, rfl, rfl, rfl, rfl⟩
  · exact fun hno => absurd (hlock.symm.trans hno) (by simp)
  · refine .of_advances (advances_list hs.names) (.refl _) Iff.rfl (fun _ => rfl) fun hd hno => ?_
    obtain rfl := Option.some.inj (hlock.symm.trans hd)
    exact absurd (h.symm.trans hno) (by decide)

end

/-- An operation that leaves the set, and what the thread waits for, as they are. -/
def Op.LeavesSet : Op → Prop
  | .issue _ => False
  | .answer => False
  | .lockLoad => False
  | .unlockLoad => False
  | .setLoaded _ => False
  | .emplaceTable _ => False
  | _ => True

theorem Op.OnFiles.leavesSet {op : Op} (h : op.OnFiles) : op.LeavesSet := by
  cases op <;> trivial

namespace CreatingCatalog

/-- The threads, under the conditions in force. -/
def running (t : CreatingCatalog) (G₁ G₂ : Prop) : Outline t.threads where
  guard := ⟨fun s c op ch =>
    (G₁ → t.marksOwn.op s c op ch) ∧ (G₂ → t.takenResolves.op s c op ch), fun _ _ => True⟩
  inv := SetInv G₁ G₂
  rely := SetRely
  rely_refl := SetRely.refl
  rely_trans _ _ _ _ := SetRely.trans

variable {t : CreatingCatalog} {G₁ G₂ : Prop} {c : ℕ} {s : SetState} {α β : Type}

/-- What a program that returns leaves; nothing is said of one that throws. -/
def Yields (A : α → SetState → Prop) (r : Except Exception α) (s : SetState) : Prop :=
  match r with
  | .ok a => A a s
  | .error _ => True

theorem Yields.bind {A : α → SetState → Prop} {B : β → SetState → Prop} {p : Run α} {f : α → Run β}
    (hs : SetInv G₁ G₂ s) (hp : (t.running G₁ G₂).Safe c p (Yields A) s)
    (hf : ∀ a (s : SetState), SetInv G₁ G₂ s → A a s →
      (t.running G₁ G₂).Safe c (f a) (Yields B) s) :
    (t.running G₁ G₂).Safe c (p.bind f) (Yields B) s :=
  Outline.Safe.bind hp hs hf fun _ _ _ _ _ _ _ => trivial

theorem Yields.throw {A : α → SetState → Prop} (e : Exception) :
    (t.running G₁ G₂).Safe c (Prog.throw e : Run α) (Yields A) s :=
  fun _ _ _ => trivial

theorem Yields.ret {A : α → SetState → Prop} {a : α} (hA : (t.running G₁ G₂).Stable c (A a))
    (hs : SetInv G₁ G₂ s) (h : A a s) :
    (t.running G₁ G₂).Safe c (Prog.ret a : Run α) (Yields A) s :=
  fun s' hr hs' => hA s s' hr hs hs' h

/-! ## Operations and requests -/

/-- An assertion about a create: the others leave it, and so do its own requests that do not
register. -/
structure Kept (t : CreatingCatalog) (G₁ G₂ : Prop) (c : ℕ) (I : SetState → Prop) : Prop where
  stable : (t.running G₁ G₂).Stable c I
  own : ∀ (s : SetState) (p : Option HttpRequest), (p.any fun req => req.body.registers) = false →
    I s → I (s.setThread c fun th => { th with pending := p })

theorem setAnswer_leaves {op : Op} (hop : op.LeavesSet) {ch : SetChoice}
    {x : Except Exception op.Ans}
    {s' : SetState} (h : t.setAnswer c s op ch = some (x, s')) : s' = s := by
  cases op with
  | ensureHttpfs =>
    rw [setAnswer] at h
    split at h
    · exact (Prod.mk.inj (Option.some.inj h)).2.symm
    · cases h
  | issue req => exact hop.elim
  | answer => exact hop.elim
  | lockLoad => exact hop.elim
  | unlockLoad => exact hop.elim
  | setLoaded b => exact hop.elim
  | emplaceTable table => exact hop.elim
  | _ => exact (Prod.mk.inj (Option.some.inj h)).2.symm

/-- Operations that leave the set leave what is known. -/
theorem safe_leaves {I : SetState → Prop} {p : Run α} (hp : p.Uses Op.LeavesSet)
    (hI : (t.running G₁ G₂).Stable c I) (hs : SetInv G₁ G₂ s) (hi : I s) :
    (t.running G₁ G₂).Safe c p (fun _ => I) s :=
  Outline.safe_of_uses hp (fun _ _ _ _ _ hop ha => setAnswer_leaves hop ha) hI hs hi

/-- A thread's request as it goes out. -/
def sent (req : HttpRequest) (th : SetThread) : SetThread :=
  { th with pending := some req, registering := th.registering || req.body.registers }

/-- A thread's request as it is answered. -/
def answered (th : SetThread) : SetThread := { th with pending := none }

/-- `ensureHttpfs` throws nothing of the catalog's own. -/
theorem safe_ensureHttpfs {I : SetState → Prop} (hI : (t.running G₁ G₂).Stable c I)
    (hs : SetInv G₁ G₂ s) (hi : I s) :
    (t.running G₁ G₂).Safe c ensureHttpfs
      (fun r s => I s ∧ ∀ e, r = .error e → e.type ≠ .catalog) s := by
  refine Outline.safe_perform_idle (R := fun r : Except Exception (Client.Ans Op.ensureHttpfs) =>
    ∀ e, r = .error e → e.type ≠ .catalog) hI ?_ hs hi
  intro (s : SetState) ch x s' ha
  have ha : t.setAnswer c s .ensureHttpfs ch = some (x, s') := ha
  simp only [setAnswer] at ha
  split at ha
  · rename_i htransported
    obtain ⟨rfl, rfl⟩ := Prod.mk.inj (Option.some.inj ha)
    refine ⟨rfl, fun e he => ?_⟩
    rw [he] at htransported
    simpa [transported] using htransported
  · cases ha

/-- What a request is known to be out with. -/
theorem stable_pending (req : HttpRequest) :
    (t.running G₁ G₂).Stable c fun s => (SetState.thread s c).pending = some req :=
  fun _ _ hr _ _ h => (SetRely.thread hr).pending.trans h

theorem safe_issue {req : HttpRequest} {I J : SetState → Prop}
    (hI : (t.running G₁ G₂).Stable c I) (hJ : (t.running G₁ G₂).Stable c J)
    (hissue : ∀ s, I s → J (s.setThread c (sent req))) (hs : SetInv G₁ G₂ s) (hi : I s) :
    (t.running G₁ G₂).Safe c (issue req)
      (fun r s => match r with
        | .ok _ => J s ∧ (s.thread c).pending = some req
        | .error e => I s ∧ e.type ≠ .catalog) s := by
  refine Outline.safe_perform ?_ ?_
  · intro x s s' hr hs hs' h
    cases x with
    | ok a => exact (hJ.and (stable_pending req)) s s' hr hs hs' h
    | error e => exact ⟨hI s s' hr hs hs' h.1, h.2⟩
  · intro (s₁ : SetState) hr (hs₁ : SetInv G₁ G₂ s₁) ch x s₂ _ ha
    have ha : t.setAnswer c s₁ (.issue req) ch = some (x, s₂) := ha
    have hi₁ := hI s s₁ hr hs hs₁ hi
    simp only [setAnswer] at ha
    split at ha
    · obtain ⟨rfl, rfl⟩ := Prod.mk.inj (Option.some.inj ha)
      obtain ⟨hs₂, hothers⟩ := hs₁.own (c := c) (f := sent req) fun th => ⟨rfl, rfl, rfl, rfl⟩
      refine ⟨hs₂, hothers, hissue s₁ hi₁, ?_⟩
      rw [thread_setThread_self]
    · rename_i e he
      split at ha
      · cases ha
      · rename_i htype
        obtain ⟨rfl, rfl⟩ := Prod.mk.inj (Option.some.inj ha)
        exact ⟨hs₁, fun d _ => SetRely.refl d s₁, hi₁, htype⟩

/-- **Requests.** `I` holds before the request goes out and `J` while it is out; what the answer
tells is read off the answer, what Unity Catalog says being so, under the conditions in force. -/
theorem safe_ask {req : HttpRequest} {f : HttpResponse → Except Exception α}
    {I J : SetState → Prop} {Q : Except Exception α → SetState → Prop}
    (hI : (t.running G₁ G₂).Stable c I) (hJ : (t.running G₁ G₂).Stable c J)
    (hQ : ∀ r, (t.running G₁ G₂).Stable c (Q r))
    (hissue : ∀ s, I s → J (s.setThread c (sent req)))
    (hfail : ∀ e s, e.type ≠ .catalog → I s → Q (.error e) s)
    (hanswer : ∀ (s : SetState) (ch : SetChoice), SetInv G₁ G₂ s → J s →
      (s.thread c).pending = some req → transported (ch.ans .answer) = true →
      t.truthful s c req (ch.ans .answer) = true →
      (t.running G₁ G₂).guard.op s c .answer ch →
      Q ((ch.ans .answer).bind f) (s.setThread c answered))
    (hs : SetInv G₁ G₂ s) (hi : I s) :
    (t.running G₁ G₂).Safe c (ensureHttpfs.bind fun _ => (issue req).bind fun _ =>
      answer.bind fun resp => Prog.ofExcept (f resp)) Q s := by
  have throws : ∀ (e : Exception) (s : SetState), SetInv G₁ G₂ s → Q (.error e) s →
      (t.running G₁ G₂).Safe c (Prog.throw e : Run α) Q s := by
    intro e s hs hq
    exact Outline.safe_ofExcept (O := t.running G₁ G₂) (x := .error e) (hQ _) hs hq
  refine Outline.Safe.bind (safe_ensureHttpfs hI hs hi) hs ?_
    fun e s₁ hs₁ h => throws e s₁ hs₁ (hfail e s₁ (h.2 e rfl) h.1)
  rintro - s₁ hs₁ ⟨hi₁, -⟩
  refine Outline.Safe.bind (safe_issue hI hJ hissue hs₁ hi₁) hs₁ ?_
    fun e s₂ hs₂ h => throws e s₂ hs₂ (hfail e s₂ h.2 h.1)
  rintro - s₂ hs₂ ⟨hj₂, hreq⟩
  refine Outline.Safe.bind (Q := fun x => Q (x.bind f)) ?_ hs₂
    (fun resp s₃ hs₃ h => Outline.safe_ofExcept (hQ _) hs₃ h) fun e s₃ hs₃ h => throws e s₃ hs₃ h
  refine Outline.safe_perform (fun x => hQ (x.bind f)) ?_
  intro (s₃ : SetState) hr (hs₃ : SetInv G₁ G₂ s₃) ch x s₄ hg ha
  have ha : t.setAnswer c s₃ .answer ch = some (x, s₄) := ha
  obtain ⟨hj₃, hreq₃⟩ := hJ.and (stable_pending req) s₂ s₃ hr hs₂ hs₃ ⟨hj₂, hreq⟩
  simp only [setAnswer, hreq₃, Option.bind_some] at ha
  split at ha
  · rename_i hans
    obtain ⟨htransported, htrue⟩ := Bool.and_eq_true_iff.1 hans
    obtain ⟨rfl, rfl⟩ := Prod.mk.inj (Option.some.inj ha)
    obtain ⟨hs₄, hothers⟩ := hs₃.own (c := c) (f := answered) fun th => ⟨rfl, rfl, rfl, rfl⟩
    exact ⟨hs₄, hothers, hanswer s₃ ch hs₃ hj₃ hreq₃ htransported htrue hg⟩
  · cases ha

/-- A request that does not register keeps what is known of the create. -/
theorem Kept.sent {I : SetState → Prop} (hI : t.Kept G₁ G₂ c I) {req : HttpRequest}
    (hreq : req.body.registers = false) (s : SetState) (hi : I s) :
      I (s.setThread c (sent req)) := by
  have heq : CreatingCatalog.sent req = fun th => { th with pending := some req } := by
    funext th
    rw [CreatingCatalog.sent, hreq, Bool.or_false]
  rw [heq]
  exact hI.own s (some req) hreq hi

theorem Kept.answered {I : SetState → Prop} (hI : t.Kept G₁ G₂ c I) (s : SetState) (hi : I s) :
    I (s.setThread c answered) :=
  hI.own s none rfl hi

/-- A request that does not register. -/
theorem Kept.safe_ask {I : SetState → Prop} (hI : t.Kept G₁ G₂ c I) {req : HttpRequest}
    {f : HttpResponse → Except Exception α} {Q : Except Exception α → SetState → Prop}
    (hreq : req.body.registers = false) (hQ : ∀ r, (t.running G₁ G₂).Stable c (Q r))
    (hfail : ∀ e s, e.type ≠ .catalog → I s → Q (.error e) s)
    (hanswer : ∀ (s : SetState) (ch : SetChoice), I s → I (s.setThread c CreatingCatalog.answered) →
      (s.thread c).pending = some req → transported (ch.ans .answer) = true →
      t.truthful s c req (ch.ans .answer) = true →
      (t.running G₁ G₂).guard.op s c .answer ch →
      Q ((ch.ans .answer).bind f) (s.setThread c CreatingCatalog.answered))
    (hs : SetInv G₁ G₂ s) (hi : I s) :
    (t.running G₁ G₂).Safe c (ensureHttpfs.bind fun _ => (issue req).bind fun _ =>
      answer.bind fun resp => Prog.ofExcept (f resp)) Q s :=
  CreatingCatalog.safe_ask hI.stable hI.stable hQ (hI.sent hreq) hfail
    (fun s ch _ hi => hanswer s ch hi (hI.answered s hi)) hs hi

/-- A request of which the answer does not matter. -/
theorem Kept.ask {I : SetState → Prop} (hI : t.Kept G₁ G₂ c I) {req : HttpRequest}
    {f : HttpResponse → Except Exception α} (hreq : req.body.registers = false)
    (hs : SetInv G₁ G₂ s) (hi : I s) :
    (t.running G₁ G₂).Safe c (ensureHttpfs.bind fun _ => (issue req).bind fun _ =>
      answer.bind fun resp => Prog.ofExcept (f resp)) (fun _ => I) s :=
  hI.safe_ask hreq (fun _ => hI.stable) (fun _ _ _ h => h) (fun _ _ _ h _ _ _ _ => h) hs hi

/-! ## What a create knows -/

/-- The create is under way, and no register request of it is. -/
structure Idle (c : ℕ) (info : BoundCreateTableInfo) (s : SetState) : Prop where
  call : (s.thread c).call = some (.create info)
  registers : (s.thread c).registers = false

/-- No register request of it has gone out yet. -/
structure Begun (c : ℕ) (info : BoundCreateTableInfo) (s : SetState) : Prop
    extends Idle c info s where
  registering : (s.thread c).registering = false

/-- Unity Catalog has a table of its name, unless one was dropped. -/
structure Heard (c : ℕ) (info : BoundCreateTableInfo) (s : SetState) : Prop
    extends Idle c info s where
  lists : (s.thread c).dropped = true ∨ s.lists info.table_name = true

/-- A lookup of its name finds the table it made, and finds an entry unless one was dropped. -/
structure Settled (G₁ G₂ : Prop) (c : ℕ) (info : BoundCreateTableInfo) (s : SetState) : Prop
    extends Idle c info s where
  owns : G₁ → ∀ x, (s.thread c).made = some x → s.Owns x
  resolves : G₂ → (s.thread c).dropped = true ∨ s.Resolves info.table_name

variable {info : BoundCreateTableInfo}

theorem Idle.rely {s s' : SetState} (h : Idle c info s) (hr : SetRely c s s') : Idle c info s' :=
  ⟨hr.thread.call.trans h.call, hr.thread.registers.trans h.registers⟩

theorem Idle.own {s : SetState} (h : Idle c info s) {p : Option HttpRequest}
    (hp : (p.any fun req => req.body.registers) = false) :
    Idle c info (s.setThread c fun th => { th with pending := p }) := by
  refine ⟨?_, ?_⟩
  · rw [thread_setThread_self]
    exact h.call
  · rw [thread_setThread_self]
    exact hp

/-- A dropped name stays dropped. -/
theorem dropped_or {s s' : SetState} {A B : Prop} (hr : SetRely c s s')
    (h : (s.thread c).dropped = true ∨ A) (hAB : (s'.thread c).dropped = false → A → B) :
    (s'.thread c).dropped = true ∨ B := by
  by_cases hd : (s'.thread c).dropped = true
  · exact .inl hd
  · rw [Bool.not_eq_true] at hd
    refine .inr (hAB hd (h.resolve_left fun hdr => ?_))
    exact absurd (hdr.symm.trans (hr.thread.dropped hd)) (by decide)

theorem kept_idle : t.Kept G₁ G₂ c (Idle c info) where
  stable _ _ hr _ _ h := h.rely hr
  own _ _ hp h := h.own hp

theorem kept_begun : t.Kept G₁ G₂ c (Begun c info) where
  stable _ _ hr _ _ h := ⟨h.toIdle.rely hr, (SetRely.thread hr).registering.trans h.registering⟩
  own s p hp h := by
    refine ⟨h.toIdle.own hp, ?_⟩
    rw [thread_setThread_self]
    exact h.registering

theorem kept_heard : t.Kept G₁ G₂ c (Heard c info) where
  stable s s' hr _ _ h := ⟨h.toIdle.rely hr, dropped_or hr h.lists fun hd hl =>
    SetRely.lists hr info h.call hd hl⟩
  own s p hp h := by
    refine ⟨h.toIdle.own hp, ?_⟩
    rw [thread_setThread_self]
    exact h.lists

theorem kept_settled : t.Kept G₁ G₂ c (Settled G₁ G₂ c info) where
  stable s s' hr _ _ h := by
    refine ⟨h.toIdle.rely hr, fun hG x hx => ?_, fun hG => ?_⟩
    · exact SetRely.owns hr h.registers x hx
        (h.owns hG x ((SetRely.thread hr).made h.registers x hx))
    · exact dropped_or hr (h.resolves hG) fun hd => SetRely.resolves hr info h.call hd
  own s p hp h := by
    have hadv := (sameSet_setThread (s := s) (c := c) fun th => { th with pending := p }).advances
    refine ⟨h.toIdle.own hp, fun hG x hx => ?_, fun hG => ?_⟩
    · rw [thread_setThread_self] at hx
      exact hadv.owns x (h.owns hG x hx)
    · rw [thread_setThread_self]
      exact (h.resolves hG).imp_right (hadv.resolves _)

theorem Begun.answered {s : SetState} (h : Begun c info s) :
    Idle c info (s.setThread c answered) :=
  h.toIdle.own rfl

/-- **A name that is taken.** Under the conditions, an IF NOT EXISTS create may leave it at that. -/
theorem HearsTaken.settled {s : SetState} {ch : SetChoice} (h : t.HearsTaken s c ch info)
    (hguard : (t.running G₁ G₂).guard.op s c .answer ch) :
    Settled G₁ G₂ c info (s.setThread c CreatingCatalog.answered) := by
  have hadv := (sameSet_setThread (s := s) (c := c) CreatingCatalog.answered).advances
  refine ⟨⟨?_, ?_⟩, fun hG x hx => ?_, fun hG => .inr ?_⟩
  · rw [thread_setThread_self]
    exact h.1
  · rw [thread_setThread_self]
    rfl
  · rw [thread_setThread_self] at hx
    have hnone : (s.thread c).made = none := (hguard.1 hG).2 rfl info h
    exact absurd (hx.symm.trans hnone) (by simp)
  · exact hadv.resolves _ (hguard.2 hG rfl info h)

/-! ## The requests of a create -/

/-- `TableExists`, before version 0 is written. -/
theorem safe_tableExists (hs : SetInv G₁ G₂ s) (h : Begun c info s) :
    (t.running G₁ G₂).Safe c (UCAPI.tableExists t.catalog_name t.schema_name info.table_name
      t.credentials) (Yields fun found s => Idle c info s ∧
        (found = true → info.on_conflict = .ignore → Settled G₁ G₂ c info s)) s := by
  rw [UCAPI.tableExists_eq]
  refine kept_begun.safe_ask rfl ?_ (fun _ _ _ _ => trivial) ?_ hs h
  · intro r s s' hr hs hs' hq
    cases r with
    | ok found => exact ⟨hq.1.rely hr, fun hf hi => kept_settled.stable s s' hr hs hs' (hq.2 hf hi)⟩
    | error e => trivial
  · intro s ch hb hb' hreq _ _ hguard
    cases hx : ch.ans .answer with
    | error e => trivial
    | ok resp =>
      show Yields _ (resp.tableFound _) _
      cases hfound : resp.tableFound
          (lookupUrl t.credentials t.catalog_name t.schema_name info.table_name) with
      | error e => trivial
      | ok found =>
        refine ⟨hb'.toIdle, fun hf hi => HearsTaken.settled ⟨hb.call, hi, resp, hx, ?_⟩ hguard⟩
        exact ⟨_, hreq, hb.registering, rfl, hf ▸ hfound⟩

/-- `LoadTable` -/
theorem safe_loadTable (hs : SetInv G₁ G₂ s) (h : Idle c info s) :
    (t.running G₁ G₂).Safe c (UCAPI.loadTable t.catalog_name t.schema_name info.table_name
      t.credentials) (fun r s => match r with
        | .ok _ => Heard c info s
        | .error _ => Idle c info s) s := by
  rw [UCAPI.loadTable_eq]
  refine kept_idle.safe_ask rfl ?_ (fun _ _ _ hi => hi) ?_ hs h
  · intro r s s' hr hs hs' hq
    cases r with
    | ok _ => exact kept_heard.stable s s' hr hs hs' hq
    | error e => exact Idle.rely hq hr
  · intro s ch hi hi' _ _ htrue _
    cases hx : (ch.ans .answer).bind (RegisterCase.mk t info).loadOutcome with
    | error e =>
      show (match (ch.ans .answer).bind (RegisterCase.mk t info).loadOutcome with
        | .ok _ => _
        | .error _ => _)
      rw [hx]
      exact hi'
    | ok result =>
      show (match (ch.ans .answer).bind (RegisterCase.mk t info).loadOutcome with
        | .ok _ => _
        | .error _ => _)
      rw [hx]
      simp only [truthful, hi.call, hx, RegisterCase.loadUrl, bne_self_eq_false, Except.isOk,
        Except.toBool, Bool.not_true, Bool.false_or, Bool.or_eq_true] at htrue
      refine ⟨hi', ?_⟩
      rw [thread_setThread_self]
      exact htrue.symm

end CreatingCatalog

/-! ## What staging throws -/

section

variable {α : Type}

open Decoding

/-- An error that is none of the catalog's own. -/
def Exception.Foreign (e : Exception) : Prop := e.type ≠ .catalog

theorem throws_templatedTryGet {is_type : Option Val → Bool} {get : Option Val → α}
    {obj : Option Val} {field : String} {default_val : α} {fail_on_missing : Bool} :
    Throws Exception.Foreign
      (templatedTryGetYYJson is_type get obj field default_val fail_on_missing) := by
  rw [templatedTryGetYYJson]
  split
  · split
    · exact throws_ok _
    · exact throws_error (by rintro ⟨⟩)
  · split
    · exact throws_error (by rintro ⟨⟩)
    · exact throws_ok _

theorem throws_readStringMap {realText : ℚ → Option String} (obj : Option Val) :
    Throws Exception.Foreign (readStringMap realText obj) := by
  refine Throws.bind (Throws.mapM (fun m => ?_) _) fun _ => throws_ok _
  refine Throws.bind ?_ fun _ => throws_ok _
  obtain ⟨key, val⟩ := m
  cases val with
  | null => exact throws_ok _
  | str s => exact throws_ok _
  | arr items => exact throws_error nofun
  | obj members => exact throws_error nofun
  | _ =>
    simp only [propertyText]
    split
    · exact throws_ok _
    · exact throws_error nofun

/-- Reading a staging answer throws no error of the catalog's own. -/
theorem throws_readStagingTable {realText : ℚ → Option String} (root : Option Val) :
    Throws Exception.Foreign (readStagingTable realText root) := by
  refine throws_templatedTryGet.bind fun table_id => throws_templatedTryGet.bind fun location => ?_
  refine Throws.bind ?_ fun result => (throws_readStringMap _).bind fun _ =>
    (throws_readStringMap _).bind fun _ => throws_ok _
  rw [readProtocol]
  split
  · exact throws_templatedTryGet.bind fun _ => throws_templatedTryGet.bind fun _ => throws_ok _
  · exact throws_ok _

/-- `CheckError` throws none either. -/
theorem throws_checkError (root : Option Val) : Throws Exception.Foreign (checkError root) := by
  intro e h
  obtain ⟨field, rfl⟩ := checkError_error h
  exact nofun

/-- An error of the catalog's own is that the name is taken. -/
theorem stagingOutcome_error {E : RegisterCase} {resp : HttpResponse} {e : Exception}
    (h : E.stagingOutcome resp = .error e) (htype : e.type = .catalog) : resp.saysTaken = true := by
  rw [RegisterCase.stagingOutcome, checkResponse] at h
  rw [HttpResponse.saysTaken]
  split at h
  · rename_i haccepted
    rw [haccepted, Bool.true_and]
    simp only [Except.bind, decodeCreateStagingTable] at h
    cases hc : checkError (read resp.body) with
    | error e' =>
      rw [hc] at h
      obtain rfl := Except.error.inj h
      exact absurd htype (throws_checkError _ _ hc)
    | ok error =>
      show error.isAlreadyExists = true
      by_contra htaken
      -- what is thrown but for a taken name is foreign
      have hforeign : Throws Exception.Foreign (.error e : Except Exception UCAPIStagingTable) := by
        rw [← h, hc]
        simp only [bind, Except.bind]
        split
        · exact throws_error (by rintro ⟨⟩)
        · split
          · exact throws_error (by rintro ⟨⟩)
          · exact throws_readStagingTable _
      exact hforeign e rfl htype
  · obtain rfl := Except.error.inj h
    cases htype

end

namespace CreatingCatalog

variable {t : CreatingCatalog} {G₁ G₂ : Prop} {c : ℕ} {s : SetState} {α β : Type}
variable {info : BoundCreateTableInfo}

/-! ## Staging and registering -/

/-- After a request that may say that the name is taken: an error of the catalog's own may be left
at that by an IF NOT EXISTS create. -/
def Refused (G₁ G₂ : Prop) (c : ℕ) (info : BoundCreateTableInfo) (r : Except Exception α)
    (s : SetState) : Prop :=
  Idle c info s ∧ ∀ e, r = .error e → e.type = .catalog → info.on_conflict = .ignore →
    Settled G₁ G₂ c info s

theorem stable_refused (r : Except Exception α) :
    (t.running G₁ G₂).Stable c (Refused G₁ G₂ c info r) :=
  fun s s' hr hs hs' h => ⟨h.1.rely hr, fun e he htype hign =>
    kept_settled.stable s s' hr hs hs' (h.2 e he htype hign)⟩

theorem refused_foreign {e : Exception} (h : Idle c info s) (he : e.type ≠ .catalog) :
    Refused G₁ G₂ c info (.error e : Except Exception α) s := by
  refine ⟨h, ?_⟩
  rintro _ ⟨⟩ htype
  exact absurd htype he

theorem refused_ok {a : α} (h : Idle c info s) :
    Refused G₁ G₂ c info (.ok a : Except Exception α) s :=
  ⟨h, nofun⟩

/-- What was carried over from the connection is no error of the catalog's own. -/
theorem foreign_of_transported {x : Except Exception α} {e : Exception} (hx : x = .error e)
    (h : transported x = true) : e.type ≠ .catalog := by
  rw [hx] at h
  simpa [transported] using h

/-- `CreateStagingTable` -/
theorem safe_createStagingTable (hs : SetInv G₁ G₂ s) (h : Idle c info s) :
    (t.running G₁ G₂).Safe c (UCAPI.createStagingTable t.realText t.catalog_name t.schema_name
      info.table_name t.credentials) (Refused G₁ G₂ c info) s := by
  rw [UCAPI.createStagingTable, Prog.bind_eq, makeRequestResp_bind_eq]
  refine kept_idle.safe_ask rfl stable_refused (fun e s he hi => refused_foreign hi he) ?_ hs h
  intro s ch hi hi' hreq htransported _ hguard
  cases hx : ch.ans .answer with
  | error e => exact refused_foreign hi' (foreign_of_transported hx htransported)
  | ok resp =>
    refine ⟨hi', fun e he htype hign => ?_⟩
    have htaken : resp.saysTaken = true := stagingOutcome_error (E := ⟨t, info⟩) he htype
    exact HearsTaken.settled ⟨hi.call, hign, resp, hx, _, hreq, htaken⟩ hguard

/-- After the register request: it went through, or it may be refused. -/
def Registered (G₁ G₂ : Prop) (c : ℕ) (info : BoundCreateTableInfo) (r : Except Exception Unit)
    (s : SetState) : Prop :=
  Refused G₁ G₂ c info r s ∧ (r = .ok () → Heard c info s)

theorem stable_registered (r : Except Exception Unit) :
    (t.running G₁ G₂).Stable c (Registered G₁ G₂ c info r) :=
  fun s s' hr hs hs' h => ⟨stable_refused r s s' hr hs hs' h.1, fun hok =>
    kept_heard.stable s s' hr hs hs' (h.2 hok)⟩

theorem registered_foreign {e : Exception} (h : Idle c info s) (he : e.type ≠ .catalog) :
    Registered G₁ G₂ c info (.error e) s :=
  ⟨refused_foreign h he, nofun⟩

theorem registered_ok (h : Heard c info s) : Registered G₁ G₂ c info (.ok ()) s :=
  ⟨refused_ok h.toIdle, fun _ => h⟩

/-- `UCAPI::CreateTable` -/
theorem safe_registerRequest {committed : UCAPICommittedTable} {table_type : String}
    (hname : committed.name = info.table_name) (hs : SetInv G₁ G₂ s) (h : Idle c info s) :
    (t.running G₁ G₂).Safe c (UCAPI.createTable t.catalog_name t.schema_name committed table_type
      t.credentials) (Registered G₁ G₂ c info) s := by
  have hcall : (t.running G₁ G₂).Stable c fun s =>
      (SetState.thread s c).call = some (.create info) :=
    fun _ _ hr _ _ h => (SetRely.thread hr).call.trans h
  rw [UCAPI.createTable_eq]
  -- the schema is put on the wire before anything is sent
  refine Outline.Safe.bind (Q := fun r s => Idle c info s ∧ ∀ e, r = .error e → e.type ≠ .catalog)
    (Outline.safe_ofExcept (kept_idle.stable.and (Outline.stable_const _)) hs ⟨h, ?_⟩) hs ?_ ?_
  · intro e he
    rw [UCAPI.wireSchema] at he
    split at he
    · obtain rfl := Except.error.inj he
      exact nofun
    · cases he
  · rintro - s₁ hs₁ ⟨h₁, -⟩
    refine safe_ask kept_idle.stable hcall stable_registered ?_
      (fun e s he hi => registered_foreign hi he) ?_ hs₁ h₁
    · intro s hi
      rw [thread_setThread_self]
      exact hi.call
    · intro s ch _ hc hreq htransported htrue hguard
      have hidle : Idle c info (s.setThread c answered) := by
        refine ⟨?_, ?_⟩
        · rw [thread_setThread_self]
          exact hc
        · rw [thread_setThread_self]
          rfl
      cases hx : ch.ans .answer with
      | error e => exact registered_foreign hidle (foreign_of_transported hx htransported)
      | ok resp =>
        show Registered G₁ G₂ c info ((RegisterCase.mk t info).registerOutcome committed resp) _
        cases hout : (RegisterCase.mk t info).registerOutcome committed resp with
        | ok _ =>
          have hok : (ch.ans .answer).bind ((RegisterCase.mk t info).registerOutcome committed) =
              .ok () := by
            rw [hx]
            exact hout
          simp only [truthful, hc, hok, Except.isOk, Except.toBool, Bool.not_true, Bool.false_or,
            Bool.or_eq_true, hname] at htrue
          refine registered_ok ⟨hidle, ?_⟩
          rw [thread_setThread_self]
          exact htrue.symm
        | error e =>
          refine ⟨⟨hidle, ?_⟩, nofun⟩
          rintro _ ⟨⟩ htype hign
          have htaken : resp.saysTaken = true :=
            (RegisterCase.registerOutcome_error hout).2.1 htype
          -- the server said that the name is taken, in answer to this request
          exact HearsTaken.settled ⟨hc, hign, resp, hx, _, hreq, htaken⟩ hguard
  · intro e s₁ hs₁ h₁
    exact Outline.safe_ofExcept (O := t.running G₁ G₂) (x := .error e) (stable_registered _) hs₁
      (registered_foreign h₁.1 (h₁.2 e rfl))

/-- Whether the table loaded is the create's own. -/
theorem safe_isOurs {is_ours : UCAPICommitsResult → Bool} (hs : SetInv G₁ G₂ s)
    (h : Idle c info s) :
    (t.running G₁ G₂).Safe c
      (((UCAPI.loadTable t.catalog_name t.schema_name info.table_name t.credentials).bind
        fun loaded => Prog.ret (is_ours loaded)).tryCatch fun _ => Prog.ret false)
      (fun r s => Idle c info s ∧ ∃ b, r = .ok b ∧ (b = true → Heard c info s)) s := by
  have hstable : ∀ r : Except Exception Bool, (t.running G₁ G₂).Stable c fun s =>
      Idle c info s ∧ ∃ b, r = .ok b ∧ (b = true → Heard c info s) := by
    rintro r s s' hr hs hs' ⟨hi, b, hb, hh⟩
    exact ⟨hi.rely hr, b, hb, fun ht => kept_heard.stable s s' hr hs hs' (hh ht)⟩
  refine Outline.Safe.tryCatch
    (Q := Outline.ending (fun _ => Heard c info) fun _ => Idle c info) ?_ hs ?_ ?_
  · refine Outline.Safe.bind (safe_loadTable hs h) hs ?_ ?_
    · exact fun loaded s hs hh => Outline.safe_ofExcept (O := t.running G₁ G₂)
        (x := .ok (is_ours loaded)) kept_heard.stable hs hh
    · exact fun e s hs hi => Outline.safe_ofExcept (O := t.running G₁ G₂) (x := .error e)
        kept_idle.stable hs hi
  · exact fun b s hs hh => Outline.safe_ofExcept (O := t.running G₁ G₂) (x := .ok b) (hstable _) hs
      ⟨Heard.toIdle hh, b, rfl, fun _ => hh⟩
  · exact fun e s hs hi => Outline.safe_ofExcept (O := t.running G₁ G₂) (x := .ok false) (hstable _)
      hs ⟨hi, false, rfl, by rintro ⟨⟩⟩

/-- `RegisterTable` -/
theorem safe_registerTable {committed : UCAPICommittedTable} {table_type : String}
    {is_ours : UCAPICommitsResult → Bool} (hname : committed.name = info.table_name)
    (hs : SetInv G₁ G₂ s) (h : Idle c info s) :
    (t.running G₁ G₂).Safe c (registerTable t.toUCTableSet committed table_type is_ours)
      (Registered G₁ G₂ c info) s := by
  have ends : ∀ (r : Except Exception Unit) (s : SetState), SetInv G₁ G₂ s →
      Registered G₁ G₂ c info r s →
      (t.running G₁ G₂).Safe c (Prog.ofExcept r : Run Unit) (Registered G₁ G₂ c info) s :=
    fun r s hs h => Outline.safe_ofExcept (stable_registered r) hs h
  rw [registerTable, Prog.tryCatch_eq']
  refine Outline.Safe.tryCatch (safe_registerRequest hname hs h) hs
    (fun a s hs h => ends (.ok a) s hs h) fun e s₁ hs₁ h₁ => ?_
  split
  · exact ends (.error e) s₁ hs₁ h₁
  · rename_i htype
    have he : e.type ≠ .catalog := fun he => htype (.inr he)
    rw [hname]
    refine Outline.Safe.bind (safe_isOurs hs₁ h₁.1.1) hs₁ ?_ fun e s₂ _ h => by
      obtain ⟨-, b, hb, -⟩ := h
      cases hb
    rintro registered s₂ hs₂ ⟨hi₂, b, hb, hh⟩
    obtain rfl := Except.ok.inj hb
    cases registered with
    | true => exact ends (.ok ()) s₂ hs₂ (registered_ok (hh rfl))
    | false => exact ends (.error e) s₂ hs₂ (registered_foreign hi₂ he)

/-! ## Calm programs -/

/-- A program that keeps what is known. -/
def Calm (t : CreatingCatalog) (G₁ G₂ : Prop) (c : ℕ) (I : SetState → Prop) (p : Run α) : Prop :=
  ∀ s : SetState, SetInv G₁ G₂ s → I s → (t.running G₁ G₂).Safe c p (fun _ => I) s

section

variable {I : SetState → Prop} (hI : t.Kept G₁ G₂ c I)

include hI

theorem Kept.uses {p : Run α} (hp : p.Uses Op.LeavesSet) : t.Calm G₁ G₂ c I p :=
  fun _ hs hi => safe_leaves hp hI.stable hs hi

theorem Kept.bind {p : Run α} {f : α → Run β} (hp : t.Calm G₁ G₂ c I p)
    (hf : ∀ a, t.Calm G₁ G₂ c I (f a)) : t.Calm G₁ G₂ c I (p.bind f) :=
  fun s hs hi => Outline.Safe.bind (hp s hs hi) hs (fun a s hs hi => hf a s hs hi) fun e _ hs hi =>
    Outline.safe_ofExcept (O := t.running G₁ G₂) (x := .error e) hI.stable hs hi

theorem Kept.tryCatch {p : Run α} {f : Exception → Run α} (hp : t.Calm G₁ G₂ c I p)
    (hf : ∀ e, t.Calm G₁ G₂ c I (f e)) : t.Calm G₁ G₂ c I (p.tryCatch f) :=
  fun s hs hi => Outline.Safe.tryCatch (hp s hs hi) hs (fun a _ hs hi =>
    Outline.safe_ofExcept (O := t.running G₁ G₂) (x := .ok a) hI.stable hs hi)
      fun e s hs hi => hf e s hs hi

theorem Kept.writeVersionZero (attach_info : AttachInfo) (table_name location : String) :
    t.Calm G₁ G₂ c I (writeVersionZero attach_info table_name location) :=
  hI.uses ((uses_writeVersionZero _ _ _).mono fun _ => Op.OnFiles.leavesSet)

theorem Kept.removeUnregisteredVersionZero (table_name location : String) :
    t.Calm G₁ G₂ c I (removeUnregisteredVersionZero t.toUCTableSet table_name location) := by
  refine hI.tryCatch (hI.bind (hI.bind ?_ fun found => ?_) fun listed => ?_) fun _ =>
    hI.uses trivial
  · rw [UCAPI.tableExists_eq]
    exact fun s hs hi => hI.ask rfl hs hi
  · split
    · refine hI.bind ?_ fun loaded => hI.uses trivial
      rw [UCAPI.loadTable_eq]
      exact fun s hs hi => hI.ask rfl hs hi
    · exact hI.uses trivial
  · split
    · exact hI.uses trivial
    · refine hI.bind (hI.uses (Prog.uses_perform trivial)) fun files => hI.uses ?_
      exact (uses_removeFiles files).mono fun _ => Op.OnFiles.leavesSet

theorem Kept.stageCredentials (staging : UCAPIStagingTable) :
    t.Calm G₁ G₂ c I (stageCredentials t.toUCTableSet staging) := by
  rw [UnityCatalog.stageCredentials]
  split
  · exact hI.uses trivial
  · refine hI.bind ?_ fun credentials => hI.uses (Prog.uses_perform trivial)
    rw [UCAPI.getStagingTableCredentials, Prog.bind_eq, makeRequest_decode_eq]
    exact fun s hs hi => hI.ask rfl hs hi

end

/-! ## A create -/

/-- Where a create that returns stands: it goes on to mark the set, or need not. -/
def Unmarked (G₁ G₂ : Prop) (c : ℕ) (info : BoundCreateTableInfo) (goes : Bool) (s : SetState) :
    Prop :=
  if goes then Heard c info s else Settled G₁ G₂ c info s

theorem stable_unmarked (goes : Bool) :
    (t.running G₁ G₂).Stable c (Unmarked G₁ G₂ c info goes) := by
  cases goes with
  | true => exact kept_heard.stable
  | false => exact kept_settled.stable

/-- The registration, with what is done before a name that is taken is left at that. -/
theorem safe_registration {committed : UCAPICommittedTable} {table_type : String}
    {is_ours : UCAPICommitsResult → Bool} (clean : Run Unit)
    (hname : committed.name = info.table_name)
    (hclean : ∀ I, t.Kept G₁ G₂ c I → t.Calm G₁ G₂ c I clean) (hs : SetInv G₁ G₂ s)
    (h : Idle c info s) :
    (t.running G₁ G₂).Safe c
      (((registerTable t.toUCTableSet committed table_type is_ours).bind fun _ =>
        Prog.ret true).tryCatch fun e => clean.bind fun _ =>
          if e.type = .catalog ∧ info.on_conflict = .ignore ∧ isEntryAlreadyExists e then
            Prog.ret false else Prog.throw e)
      (Yields (Unmarked G₁ G₂ c info)) s := by
  refine Outline.Safe.tryCatch (Q := Outline.ending (Unmarked G₁ G₂ c info) fun e =>
    Refused G₁ G₂ c info (.error e : Except Exception Unit)) ?_ hs ?_ ?_
  · refine Outline.Safe.bind (safe_registerTable hname hs h) hs ?_ ?_
    · exact fun a s hs h => Outline.safe_ofExcept (O := t.running G₁ G₂) (x := .ok true)
        kept_heard.stable hs (h.2 rfl)
    · exact fun e s hs h => Outline.safe_ofExcept (O := t.running G₁ G₂) (x := .error e)
        (stable_refused _) hs h.1
  · exact fun goes s hs h => Yields.ret (stable_unmarked goes) hs h
  · intro e s hs h
    by_cases htaken : e.type = .catalog ∧ info.on_conflict = .ignore
    · refine Outline.Safe.bind (hclean _ kept_settled s hs (h.2 e rfl htaken.1 htaken.2)) hs ?_
        fun _ _ _ _ => Yields.throw _
      intro _ s₁ hs₁ h₁
      split
      · exact Yields.ret (stable_unmarked false) hs₁ h₁
      · exact Yields.throw e
    · refine Outline.Safe.bind (hclean _ kept_idle s hs h.1) hs ?_ fun _ _ _ _ => Yields.throw _
      intro _ _ _ _
      rw [if_neg fun h => htaken ⟨h.1, h.2.1⟩]
      exact Yields.throw e

/-- A create whose statement names the location. -/
theorem safe_createExternal {location : Option String} (hs : SetInv G₁ G₂ s) (h : Begun c info s) :
    (t.running G₁ G₂).Safe c
      (t.createExternal ⟨info.table_name, info.on_conflict, location⟩)
      (Yields (Unmarked G₁ G₂ c info)) s := by
  rw [UCTableSet.createExternal]
  split
  · exact Yields.throw _
  · refine Yields.bind (A := fun _ => Begun c info) hs ?_ fun location s₁ hs₁ h₁ => ?_
    · cases externalLocation location with
      | ok location => exact Yields.ret kept_begun.stable hs h
      | error e => exact Yields.throw e
    refine Yields.bind hs₁ (safe_tableExists hs₁ h₁) fun found s₂ hs₂ hfound => ?_
    obtain ⟨h₂, htaken⟩ := hfound
    cases found with
    | true =>
      simp only [if_true]
      split
      · rename_i hign
        exact Yields.ret (stable_unmarked false) hs₂ (htaken rfl hign)
      · exact Yields.throw _
    | false =>
      have hidle : t.Kept G₁ G₂ c (Idle c info) := kept_idle
      have huuid : randomUUID.Uses Op.LeavesSet := Prog.uses_perform trivial
      refine Outline.Safe.bind (hidle.uses huuid s₂ hs₂ h₂) hs₂ ?_ fun _ _ _ _ => Yields.throw _
      intro uuid s₃ hs₃ h₃
      refine Outline.Safe.bind ((hidle.writeVersionZero _ _ _ s₃ hs₃ h₃).returns
        (writeVersionZero_returns _ _ _)) hs₃ ?_ fun _ _ _ _ => Yields.throw _
      rintro committed s₄ hs₄ ⟨hname, h₄⟩
      exact safe_registration _ (hname committed rfl)
        (fun I hI => hI.removeUnregisteredVersionZero _ _) hs₄ h₄

/-- Staging leaves a name that is taken at that, or a table to write. -/
def Staged (G₁ G₂ : Prop) (c : ℕ) (info : BoundCreateTableInfo) :
    Option UCAPIStagingTable → SetState → Prop
  | none => Settled G₁ G₂ c info
  | some _ => Idle c info

theorem stable_staged (staging : Option UCAPIStagingTable) :
    (t.running G₁ G₂).Stable c (Staged G₁ G₂ c info staging) := by
  cases staging with
  | none => exact kept_settled.stable
  | some _ => exact kept_idle.stable

theorem safe_stage (hs : SetInv G₁ G₂ s) (h : Idle c info s) :
    (t.running G₁ G₂).Safe c (t.stage info) (Yields (Staged G₁ G₂ c info)) s := by
  refine Outline.Safe.tryCatch (Q := Outline.ending (Staged G₁ G₂ c info) fun e =>
    Refused G₁ G₂ c info (.error e : Except Exception Unit)) ?_ hs ?_ ?_
  · refine Outline.Safe.bind (safe_createStagingTable hs h) hs ?_ ?_
    · exact fun staging s hs h => Outline.safe_ofExcept (O := t.running G₁ G₂)
        (x := .ok (some staging)) (stable_staged (some staging)) hs h.1
    · intro e s hs h
      refine Outline.safe_ofExcept (O := t.running G₁ G₂) (x := .error e) (stable_refused _) hs ?_
      refine ⟨h.1, ?_⟩
      rintro _ ⟨⟩
      exact h.2 e rfl
  · exact fun staging s hs h => Yields.ret (stable_staged staging) hs h
  · intro e s hs h
    split
    · rename_i htaken
      exact Yields.ret (stable_staged none) hs (h.2 e rfl htaken.1 htaken.2.1)
    · exact Yields.throw e

/-- What follows staging. -/
theorem safe_createStaged {staging : UCAPIStagingTable} (hs : SetInv G₁ G₂ s)
    (h : Idle c info s) :
    (t.running G₁ G₂).Safe c (t.createStaged info staging) (Yields (Unmarked G₁ G₂ c info)) s := by
  have hidle : t.Kept G₁ G₂ c (Idle c info) := kept_idle
  refine Outline.Safe.bind (hidle.stageCredentials staging s hs h) hs ?_ fun _ _ _ _ =>
    Yields.throw _
  intro _ s₁ hs₁ h₁
  have hoptions : (setOptions (stagedOptions info.options staging)).Uses Op.LeavesSet :=
    Prog.uses_perform trivial
  refine Outline.Safe.bind (hidle.uses hoptions s₁ hs₁ h₁) hs₁ ?_ fun _ _ _ _ => Yields.throw _
  intro _ s₂ hs₂ h₂
  refine Outline.Safe.bind ((hidle.writeVersionZero _ _ _ s₂ hs₂ h₂).returns
    (writeVersionZero_returns _ _ _)) hs₂ ?_ fun _ _ _ _ => Yields.throw _
  rintro committed s₃ hs₃ ⟨hname, h₃⟩
  exact safe_registration (.ret ()) (hname committed rfl)
    (fun I hI => hI.uses trivial) hs₃ h₃

theorem safe_createTableUnmarked (hs : SetInv G₁ G₂ s) (h : Begun c info s) :
    (t.running G₁ G₂).Safe c (t.createTableUnmarked info) (Yields (Unmarked G₁ G₂ c info)) s := by
  rw [createTableUnmarked]
  split
  · exact safe_createExternal hs h
  · split
    · exact Yields.throw _
    · refine Yields.bind hs (safe_stage hs h.toIdle) fun staging s₁ hs₁ h₁ => ?_
      cases staging with
      | none => exact Yields.ret (stable_unmarked false) hs₁ h₁
      | some staging => exact safe_createStaged hs₁ h₁

/-! ## The lock -/

theorem stable_holds :
    (t.running G₁ G₂).Stable c fun s => SetState.load_lock s = some c :=
  fun _ _ hr _ _ h => (SetRely.lock hr).2 h

/-- What the lock guards is the thread's own: `J` holds while it has it, and `R` when it gives it
back. -/
theorem safe_withLoadLock {p : Run α} {I J : SetState → Prop}
    {R Q : Except Exception α → SetState → Prop}
    (hI : (t.running G₁ G₂).Stable c I) (hJ : (t.running G₁ G₂).Stable c J)
    (hR : ∀ r, (t.running G₁ G₂).Stable c (R r)) (hQ : ∀ r, (t.running G₁ G₂).Stable c (Q r))
    (hlocked : ∀ s : SetState, SetInv G₁ G₂ s → s.load_lock = none → I s →
      J { s with load_lock := some c })
    (hp : ∀ s : SetState, SetInv G₁ G₂ s → J s →
      (t.running G₁ G₂).Safe c p (fun r s => SetState.load_lock s = some c ∧ R r s) s)
    (hunlocked : ∀ r (s : SetState), SetInv G₁ G₂ s → s.load_lock = some c → R r s →
      Q r { s with load_lock := none, listing := none })
    (hs : SetInv G₁ G₂ s) (hi : I s) : (t.running G₁ G₂).Safe c (withLoadLock p) Q s := by
  -- both ways out give the lock back before they go on
  have unlocks : ∀ (x : Except Exception α) (s : SetState), SetInv G₁ G₂ s →
      SetState.load_lock s = some c ∧ R x s →
      (t.running G₁ G₂).Safe c (unlockLoad.bind fun _ => Prog.ofExcept x)
        (fun r s => r = x ∧ Q x s) s := by
    intro x s hs h
    refine Outline.Safe.bind (Q := fun r s => r = .ok () ∧ Q x s) ?_ hs ?_ fun e _ _ h =>
      nomatch h.1
    · refine Outline.safe_perform (fun r => (Outline.stable_const _).and (hQ x)) ?_
      intro (s₁ : SetState) hr (hs₁ : SetInv G₁ G₂ s₁) ch r s₂ _ ha
      have hheld := stable_holds s s₁ hr hs hs₁ h.1
      obtain ⟨rfl, rfl⟩ := Prod.mk.inj (Option.some.inj ha)
      obtain ⟨hs₂, hothers⟩ :=
        hs₁.held (advances_lock none (.inr rfl)) hheld rfl rfl rfl rfl rfl rfl
        (fun _ => rfl) nofun
      exact ⟨hs₂, hothers, rfl, hunlocked x s₁ hs₁ hheld (hR x s s₁ hr hs hs₁ h.2)⟩
    · rintro - s₁ hs₁ ⟨-, hq⟩
      exact Outline.safe_ofExcept ((Outline.stable_const _).and (hQ x)) hs₁ ⟨rfl, hq⟩
  refine Outline.Safe.bind (Q := fun r s => r = .ok () ∧ J s) ?_ hs ?_ fun e _ _ h => nomatch h.1
  · refine Outline.safe_perform (fun r => (Outline.stable_const _).and hJ) ?_
    intro (s₁ : SetState) hr (hs₁ : SetInv G₁ G₂ s₁) ch r s₂ _ ha
    have ha : t.setAnswer c s₁ .lockLoad ch = some (r, s₂) := ha
    simp only [setAnswer] at ha
    split at ha
    · rename_i hfree
      obtain ⟨rfl, rfl⟩ := Prod.mk.inj (Option.some.inj ha)
      -- nobody held it, so nobody's list is taken from under him
      have hnone : ∀ d, s₁.load_lock ≠ some d := fun d h => nomatch hfree.symm.trans h
      have hadv : Advances s₁ { s₁ with load_lock := some c } := advances_lock (some c) (.inl rfl)
      obtain ⟨hs₂, hothers⟩ := hs₁.step (c := c) hadv rfl
        ⟨fun _ => rfl, fun _ => rfl, fun _ => rfl, rfl, rfl, rfl, rfl⟩ nofun (fun _ => rfl)
        (fun _ _ => rfl) (fun d hd => iff_of_false (fun h => hd (Option.some.inj h).symm) (hnone d))
        fun d _ h => absurd h (hnone d)
      exact ⟨hs₂, hothers, rfl, hlocked s₁ hs₁ hfree (hI s s₁ hr hs hs₁ hi)⟩
    · cases ha
  · rintro - s₁ hs₁ ⟨-, hj₁⟩
    refine Outline.Safe.bind (Q := fun r s => match r with
      | .ok a => SetState.load_lock s = some c ∧ R (.ok a) s
      | .error e => Q (.error e) s) ?_ hs₁ ?_ ?_
    · -- the body, with the lock given back after a throw
      refine Outline.Safe.tryCatch (hp s₁ hs₁ hj₁) hs₁ ?_ ?_
      · exact fun a s hs h => Outline.safe_ofExcept (O := t.running G₁ G₂) (x := .ok a)
          (stable_holds.and (hR (.ok a))) hs h
      · intro e s hs h
        refine Outline.Safe.mono (unlocks (.error e) s hs h) ?_
        rintro _ s ⟨rfl, hq⟩
        exact hq
    · intro a s hs h
      refine Outline.Safe.mono (unlocks (.ok a) s hs h) ?_
      rintro _ s ⟨rfl, hq⟩
      exact hq
    · exact fun e s hs h => Outline.safe_ofExcept (O := t.running G₁ G₂) (x := .error e) (hQ _) hs h

/-! ## Marking the set -/

/-- The create has the lock, and no load is under way. -/
structure Marking (c : ℕ) (info : BoundCreateTableInfo) (s : SetState) : Prop
    extends Heard c info s where
  held : s.load_lock = some c
  listing : s.listing = none

theorem stable_marking : (t.running G₁ G₂).Stable c (Marking c info) := by
  intro s s' hr hs hs' h
  have hr : SetRely c s s' := hr
  have hawaits : s.awaitsList c = false := by
    simp only [SetState.awaitsList, h.call, Bool.and_false]
  exact ⟨kept_heard.stable s s' hr hs hs' h.toHeard, hr.lock.2 h.held,
    (hr.listing h.held hawaits).trans h.listing⟩

/-- **A marked set.** Where the mark finds no other entry of the name, the next load brings the
table. -/
theorem Marking.settled (hs : SetInv G₁ G₂ s) (h : Marking c info s)
    (hown : G₁ → ∀ x, (s.thread c).made = some x → s.OnlyEntry x) :
    Settled G₁ G₂ c info { s with is_loaded := false } := by
  have hnolist : ∀ (l : List ListedTable) (A : Prop), s.listing = some l → A :=
    fun l A hl => nomatch h.listing.symm.trans hl
  refine ⟨⟨h.call, h.registers⟩, fun hG x hx => ?_, fun hG => ?_⟩
  · have hmem : x ∈ s.uc := hs.made c x hx
    refine ⟨hmem, hown hG x hx, fun l hl => hnolist l _ hl,
      .inr ⟨?_, rfl, fun l hl => hnolist l _ hl⟩⟩
    exact lists_iff.2 ⟨x, hmem, rfl⟩
  · exact h.lists.imp_right fun hl => .inr ⟨hl, rfl, fun l hl => hnolist l _ hl⟩

/-- `MarkNeedsReload` -/
theorem safe_markNeedsReload (hs : SetInv G₁ G₂ s) (h : Heard c info s) :
    (t.running G₁ G₂).Safe c markNeedsReload (fun _ => Settled G₁ G₂ c info) s := by
  refine safe_withLoadLock (J := Marking c info) (R := fun _ => Settled G₁ G₂ c info)
    kept_heard.stable stable_marking (fun _ => kept_settled.stable) (fun _ => kept_settled.stable)
    ?_ ?_ ?_ hs h
  · exact fun s hs hfree h => ⟨⟨⟨h.call, h.registers⟩, h.lists⟩, rfl, hs.listing hfree⟩
  · intro s hs h
    refine Outline.safe_perform (fun _ => stable_holds.and kept_settled.stable) ?_
    intro (s₁ : SetState) hr (hs₁ : SetInv G₁ G₂ s₁) ch r s₂ hg ha
    have h₁ : Marking c info s₁ := stable_marking s s₁ hr hs hs₁ h
    obtain ⟨rfl, rfl⟩ := Prod.mk.inj (Option.some.inj ha)
    have hadv : Advances s₁ { s₁ with is_loaded := false } := advances_mark
    obtain ⟨hs₂, hothers⟩ := hs₁.held hadv h₁.held
      rfl rfl rfl rfl rfl rfl hs₁.listing fun d hd hl =>
        hd (Option.some.inj (hl.symm.trans h₁.held))
    exact ⟨hs₂, hothers, h₁.held, h₁.settled hs₁ fun hG => (hg.1 hG).1 rfl⟩
  · intro r s hs hheld h
    have hadv : Advances s { s with load_lock := none, listing := none } :=
      advances_lock none (.inr rfl)
    exact ⟨⟨h.call, h.registers⟩, fun hG x hx => hadv.owns x (h.owns hG x hx),
      fun hG => (h.resolves hG).imp_right (hadv.resolves _)⟩

/-- **A create that returns**: what it made is found under its name, and the name finds an entry. -/
theorem safe_createTable (hs : SetInv G₁ G₂ s) (h : Begun c info s) :
    (t.running G₁ G₂).Safe c (t.schemaCreateTable info)
      (Yields fun _ => Settled G₁ G₂ c info) s := by
  rw [schemaCreateTable]
  split
  · exact Yields.throw _
  · refine Yields.bind hs (safe_createTableUnmarked hs h) fun registered s₁ hs₁ h₁ => ?_
    cases registered with
    | true =>
      refine Outline.Safe.mono (safe_markNeedsReload hs₁ h₁) fun r s h => ?_
      cases r with
      | ok _ => exact h
      | error e => trivial
    | false => exact Yields.ret kept_settled.stable hs₁ h₁

/-! ## A load -/

variable {call : SetCall}

/-- The thread is no create, and waits for nothing. -/
structure Reader (c : ℕ) (call : SetCall) (s : SetState) : Prop where
  reads : ∀ info, call ≠ .create info
  calls : (s.thread c).call = some call
  pending : (s.thread c).pending = none

/-- And it has the lock. -/
structure Holding (c : ℕ) (call : SetCall) (s : SetState) : Prop extends Reader c call s where
  held : s.load_lock = some c

/-- And it loads what Unity Catalog has listed. -/
structure Loading (c : ℕ) (call : SetCall) (listing : List ListedTable) (s : SetState) : Prop
    extends Holding c call s where
  listing : s.listing = some listing

theorem Reader.rely {s s' : SetState} (h : Reader c call s) (hr : SetRely c s s') :
    Reader c call s' :=
  ⟨h.reads, hr.thread.call.trans h.calls, hr.thread.pending.trans h.pending⟩

theorem stable_reader : (t.running G₁ G₂).Stable c (Reader c call) :=
  fun _ _ hr _ _ h => h.rely hr

theorem stable_holding : (t.running G₁ G₂).Stable c (Holding c call) :=
  fun _ _ hr _ _ h => ⟨h.toReader.rely hr, (SetRely.lock hr).2 h.held⟩

theorem stable_loading {listing : List ListedTable} :
    (t.running G₁ G₂).Stable c (Loading c call listing) := by
  intro s s' hr hs hs' h
  have hr : SetRely c s s' := hr
  have hawaits : s.awaitsList c = false := by
    simp only [SetState.awaitsList, h.pending, Option.isSome_none, Bool.and_false, Bool.false_and]
  exact ⟨stable_holding s s' hr hs hs' h.toHolding,
    (hr.listing h.held hawaits).trans h.listing⟩

theorem stable_entry (name : String) :
    (t.running G₁ G₂).Stable c fun s => (SetState.entry s name).isSome = true :=
  fun _ _ hr _ _ h => SetRely.entry hr name h

/-- To a thread that is no create, Unity Catalog answers with its list. -/
theorem truthful_reader {req : HttpRequest} {x : Except Exception HttpResponse}
    {tables : List UCAPITable} (hreads : ∀ info, call ≠ .create info)
    (hcall : (s.thread c).call = some call)
    (h : t.truthful s c req x = true) (hx : x.bind t.listOutcome = .ok tables) :
    ∃ listing, s.listing = some listing ∧ (tables.map UCAPITable.listed).Perm listing := by
  rw [truthful] at h
  split at h
  · rename_i info hcreate
    exact absurd (Option.some.inj (hcall.symm.trans hcreate)) (hreads info)
  · rw [hx] at h
    obtain ⟨listing, hl, hperm⟩ := (Option.any_eq_true _ _).1 h
    exact ⟨listing, hl, of_decide_eq_true hperm⟩

/-- The tables are those of a list. -/
def Lists (listing : List ListedTable) (tables : List UCAPITable) : Prop :=
  (tables.map UCAPITable.listed).Perm listing

/-- `GetTables` -/
theorem safe_getTables (hs : SetInv G₁ G₂ s) (h : Holding c call s) :
    (t.running G₁ G₂).Safe c (UCAPI.getTables t.catalog_name t.schema_name t.credentials)
      (fun r s => match r with
        | .ok tables => ∃ listing, Loading c call listing s ∧ Lists listing tables
        | .error _ => Holding c call s) s := by
  have hout : (t.running G₁ G₂).Stable c fun s =>
      (SetState.thread s c).call = some call ∧ SetState.load_lock s = some c :=
    fun _ _ hr _ _ h => ⟨(SetRely.thread hr).call.trans h.1, (SetRely.lock hr).2 h.2⟩
  have hreads := h.reads
  rw [UCAPI.getTables_eq]
  refine safe_ask stable_holding hout ?_ ?_ (fun _ _ _ h => h) ?_ hs h
  · intro r s s' hr hs hs' hq
    cases r with
    | ok tables =>
      obtain ⟨listing, hl, hperm⟩ := hq
      exact ⟨listing, stable_loading s s' hr hs hs' hl, hperm⟩
    | error e => exact stable_holding s s' hr hs hs' hq
  · intro s h
    rw [thread_setThread_self]
    exact ⟨h.calls, h.held⟩
  · intro s ch _ hj _ _ htrue _
    have hheld : Holding c call (s.setThread c answered) := by
      refine ⟨⟨hreads, ?_, ?_⟩, hj.2⟩
      · rw [thread_setThread_self]
        exact hj.1
      · rw [thread_setThread_self]
        rfl
    cases hx : (ch.ans .answer).bind t.listOutcome with
    | error e =>
      show (match (ch.ans .answer).bind t.listOutcome with
        | .ok tables => _
        | .error _ => _)
      rw [hx]
      exact hheld
    | ok tables =>
      show (match (ch.ans .answer).bind t.listOutcome with
        | .ok tables => _
        | .error _ => _)
      rw [hx]
      obtain ⟨listing, hl, hperm⟩ := truthful_reader hreads hj.1 htrue hx
      exact ⟨listing, ⟨hheld, hl⟩, hperm⟩

/-- The loop of `LoadEntries`: by the list of the tables; each keeps the entries there are. -/
theorem safe_loadTables {listing : List ListedTable} (tables : List UCAPITable) :
    ∀ {s : SetState}, (∀ table ∈ tables, table.listed ∈ listing) → SetInv G₁ G₂ s →
      Loading c call listing s →
      (t.running G₁ G₂).Safe c (loadTables tables) (fun r s => Loading c call listing s ∧
        (r = .ok () → ∀ table ∈ tables, (SetState.entry s table.name).isSome = true)) s := by
  have hstable : ∀ (tables : List UCAPITable) (r : Except Exception Unit),
      (t.running G₁ G₂).Stable c fun s => Loading c call listing s ∧
        (r = .ok () → ∀ table ∈ tables, (SetState.entry s table.name).isSome = true) :=
    fun tables r s s' hr hs hs' h => ⟨stable_loading s s' hr hs hs' h.1, fun hok table hm =>
      SetRely.entry hr _ (h.2 hok table hm)⟩
  have throws : ∀ (tables : List UCAPITable) (e : Exception) (s : SetState), SetInv G₁ G₂ s →
      Loading c call listing s → (t.running G₁ G₂).Safe c (Prog.throw e : Run Unit)
        (fun r s => Loading c call listing s ∧
          (r = .ok () → ∀ table ∈ tables, (SetState.entry s table.name).isSome = true)) s :=
    fun tables e s hs h => Outline.safe_ofExcept (O := t.running G₁ G₂) (x := .error e)
      (hstable tables _) hs ⟨h, nofun⟩
  induction tables with
  | nil =>
    intro s _ hs h
    exact Outline.safe_ofExcept (O := t.running G₁ G₂) (x := .ok ()) (hstable [] _) hs ⟨h, by simp⟩
  | cons table tables ih =>
    intro s hmem hs h
    have hcolumns : (addColumns (orderedColumns table.columns)).Uses Op.LeavesSet :=
      Prog.uses_perform trivial
    refine Outline.Safe.bind (safe_leaves hcolumns stable_loading hs h) hs ?_
      fun e s hs h => throws _ e s hs h
    intro _ s₁ hs₁ h₁
    split
    · exact throws _ _ s₁ hs₁ h₁
    · refine Outline.Safe.bind (Q := fun _ s => Loading c call listing s ∧
        (SetState.entry s table.name).isSome = true) ?_ hs₁ ?_ fun e s hs h => throws _ e s hs h.1
      · refine Outline.safe_perform (fun _ => stable_loading.and (stable_entry _)) ?_
        intro (s₂ : SetState) hr (hs₂ : SetInv G₁ G₂ s₂) ch r s₃ _ ha
        have h₂ : Loading c call listing s₂ := stable_loading s₁ s₂ hr hs₁ hs₂ h₁
        obtain ⟨rfl, rfl⟩ := Prod.mk.inj (Option.some.inj ha)
        have hadv := advances_emplace h₂.listing (hmem table List.mem_cons_self)
        have hsame : ∀ {β : Type} (g : SetState → β), (∀ tables, g { s₂ with tables } = g s₂) →
            g (if (s₂.entry table.name).isSome then s₂ else
              { s₂ with tables := s₂.tables ++ [table] }) = g s₂ := by
          intro β g hg
          split
          · rfl
          · exact hg _
        have hthread := hsame SetState.thread fun _ => rfl
        have hlock := hsame SetState.load_lock fun _ => rfl
        have hlisting := hsame SetState.listing fun _ => rfl
        obtain ⟨hs₃, hothers⟩ := hs₂.held hadv h₂.held (hsame SetState.uc fun _ => rfl) hthread
          (hsame SetState.created fun _ => rfl) (hsame SetState.registered fun _ => rfl)
          (hsame SetState.missed fun _ => rfl) (hsame SetState.wrong fun _ => rfl)
          (fun h => nomatch (hlock.symm.trans h).symm.trans h₂.held)
          fun d hd h => hd (Option.some.inj ((hlock.symm.trans h).symm.trans h₂.held))
        refine ⟨hs₃, hothers,
          ⟨⟨⟨h₂.reads, ?_, ?_⟩, hlock.trans h₂.held⟩, hlisting.trans h₂.listing⟩,
          entry_emplaced table⟩
        · rw [hthread]
          exact h₂.calls
        · rw [hthread]
          exact h₂.pending
      · intro _ s₂ hs₂ ⟨h₂, hent⟩
        -- the entry outlives the rest of the loop
        have hrest := ih (fun table' hm => hmem table' (List.mem_cons_of_mem _ hm)) hs₂ h₂
        refine Outline.Safe.mono (hrest.frame hs₂ (Nat.succ_ne_self c) (stable_entry table.name)
          (stable_entry table.name) hent) ?_
        rintro r s ⟨hent, hload, hall⟩
        refine ⟨hload, fun hok table' hm => ?_⟩
        rcases List.mem_cons.1 hm with rfl | hm
        · exact hent
        · exact hall hok table' hm

/-- `LoadEntries`: when it returns, all that Unity Catalog listed has an entry. -/
theorem safe_loadEntries (hs : SetInv G₁ G₂ s) (h : Holding c call s) :
    (t.running G₁ G₂).Safe c t.loadEntries (fun r s => Holding c call s ∧ (r = .ok () →
      ∃ listing, SetState.listing s = some listing ∧
        ∀ x ∈ listing, (SetState.entry s x.name).isSome = true)) s := by
  have hstable : ∀ r : Except Exception Unit, (t.running G₁ G₂).Stable c fun s => Holding c call s ∧
      (r = .ok () → ∃ listing, SetState.listing s = some listing ∧
        ∀ x ∈ listing, (SetState.entry s x.name).isSome = true) := by
    rintro r s s' hr hs hs' ⟨hh, hall⟩
    refine ⟨stable_holding s s' hr hs hs' hh, fun hok => ?_⟩
    obtain ⟨listing, hl, hent⟩ := hall hok
    exact ⟨listing, (stable_loading s s' hr hs hs' ⟨hh, hl⟩).listing,
      fun x hx => SetRely.entry hr _ (hent x hx)⟩
  refine Outline.Safe.bind (safe_getTables hs h) hs ?_ fun e s hs h =>
    Outline.safe_ofExcept (O := t.running G₁ G₂) (x := .error e) (hstable _) hs ⟨h, nofun⟩
  rintro tables s₁ hs₁ ⟨listing, h₁, hperm⟩
  have hmem : ∀ table ∈ tables, table.listed ∈ listing := fun table hm =>
    hperm.mem_iff.1 (List.mem_map_of_mem hm)
  refine Outline.Safe.mono (safe_loadTables tables hmem hs₁ h₁) ?_
  rintro r s ⟨hload, hall⟩
  refine ⟨hload.toHolding, fun hok => ⟨listing, hload.listing, fun x hx => ?_⟩⟩
  obtain ⟨table, hm, rfl⟩ := List.mem_map.1 (hperm.mem_iff.2 hx)
  exact hall hok table hm

/-- The set is loaded, under the thread's lock. -/
structure Filled (c : ℕ) (call : SetCall) (s : SetState) : Prop extends Holding c call s where
  loaded : s.is_loaded = true

theorem stable_filled : (t.running G₁ G₂).Stable c (Filled c call) :=
  fun s s' hr hs hs' h => ⟨stable_holding s s' hr hs hs' h.toHolding,
    (SetRely.loaded hr h.held).trans h.loaded⟩

/-- What a lookup is to find has an entry. -/
structure Ready (G₁ G₂ : Prop) (c : ℕ) (call : SetCall) (s : SetState) :
    Prop extends Reader c call s where
  expected : G₁ → ∀ x, (s.thread c).expected = some x → (s.entry x.name).isSome = true
  owed : G₂ → ∀ name, call = .lookup name → (s.thread c).owed = true →
    (s.entry name).isSome = true

theorem stable_ready : (t.running G₁ G₂).Stable c (Ready G₁ G₂ c call) := by
  intro s s' hr hs hs' h
  have hr : SetRely c s s' := hr
  refine ⟨h.toReader.rely hr, fun hG x hx => ?_, fun hG name hc ho => ?_⟩
  · exact hr.entry _ (h.expected hG x (hr.thread.expected x hx))
  · exact hr.entry _ (h.owed hG name hc (hr.thread.owed ho))

/-- Where the set is loaded, what is owed is there. -/
theorem Filled.ready (hs : SetInv G₁ G₂ s) (h : Filled c call s) :
    Ready G₁ G₂ c call { s with load_lock := none, listing := none } :=
  ⟨⟨h.reads, h.calls, h.pending⟩, fun hG x hx => (hs.expected hG c x hx).resolves.loaded h.loaded,
    fun hG name hc ho => (hs.owed hG c name (hc ▸ h.calls) ho).loaded h.loaded⟩

/-- `EnsureLoaded` -/
theorem safe_ensureLoaded (hs : SetInv G₁ G₂ s) (h : Reader c call s) :
    (t.running G₁ G₂).Safe c t.ensureLoaded (Yields fun _ => Ready G₁ G₂ c call) s := by
  have hQ : ∀ r : Except Exception Unit,
      (t.running G₁ G₂).Stable c (Yields (fun _ => Ready G₁ G₂ c call) r) := by
    intro r
    cases r with
    | ok _ => exact stable_ready
    | error e => exact fun _ _ _ _ _ h => h
  have hR : ∀ r : Except Exception Unit,
      (t.running G₁ G₂).Stable c fun s => Holding c call s ∧ (r = .ok () → Filled c call s) :=
    fun r s s' hr hs hs' h => ⟨stable_holding s s' hr hs hs' h.1,
      fun hok => stable_filled s s' hr hs hs' (h.2 hok)⟩
  have hheld : ∀ {s : SetState} {r : Except Exception Unit},
      Holding c call s ∧ (r = .ok () → Filled c call s) →
        s.load_lock = some c ∧ Holding c call s ∧ (r = .ok () → Filled c call s) :=
    fun h => ⟨h.1.held, h⟩
  refine safe_withLoadLock (J := Holding c call)
    (R := fun r s => Holding c call s ∧ (r = .ok () → Filled c call s))
    stable_reader stable_holding hR hQ ?_ ?_ ?_ hs h
  · exact fun s _ _ h => ⟨⟨h.reads, h.calls, h.pending⟩, rfl⟩
  · intro s hs h
    refine Outline.Safe.mono (Q := fun r s => Holding c call s ∧ (r = .ok () → Filled c call s)) ?_
      fun r s h => hheld h
    -- what `is_loaded` says stays so under the lock
    refine Outline.Safe.bind (Q := fun r s => Holding c call s ∧
      ∃ b, r = .ok b ∧ (b = true → Filled c call s)) ?_ hs ?_ fun e s _ h => nomatch h.2
    · refine Outline.safe_perform ?_ ?_
      · rintro r s s' hr hs hs' ⟨hh, b, hb, hf⟩
        exact ⟨stable_holding s s' hr hs hs' hh, b, hb,
          fun ht => stable_filled s s' hr hs hs' (hf ht)⟩
      · intro (s₁ : SetState) hr (hs₁ : SetInv G₁ G₂ s₁) ch r s₂ _ ha
        have h₁ : Holding c call s₁ := stable_holding s s₁ hr hs hs₁ h
        obtain ⟨rfl, rfl⟩ := Prod.mk.inj (Option.some.inj ha)
        exact ⟨hs₁, fun d _ => SetRely.refl d s₁, h₁, s₁.is_loaded, rfl, fun ht => ⟨h₁, ht⟩⟩
    · rintro loaded s₁ hs₁ ⟨h₁, b, hb, hf⟩
      obtain rfl := Except.ok.inj hb
      cases loaded with
      | true =>
        exact Outline.safe_ofExcept (O := t.running G₁ G₂) (x := .ok ()) (hR _) hs₁
          ⟨h₁, fun _ => hf rfl⟩
      | false =>
        refine Outline.Safe.bind (safe_loadEntries hs₁ h₁) hs₁ ?_ fun e s hs h =>
          Outline.safe_ofExcept (O := t.running G₁ G₂) (x := .error e) (hR _) hs ⟨h.1, nofun⟩
        rintro _ s₂ hs₂ ⟨h₂, hall⟩
        obtain ⟨listing, hl, hent⟩ := hall rfl
        refine Outline.safe_perform hR ?_
        intro (s₃ : SetState) hr (hs₃ : SetInv G₁ G₂ s₃) ch r s₄ _ ha
        have h₃ : Loading c call listing s₃ := stable_loading s₂ s₃ hr hs₂ hs₃ ⟨h₂, hl⟩
        have hent₃ : ∀ x ∈ listing, (s₃.entry x.name).isSome = true :=
          fun x hx => SetRely.entry hr _ (hent x hx)
        obtain ⟨rfl, rfl⟩ := Prod.mk.inj (Option.some.inj ha)
        have hadv : Advances s₃ { s₃ with is_loaded := true } := advances_loaded h₃.listing hent₃
        obtain ⟨hs₄, hothers⟩ := hs₃.held hadv h₃.held rfl rfl rfl rfl rfl rfl hs₃.listing
          fun d hd hld => hd (Option.some.inj (hld.symm.trans h₃.held))
        have h₄ : Holding c call { s₃ with is_loaded := true } :=
          ⟨⟨h₃.reads, h₃.calls, h₃.pending⟩, h₃.held⟩
        exact ⟨hs₄, hothers, h₄, fun _ => ⟨h₄, rfl⟩⟩
  · intro r s hs _ h
    cases r with
    | ok _ => exact (h.2 rfl).ready hs
    | error e => trivial

/-- What a lookup that returns has found. -/
def Finds (G₁ G₂ : Prop) (c : ℕ) (table : Option UCAPITable) (s : SetState) : Prop :=
  (G₁ → ∀ x, (s.thread c).expected = some x → table.map UCAPITable.listed = some x) ∧
    (G₂ → (s.thread c).owed = true → table.isSome = true)

theorem stable_finds (table : Option UCAPITable) :
    (t.running G₁ G₂).Stable c (Finds G₁ G₂ c table) :=
  fun _ _ hr _ _ h => ⟨fun hG x hx => h.1 hG x ((SetRely.thread hr).expected x hx),
    fun hG ho => h.2 hG ((SetRely.thread hr).owed ho)⟩

theorem stable_calls (call : SetCall) :
    (t.running G₁ G₂).Stable c fun s => (SetState.thread s c).call = some call :=
  fun _ _ hr _ _ h => (SetRely.thread hr).call.trans h

/-- **A lookup.** -/
theorem safe_getEntry {name : String} (hs : SetInv G₁ G₂ s) (h : Reader c (.lookup name) s) :
    (t.running G₁ G₂).Safe c (t.getEntry name) (Yields fun table s =>
      (s.thread c).call = some (.lookup name) ∧ Finds G₁ G₂ c table s) s := by
  refine Yields.bind hs (safe_ensureLoaded hs h) fun _ s₁ hs₁ h₁ => ?_
  refine Outline.safe_perform ?_ ?_
  · intro r
    cases r with
    | ok table => exact (stable_calls _).and (stable_finds table)
    | error e => exact fun _ _ _ _ _ h => h
  · intro (s₂ : SetState) hr (hs₂ : SetInv G₁ G₂ s₂) ch r s₃ _ ha
    have h₂ : Ready G₁ G₂ c (.lookup name) s₂ := stable_ready s₁ s₂ hr hs₁ hs₂ h₁
    obtain ⟨rfl, rfl⟩ := Prod.mk.inj (Option.some.inj ha)
    refine ⟨hs₂, fun d _ => SetRely.refl d s₂, h₂.calls, fun hG x hx => ?_,
      fun hG ho => h₂.owed hG name rfl ho⟩
    have hn := hs₂.expects c name x h₂.calls hx
    have hent := h₂.expected hG x hx
    have hsame : s₂.entry x.name = s₂.entry name := by
      rw [SetState.entry, SetState.entry, hn]
    obtain ⟨table, htable⟩ := Option.isSome_iff_exists.1 (hsame ▸ hent)
    rw [htable]
    exact congrArg some ((hs₂.expected hG c x hx).found hn htable)

/-! ## Calls -/

/-- What a call that returns leaves. -/
structure Ends (G₁ G₂ : Prop) (c : ℕ) (r : Except Exception (Option UCAPITable)) (s : SetState) :
    Prop where
  create : ∀ info table, (s.thread c).call = some (.create info) → r = .ok table →
    Settled G₁ G₂ c info s
  lookup : ∀ name table, (s.thread c).call = some (.lookup name) → r = .ok table →
    Finds G₁ G₂ c table s

theorem stable_ends (r : Except Exception (Option UCAPITable)) :
    (t.running G₁ G₂).Stable c (Ends G₁ G₂ c r) := by
  intro s s' hr hs hs' h
  have hcall : (SetState.thread s' c).call = (SetState.thread s c).call := (SetRely.thread hr).call
  refine ⟨fun info table hc hok => ?_, fun name table hc hok => ?_⟩
  · exact kept_settled.stable s s' hr hs hs' (h.create info table (hcall.symm.trans hc) hok)
  · exact stable_finds table s s' hr hs hs' (h.lookup name table (hcall.symm.trans hc) hok)

theorem ends_error (e : Exception) : Ends G₁ G₂ c (.error e) s :=
  ⟨fun _ _ _ h => (nomatch h), fun _ _ _ h => (nomatch h)⟩

theorem Settled.ends {table : Option UCAPITable} (h : Settled G₁ G₂ c info s) :
    Ends G₁ G₂ c (.ok table) s := by
  refine ⟨fun info' _ hc _ => ?_, fun name _ hc _ => nomatch h.call.symm.trans hc⟩
  obtain rfl := SetCall.create.inj (Option.some.inj (h.call.symm.trans hc))
  exact h

theorem Finds.ends {name : String} {table : Option UCAPITable} (h : Finds G₁ G₂ c table s)
    (hc : (s.thread c).call = some (.lookup name)) : Ends G₁ G₂ c (.ok table) s := by
  refine ⟨fun info _ hcreate _ => (nomatch hc.symm.trans hcreate), ?_⟩
  rintro _ _ - ⟨⟩
  exact h

theorem ends_scan {r : Except Exception (Option UCAPITable)}
    (hc : (s.thread c).call = some .scan) : Ends G₁ G₂ c r s := by
  refine ⟨fun info _ h _ => ?_, fun name _ h _ => ?_⟩
  · cases hc.symm.trans h
  · cases hc.symm.trans h

/-- **A call**, from where it begins. -/
theorem safe_callProgram (call : SetCall) (hs : SetInv G₁ G₂ s)
    (hcall : (s.thread c).call = some call) (hpending : (s.thread c).pending = none)
    (hregistering : (s.thread c).registering = false) :
    (t.running G₁ G₂).Safe c (t.callProgram call) (Ends G₁ G₂ c) s := by
  have throws : ∀ (e : Exception) (s : SetState), SetInv G₁ G₂ s →
      (t.running G₁ G₂).Safe c (Prog.throw e : Run (Option UCAPITable)) (Ends G₁ G₂ c) s :=
    fun e s hs => Outline.safe_ofExcept (O := t.running G₁ G₂) (x := .error e) (stable_ends _) hs
      (ends_error e)
  cases call with
  | create info =>
    have hbegun : Begun c info s := by
      refine ⟨⟨hcall, ?_⟩, hregistering⟩
      rw [SetThread.registers, hpending]
      rfl
    refine Outline.Safe.bind (safe_createTable hs hbegun) hs ?_ fun e s hs _ => throws e s hs
    exact fun _ s₁ hs₁ h₁ => Outline.safe_ofExcept (O := t.running G₁ G₂) (x := .ok none)
      (stable_ends _) hs₁ (Settled.ends h₁)
  | lookup name =>
    have hreads : ∀ info, SetCall.lookup name ≠ .create info := by
      intro info h
      cases h
    refine Outline.Safe.mono (safe_getEntry hs ⟨hreads, hcall, hpending⟩) fun r s h => ?_
    cases r with
    | error e => exact ends_error e
    | ok table => exact Finds.ends h.2 h.1
  | scan =>
    have hreads : ∀ info, SetCall.scan ≠ .create info := by
      intro info h
      cases h
    refine Outline.Safe.bind (safe_ensureLoaded hs ⟨hreads, hcall, hpending⟩) hs ?_
      fun e s hs _ => throws e s hs
    exact fun _ s₁ hs₁ h₁ => Outline.safe_ofExcept (O := t.running G₁ G₂) (x := .ok none)
      (stable_ends _) hs₁ (ends_scan (Reader.calls (Ready.toReader h₁)))

end CreatingCatalog

section

variable {G₁ G₂ : Prop} {s : SetState} {c : ℕ} {call : SetCall}

theorem called_made : (s.called call).made = none := by
  cases call <;> rfl

theorem called_call : (s.called call).call = some call := by
  cases call <;> rfl

theorem called_pending : (s.called call).pending = none := by
  cases call <;> rfl

theorem called_registering : (s.called call).registering = false := by
  cases call <;> rfl

/-- A lookup is owed what creates have returned for. -/
theorem called_expected {x : ListedTable} (h : (s.called call).expected = some x) :
    x ∈ s.registered ∧ ∃ name, call = .lookup name ∧ SameName x.name name := by
  cases call with
  | lookup name =>
    exact ⟨List.mem_of_find?_eq_some h, name, rfl, by simpa using List.find?_some h⟩
  | _ => cases h

theorem called_owed (h : (s.called call).owed = true) :
    ∃ n ∈ s.created, ∃ name, call = .lookup name ∧ SameName n name := by
  cases call with
  | lookup name =>
    obtain ⟨n, hn, hname⟩ := List.any_eq_true.1 h
    exact ⟨n, hn, name, rfl, by simpa using hname⟩
  | _ => cases h

/-- A call begins. -/
theorem SetInv.begin (hs : SetInv G₁ G₂ s) (call : SetCall) :
    SetInv G₁ G₂ (s.begin c call) ∧ ∀ d, d ≠ c → SetRely d s (s.begin c call) := by
  have hadv : Advances s (s.begin c call) := (sameSet_setThread _).advances
  have hown : (s.begin c call).thread c = s.called call := thread_setThread_self _
  have hother : ∀ d, d ≠ c → (s.begin c call).thread d = s.thread d :=
    fun d hd => thread_setThread_of_ne _ hd
  refine ⟨⟨hs.names, hs.listing, fun d x hx => ?_, fun d name x hc hx => ?_, hs.wrong,
    fun hG x hx => hadv.owns x (hs.registered hG x hx), fun hG d x hx => ?_, hs.missed,
    fun hG n hn => hadv.resolves n (hs.created hG n hn), fun hG d name hc ho => ?_⟩, fun d hd => ?_⟩
  · by_cases hd : d = c
    · rw [hd, hown, called_made] at hx
      cases hx
    · rw [hother d hd] at hx
      exact hs.made d x hx
  · by_cases hd : d = c
    · rw [hd, hown] at hx hc
      obtain ⟨-, name', rfl, hn⟩ := called_expected hx
      obtain rfl := SetCall.lookup.inj (Option.some.inj (called_call.symm.trans hc))
      exact hn
    · rw [hother d hd] at hx hc
      exact hs.expects d name x hc hx
  · by_cases hd : d = c
    · rw [hd, hown] at hx
      exact hadv.owns x (hs.registered hG x (called_expected hx).1)
    · rw [hother d hd] at hx
      exact hadv.owns x (hs.expected hG d x hx)
  · by_cases hd : d = c
    · rw [hd, hown] at ho hc
      obtain ⟨n, hmem, name', rfl, hn⟩ := called_owed ho
      obtain rfl := SetCall.lookup.inj (Option.some.inj (called_call.symm.trans hc))
      exact hadv.resolves _ ((hs.created hG n hmem).spelled hn)
    · rw [hother d hd] at ho hc
      exact hadv.resolves name (hs.owed hG d name hc ho)
  · refine .of_advances hadv ?_ Iff.rfl (fun _ => rfl) fun _ _ => rfl
    rw [hother d hd]
    exact .refl _

/-- What a call records when it ends is nothing the others rely on. -/
theorem rely_ended {r : Except Exception (Option UCAPITable)} (d : ℕ) :
    SetRely d s (s.ended c r) := by
  have hsame : ∀ s' : SetState, s'.thread = s.thread → s'.load_lock = s.load_lock →
      SameSet s s' → SetRely d s s' := by
    intro s' hthread hlock hset
    refine .of_advances hset.advances ?_ (by rw [hlock]) (fun _ => hset.is_loaded)
      fun _ _ => hset.listing
    rw [hthread]
    exact .refl _
  unfold SetState.ended
  split
  · exact hsame _ rfl rfl ⟨rfl, rfl, rfl, rfl⟩
  · exact hsame _ rfl rfl ⟨rfl, rfl, rfl, rfl⟩
  · exact .refl d s

/-- **The end of a call**: what it records is so. -/
theorem SetInv.ended {r : Except Exception (Option UCAPITable)} (hs : SetInv G₁ G₂ s)
    (h : CreatingCatalog.Ends G₁ G₂ c r s) : SetInv G₁ G₂ (s.ended c r) := by
  unfold SetState.ended
  split
  · rename_i info table hcall
    -- a create: what it returns is recorded as registered, and as listed where the cache has it
    have hset : CreatingCatalog.Settled G₁ G₂ c info s := h.create info table hcall rfl
    have hadv : Advances s (s.returned c info) := SameSet.advances ⟨rfl, rfl, rfl, rfl⟩
    refine ⟨hs.names, hs.listing, hs.made, hs.expects, hs.wrong, fun hG x hx => ?_,
      fun hG d x hx => hadv.owns x (hs.expected hG d x hx), hs.missed, fun hG n hn => ?_,
      fun hG d name hc ho => hadv.resolves name (hs.owed hG d name hc ho)⟩
    · rcases List.mem_append.1 hx with hx | hx
      · exact hadv.owns x (hset.owns hG x (Option.mem_toList.1 hx))
      · exact hadv.owns x (hs.registered hG x hx)
    · have hn : n ∈ if s.lists info.table_name && !(s.thread c).dropped then
          info.table_name :: s.created else s.created := hn
      split at hn
      · rename_i hlisted
        rcases List.mem_cons.1 hn with rfl | hn
        · refine hadv.resolves _ ((hset.resolves hG).resolve_left fun hd => ?_)
          rw [hd, Bool.not_true, Bool.and_false] at hlisted
          cases hlisted
        · exact hadv.resolves n (hs.created hG n hn)
      · exact hadv.resolves n (hs.created hG n hn)
  · rename_i name table hcall
    -- a lookup: what it gives is the table that was expected, if one was
    obtain ⟨hright, hfound⟩ := h.lookup name table hcall rfl
    have hadv : Advances s (s.found c table) := SameSet.advances ⟨rfl, rfl, rfl, rfl⟩
    refine ⟨hs.names, hs.listing, hs.made, hs.expects, fun hG => ?_,
      fun hG x hx => hadv.owns x (hs.registered hG x hx),
      fun hG d x hx => hadv.owns x (hs.expected hG d x hx), fun hG => ?_,
      fun hG n hn => hadv.resolves n (hs.created hG n hn),
      fun hG d name hc ho => hadv.resolves name (hs.owed hG d name hc ho)⟩
    · refine Bool.or_eq_false_iff.2 ⟨hs.wrong hG, ?_⟩
      cases hx : (s.thread c).expected with
      | none => rfl
      | some x =>
        show (table.map UCAPITable.listed != some x) = false
        rw [hright hG x hx, bne_self_eq_false]
    · refine Bool.or_eq_false_iff.2 ⟨hs.missed hG, ?_⟩
      cases ho : (s.thread c).owed with
      | false => rfl
      | true =>
        obtain ⟨found, rfl⟩ := Option.isSome_iff_exists.1 (hfound hG ho)
        rfl
  · exact hs

end

namespace CreatingCatalog

variable {t : CreatingCatalog} {G₁ G₂ : Prop}

/-- In every run whose steps meet the conditions in force, the invariant holds. -/
theorem running_sound {cfg : t.threads.Config}
    (h : t.threads.system.ReachableWhile (t.running G₁ G₂).guard.Meets cfg) :
    SetInv G₁ G₂ cfg.state := by
  refine (Outline.sound (O := t.running G₁ G₂) (Q := fun c => Ends G₁ G₂ c) ?_ ?_ ?_ ?_ h).1
  · rintro (s : SetState) ⟨hs, hnames⟩
    have hs : s = { uc := s.uc } := hs
    rw [hs]
    exact ⟨hnames, fun _ => rfl, nofun, nofun, fun _ => rfl, fun _ => nofun, fun _ => nofun,
      fun _ => rfl, fun _ => nofun, fun _ => nofun⟩
  · intro (s : SetState) (c : ℕ) (call : SetCall) p s' (hs : SetInv G₁ G₂ s) hst
    obtain ⟨rfl, rfl⟩ := Prod.mk.inj (Option.some.inj hst)
    obtain ⟨hs', hothers⟩ := hs.begin (c := c) call
    have hown : (s.begin c call).thread c = s.called call := thread_setThread_self _
    refine ⟨hs', hothers, safe_callProgram call hs' ?_ ?_ ?_⟩
    · rw [hown, called_call]
    · rw [hown, called_pending]
    · rw [hown, called_registering]
  · exact fun s c r hs hends => ⟨SetInv.ended hs hends, fun d _ => rely_ended d⟩
  · intro (s : SetState) e s' (hs : SetInv G₁ G₂ s) _ he
    cases e with
    | create x =>
      simp only [threads] at he
      split at he
      · cases he
      · rename_i hfree
        obtain rfl := Option.some.inj he
        exact hs.create (Bool.eq_false_iff.2 hfree)
    | drop name =>
      simp only [threads] at he
      split at he
      · obtain rfl := Option.some.inj he
        exact hs.drop name
      · cases he
    | register c table_id storage_location => exact hs.register he
    | list c =>
      simp only [threads] at he
      split at he
      · rename_i hawaits
        obtain rfl := Option.some.inj he
        exact hs.list hawaits
      · cases he

/-! ### Example runs -/

/-- A schema of a catalog. -/
def exampleSet : CreatingCatalog where
  catalog_name := "c"
  schema_name := "s"
  read_only := false
  credentials := { endpoint := "http://uc", token := "" }
  attached_name := "c"

/-- An operation goes well; a request is answered so. -/
def exampleAnswers (resp : HttpResponse) : SetChoice where
  ans
    | .ensureHttpfs => .ok ()
    | .issue _ => .ok ()
    | .answer => .ok resp
    | .randomUUID => .ok "u"
    | .attachDatabase _ => .ok 0
    | .deltaCreateTable _ => .ok ()
    | .openRead _ => .ok 64
    | .readText _ => .ok ("\x7b\"commitInfo\":\x7b\"timestamp\":1\x7d\x7d\n" ++
        "\x7b\"metaData\":\x7b\"schemaString\":\"\x7b\x7d\"\x7d\x7d")
    | .detachDatabase _ => .ok ()
    | .addColumns _ => .ok ()
    | _ => .error (ioException "")

/-- The thread goes on `n` operations, and its request is answered so. -/
def exampleOps (n : ℕ) (status : ℕ) (body : String) : List exampleSet.threads.Label :=
  List.replicate n (.op (0 : ℕ) (exampleAnswers ⟨status, status < 400, "", [], body⟩))

/-- The answer that lists one table. -/
def exampleListing (table_id storage_location : String) : String :=
  "\x7b\"tables\":[\x7b\"name\":\"t\",\"table_type\":\"EXTERNAL\",\"table_id\":\"" ++ table_id ++
    "\",\"storage_location\":\"" ++ storage_location ++ "\"\x7d]\x7d"

/-- A load of `n` tables. -/
def exampleLoad (n : ℕ) (body : String) : List exampleSet.threads.Label :=
  exampleOps 4 200 "" ++ [.env (.list 0)] ++ exampleOps (2 * n + 3) 200 body

/-- The create of an external table. -/
def exampleCreate (on_conflict : OnCreateConflict) : SetCall :=
  .create { table_name := "t", on_conflict, location := some (some "/t") }

/-- It looks its table up, writes version 0, registers it, and marks the set. -/
def exampleRegisters : List exampleSet.threads.Label :=
  [.start (0 : ℕ) (exampleCreate .error)] ++ exampleOps 11 404 "" ++
    [.env (.register 0 "new" "/t")] ++ exampleOps 4 200 "" ++ [.finish (0 : ℕ)]

/-- A lookup that loads the one table Unity Catalog has. -/
def exampleLooksUp : List exampleSet.threads.Label :=
  [.start (0 : ℕ) (.lookup "t")] ++ exampleLoad 1 (exampleListing "new" "/t") ++
    exampleOps 1 200 "" ++ [.finish (0 : ℕ)]

/-- Before the first call. -/
def exampleBefore (uc : List ListedTable) : exampleSet.threads.Config :=
  ⟨({ uc } : SetState), fun _ => none⟩

theorem exampleBefore_init (uc : List ListedTable) (h : SetState.UniqueNames uc) :
    exampleSet.threads.system.init (exampleBefore uc) :=
  ⟨⟨rfl, h⟩, rfl⟩

/-! ## The table that was registered -/

/-- The set has an older table of the name, dropped since: the lookup after the create finds it. -/
theorem older_table_is_found : ∃ cfg, exampleSet.threads.system.Reachable cfg ∧
    (SetState.wrong cfg.state) = true := by
  have h : (exampleSet.threads.replay (fun _ _ => true)
      ([.start (0 : ℕ) .scan] ++ exampleLoad 1 (exampleListing "old" "/old") ++
        [.finish (0 : ℕ), .env (.drop "t")] ++ exampleRegisters ++ exampleLooksUp)
      (exampleBefore [⟨"t", "old", "/old"⟩])).map
        (fun cfg : exampleSet.threads.Config => SetState.wrong cfg.state) = some true := by
    decide +kernel
  obtain ⟨cfg, hcfg, hwrong⟩ := Option.map_eq_some_iff.1 h
  exact ⟨cfg, ⟨_, exampleBefore_init _ (List.pairwise_singleton _ _),
    Pool.run_of_replay (fun _ _ _ => trivial) hcfg⟩, hwrong⟩

/-- **A lookup after a create finds the registered table**, in every run in which a create that
marks the set finds no entry of another table of the name, and no create is told that the name is
taken by what its own request has made. -/
theorem finds_registered_of_marksOwn {cfg : t.threads.Config}
    (h : t.threads.system.ReachableWhile t.marksOwn.Meets cfg) :
    (SetState.wrong cfg.state) = false := by
  obtain ⟨cfg₀, hinit, hrun⟩ := h
  have hguard : t.threads.system.Run (t.running True False).guard.Meets cfg₀ cfg := by
    refine hrun.mono fun cfg l hl => ?_
    cases l with
    | op c ch => exact fun op k hop => ⟨fun _ => hl op k hop, False.elim⟩
    | _ => trivial
  exact (running_sound ⟨cfg₀, hinit, hguard⟩).wrong trivial

/-- Whether every table a create has made is the only one of its name in the set. -/
def marksOwnCheck (cfg : exampleSet.threads.Config) (l : exampleSet.threads.Label) : Bool :=
  match l with
  | .op c _ =>
    let s : SetState := cfg.state
    let th := s.thread c
    (th.made.all fun x => s.tables.all fun table => lower table.name != lower x.name ||
      table.listed == x) && match th.call with
        | some (.create info) => info.on_conflict ≠ .ignore
        | _ => true
  | _ => true

theorem marksOwnCheck_meets (cfg : exampleSet.threads.Config) (l : exampleSet.threads.Label)
    (h : marksOwnCheck cfg l = true) : exampleSet.marksOwn.Meets cfg l := by
  cases l with
  | op c ch =>
    obtain ⟨hmade, hcall⟩ := Bool.and_eq_true_iff.1 h
    refine fun op k _ => ⟨fun _ x hx table hm hn => ?_, fun _ info htaken => ?_⟩
    · have hx : (SetState.thread cfg.state c).made = some x := hx
      rw [hx] at hmade
      have := List.all_eq_true.1 hmade table hm
      rw [Bool.or_eq_true, bne_iff_ne, beq_iff_eq] at this
      exact this.resolve_left fun hne => hne hn
    · obtain ⟨hc, hign, -⟩ := htaken
      have hc : (SetState.thread cfg.state c).call = some (.create info) := hc
      rw [hc] at hcall
      exact absurd hign (of_decide_eq_true hcall)
  | _ => trivial

/-- The set was loaded before there was a table of the name. -/
theorem finds_registered_of_marksOwn_first : ∃ cfg : exampleSet.threads.Config,
    ((SetState.tables cfg.state).map UCAPITable.listed, SetState.registered cfg.state) =
        ([⟨"t", "new", "/t"⟩], [⟨"t", "new", "/t"⟩]) ∧ (SetState.wrong cfg.state) = false := by
  have h : (exampleSet.threads.replay marksOwnCheck ([.start (0 : ℕ) .scan] ++ exampleLoad 0 "" ++
      [.finish (0 : ℕ)] ++ exampleRegisters ++ exampleLooksUp) (exampleBefore [])).map
        (fun cfg : exampleSet.threads.Config =>
          ((SetState.tables cfg.state).map UCAPITable.listed, SetState.registered cfg.state)) =
      some ([⟨"t", "new", "/t"⟩], [⟨"t", "new", "/t"⟩]) := by
    decide +kernel
  obtain ⟨cfg, hcfg, hst⟩ := Option.map_eq_some_iff.1 h
  exact ⟨cfg, hst, finds_registered_of_marksOwn ⟨_, exampleBefore_init _ .nil,
    Pool.run_of_replay marksOwnCheck_meets hcfg⟩⟩

/-! ## The name that was created -/

/-- Another client has created the table since the set was loaded, the IF NOT EXISTS create hears of
it and returns, and the lookup after it finds nothing. -/
theorem created_name_is_missed : ∃ cfg, exampleSet.threads.system.Reachable cfg ∧
    (SetState.missed cfg.state) = true := by
  have h : (exampleSet.threads.replay (fun _ _ => true)
      ([.start (0 : ℕ) .scan] ++ exampleLoad 0 "" ++
        [.finish (0 : ℕ), .env (.create ⟨"t", "id", "/u"⟩),
          .start (0 : ℕ) (exampleCreate .ignore)] ++ exampleOps 3 200 "" ++ [.finish (0 : ℕ)] ++
        [.start (0 : ℕ) (.lookup "t")] ++ exampleOps 4 200 "" ++ [.finish (0 : ℕ)])
      (exampleBefore [])).map
        (fun cfg : exampleSet.threads.Config => SetState.missed cfg.state) = some true := by
    decide +kernel
  obtain ⟨cfg, hcfg, hmissed⟩ := Option.map_eq_some_iff.1 h
  exact ⟨cfg, ⟨_, exampleBefore_init _ .nil, Pool.run_of_replay (fun _ _ _ => trivial) hcfg⟩,
    hmissed⟩

/-- **A lookup after a create finds an entry**, in every run in which an IF NOT EXISTS create is
told that the name is taken only where the set has an entry for it or is yet to load the table. -/
theorem finds_created_of_takenResolves {cfg : t.threads.Config}
    (h : t.threads.system.ReachableWhile t.takenResolves.Meets cfg) :
    (SetState.missed cfg.state) = false := by
  obtain ⟨cfg₀, hinit, hrun⟩ := h
  have hguard : t.threads.system.Run (t.running False True).guard.Meets cfg₀ cfg := by
    refine hrun.mono fun cfg l hl => ?_
    cases l with
    | op c ch => exact fun op k hop => ⟨False.elim, fun _ => hl op k hop⟩
    | _ => trivial
  exact (running_sound ⟨cfg₀, hinit, hguard⟩).missed trivial

/-- Whether the name a thread creates is listed while the set has neither loaded nor begun to. -/
def takenResolvesCheck (cfg : exampleSet.threads.Config) (l : exampleSet.threads.Label) : Bool :=
  match l with
  | .op c _ =>
    let s : SetState := cfg.state
    match (s.thread c).call with
    | some (.create info) => s.lists info.table_name && !s.is_loaded && s.listing.isNone
    | _ => true
  | _ => true

theorem takenResolvesCheck_meets (cfg : exampleSet.threads.Config) (l : exampleSet.threads.Label)
    (h : takenResolvesCheck cfg l = true) : exampleSet.takenResolves.Meets cfg l := by
  cases l with
  | op c ch =>
    rintro op k - - info ⟨hc, -⟩
    have hc : (SetState.thread cfg.state c).call = some (.create info) := hc
    simp only [takenResolvesCheck, hc, Bool.and_eq_true, Bool.not_eq_true'] at h
    obtain ⟨⟨hlists, hloaded⟩, hlisting⟩ := h
    refine .inr ⟨hlists, hloaded, fun listing hl => ?_⟩
    rw [hl] at hlisting
    cases hlisting
  | _ => trivial

/-- The set is loaded by the lookup. -/
theorem finds_created_of_takenResolves_unloaded : ∃ cfg : exampleSet.threads.Config,
    (SetState.created cfg.state, (SetState.tables cfg.state).map UCAPITable.listed) =
        (["t"], [⟨"t", "id", "/u"⟩]) ∧ (SetState.missed cfg.state) = false := by
  have h : (exampleSet.threads.replay takenResolvesCheck
      ([.env (.create ⟨"t", "id", "/u"⟩), .start (0 : ℕ) (exampleCreate .ignore)] ++
        exampleOps 3 200 "" ++ [.finish (0 : ℕ), .start (0 : ℕ) (.lookup "t")] ++
        exampleLoad 1 (exampleListing "id" "/u") ++ exampleOps 1 200 "" ++ [.finish (0 : ℕ)])
      (exampleBefore [])).map
        (fun cfg : exampleSet.threads.Config =>
          (SetState.created cfg.state, (SetState.tables cfg.state).map UCAPITable.listed)) =
      some (["t"], [⟨"t", "id", "/u"⟩]) := by
    decide +kernel
  obtain ⟨cfg, hcfg, hst⟩ := Option.map_eq_some_iff.1 h
  exact ⟨cfg, hst, finds_created_of_takenResolves ⟨_, exampleBefore_init _ .nil,
    Pool.run_of_replay takenResolvesCheck_meets hcfg⟩⟩

end CreatingCatalog

end UnityCatalog
