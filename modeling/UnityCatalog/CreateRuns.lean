import UnityCatalog.CreateTable

/-!
# Runs of an external create

Two results about a create that fails, over every interleaving with UC and the other clients, from
one proof outline. `G` says whether the outline is under the condition of the first: that the
cleanup removes nothing a registered table owns is proved where it holds, what the create leaves
behind is proved of every run.
-/

namespace UnityCatalog

open Effectful

namespace ExternalCreate

variable (E : ExternalCreate)

/-- A registered table owns the log at the place, or the create's own is about to. -/
def Owned (uc : CatalogView) (p : E.Place) : Prop :=
  E.ListsAt uc p ∨ p = E.place E.location ∧ E.WillList uc

/-- No file was removed from a log that a registered table owned. -/
def KeepsRegistered (s : CreateState) : Prop :=
  ∀ r ∈ s.log.removals, ¬ E.Owned r.2 (E.home r.1)

/-- No file the cleanup finds is of such a log. -/
def FindsUnowned (s : CreateState) : Prop :=
  ∀ f ∈ s.store, E.Finds f → ¬ E.Owned s.uc (E.home f)

/-- The answer tells the cleanup that UC does not have the table at the location. -/
def SaysNotHere (s : CreateState) : CreateChoice → Prop
  | .respond resp _ => s.log.asked = true ∧ ∃ req, s.request = some req ∧
    ((req.url = E.lookupUrl ∧ resp.tableFound E.lookupUrl = .ok false) ∨
      (req.url ≠ E.lookupUrl ∧ ∃ result, E.loadOutcome resp = .ok result ∧
        comparableLocation result.location ≠ comparableLocation E.location))
  | _ => False

/-- The runs in which that answer is given only where no registered table owns a file the cleanup
finds, and from then on no other client registers a table over such a file or writes one for a
registered table. -/
def removesUnowned : Guard E.creates where
  op s _ op ch := op = .answer → E.SaysNotHere s ch → E.FindsUnowned s
  env s e := s.log.removing = true → match e with
    | .register _ location => ∀ f ∈ s.store, E.Finds f → E.home f ≠ E.place location
    | .write f => E.Finds f → ¬ E.Owned s.uc (E.home f)
    | _ => True

/-! ## The invariant -/

/-- What holds in every state, under the condition. -/
structure CreateInv (G : Prop) (s : CreateState) : Prop where
  own : ∀ f ∈ s.log.files, f ∈ s.store
  removals : G → E.KeepsRegistered s
  removing : G → s.log.removing = true → E.FindsUnowned s

/-- What the create relies on: the others change only what UC has and what is stored, and UC lists
what it listed. -/
def CreateRely (_ : Unit) (s s' : CreateState) : Prop :=
  ∃ uc store, s' = { s with uc, store } ∧ ∀ x ∈ s.uc.tables, x ∈ uc.tables

/-- The create under the invariant. -/
def creating (G : Prop) : Outline E.creates where
  guard := ⟨fun s c op ch => G → E.removesUnowned.op s c op ch,
    fun s e => G → E.removesUnowned.env s e⟩
  inv := E.CreateInv G
  rely := CreateRely
  rely_refl _ s := ⟨s.uc, s.store, rfl, fun _ h => h⟩
  rely_trans := by
    rintro - s - - ⟨uc, store, rfl, h⟩ ⟨uc', store', rfl, h'⟩
    exact ⟨uc', store', rfl, fun x hx => h' x (h x hx)⟩

variable {E} {G : Prop} {s s' : CreateState} {k : CreateLog}

/-- What the invariant is about stays as it is. -/
structure Untold (s s' : CreateState) : Prop where
  uc : s'.uc = s.uc
  store : s'.store = s.store
  files : s'.log.files = s.log.files
  removals : s'.log.removals = s.log.removals
  removing : s'.log.removing = s.log.removing

theorem CreateInv.same (hs : E.CreateInv G s) (h : Untold s s') : E.CreateInv G s' where
  own := by
    rw [h.files, h.store]
    exact hs.own
  removals hG := by
    rw [KeepsRegistered, h.removals]
    exact hs.removals hG
  removing hG hm := by
    rw [FindsUnowned, h.store, h.uc]
    exact hs.removing hG (h.removing ▸ hm)

theorem lists_mono {uc uc' : CatalogView} (h : ∀ x ∈ uc.tables, x ∈ uc'.tables)
    (hl : E.Lists uc) : E.Lists uc' := by
  obtain ⟨x, hx, hp⟩ := hl
  exact ⟨x, h x hx, hp⟩

theorem register_tables (uc : CatalogView) (name location : String) :
    ∀ x ∈ uc.tables, x ∈ (uc.register name location).tables := by
  intro x hx
  rw [CatalogView.register]
  split
  · exact hx
  · exact List.mem_cons_of_mem _ hx

/-- What UC makes of a copy of the register request: no place is owned by it that was not to be. -/
theorem process_spec {uc uc' : CatalogView} {spelled : String}
    (h : E.process uc spelled = some uc') :
    (∀ x ∈ uc.tables, x ∈ uc'.tables) ∧ ∀ p, ¬ E.Owned uc p → ¬ E.Owned uc' p := by
  rw [process] at h
  split at h
  · rename_i hp
    obtain rfl := Option.some.inj h
    refine ⟨register_tables uc E.name spelled, fun p hno => ?_⟩
    by_cases htaken : E.name ∈ uc.tables.map Prod.fst
    · rw [CatalogView.register, if_pos htaken]
      rintro (hl | ⟨-, -, hfree⟩)
      · exact hno (.inl hl)
      · exact hfree htaken
    · -- a request that finds its name free was to be listed: the place is another one
      have hplace : p ≠ E.place E.location := fun heq => hno (.inr ⟨heq, hp.1, htaken⟩)
      rw [CatalogView.register, if_neg htaken]
      rintro (⟨x, hx, hxp⟩ | ⟨heq, -⟩)
      · rcases List.mem_cons.1 hx with rfl | hx
        · exact hplace (hxp.symm.trans hp.2)
        · exact hno (.inl ⟨x, hx, hxp⟩)
      · exact hplace heq
  · cases h

theorem processIf_spec {uc uc' : CatalogView} {spelled : Option String}
    (h : E.processIf uc spelled = some uc') :
    (∀ x ∈ uc.tables, x ∈ uc'.tables) ∧ ∀ p, ¬ E.Owned uc p → ¬ E.Owned uc' p := by
  cases spelled with
  | none =>
    obtain rfl := Option.some.inj h
    exact ⟨fun _ h => h, fun _ h => h⟩
  | some spelled => exact process_spec h

/-- A copy of the register request is sent once more, or lost, while another is on the way. -/
theorem owned_inflight {uc : CatalogView} {n : ℕ} {p : E.Place} (hpos : 0 < uc.inflight)
    (h : ¬ E.Owned uc p) : ¬ E.Owned { uc with inflight := n } p := by
  rintro (hl | ⟨heq, -, hname⟩)
  · exact h (.inl hl)
  · exact h (.inr ⟨heq, hpos, hname⟩)

/-- Another client's table owns its own place and no other. -/
theorem owned_register {uc : CatalogView} {name location : String} {p : E.Place}
    (hp : p ≠ E.place location) (h : ¬ E.Owned uc p) : ¬ E.Owned (uc.register name location) p := by
  rw [CatalogView.register]
  split
  · exact h
  · rintro (⟨x, hx, hxp⟩ | ⟨heq, hin, hname⟩)
    · rcases List.mem_cons.1 hx with rfl | hx
      · exact hp hxp.symm
      · exact h (.inl ⟨x, hx, hxp⟩)
    · exact h (.inr ⟨heq, hin, fun hm => hname (List.mem_cons_of_mem _ hm)⟩)

/-- UC and the other clients keep the invariant. -/
theorem CreateInv.env {e : CreateEnv} (hs : E.CreateInv G s)
    (hg : G → E.removesUnowned.env s e) (h : E.creates.env s e = some s') :
    E.CreateInv G s' ∧ CreateRely () s s' := by
  cases e with
  | register name location =>
    simp only [creates] at h
    split at h
    · cases h
    · obtain rfl := Option.some.inj h
      refine ⟨⟨hs.own, hs.removals, fun hG hm f hf hfind => ?_⟩, _, _, rfl, register_tables _ _ _⟩
      -- the guard keeps other tables away from what is being removed
      exact owned_register (hg hG hm f hf hfind) (hs.removing hG hm f hf hfind)
  | process spelled =>
    obtain ⟨uc, hp, rfl⟩ := Option.map_eq_some_iff.1 h
    obtain ⟨htables, howned⟩ := process_spec hp
    exact ⟨⟨hs.own, hs.removals, fun hG hm f hf hfind => howned _ (hs.removing hG hm f hf hfind)⟩,
      uc, _, rfl, htables⟩
  | duplicate =>
    simp only [creates] at h
    split at h
    · rename_i hpos
      obtain rfl := Option.some.inj h
      exact ⟨⟨hs.own, hs.removals, fun hG hm f hf hfind =>
        owned_inflight hpos (hs.removing hG hm f hf hfind)⟩, _, _, rfl, fun _ hx => hx⟩
    · cases h
  | lose =>
    simp only [creates] at h
    split at h
    · rename_i hpos
      obtain rfl := Option.some.inj h
      exact ⟨⟨hs.own, hs.removals, fun hG hm f hf hfind =>
        owned_inflight hpos (hs.removing hG hm f hf hfind)⟩, _, _, rfl, fun _ hx => hx⟩
    · cases h
  | write path =>
    simp only [creates] at h
    split at h
    · cases h
    · obtain rfl := Option.some.inj h
      refine ⟨⟨fun f hf => List.mem_cons_of_mem _ (hs.own f hf), hs.removals,
        fun hG hm f hf hfind => ?_⟩, _, _, rfl, fun _ hx => hx⟩
      rcases List.mem_cons.1 hf with rfl | hf
      · exact hg hG hm hfind
      · exact hs.removing hG hm f hf hfind
  | remove path =>
    simp only [creates] at h
    split at h
    · cases h
    · -- no one else removes a file that this create wrote
      rename_i hother
      obtain rfl := Option.some.inj h
      refine ⟨⟨fun f hf => ?_, hs.removals, fun hG hm f hf hfind => ?_⟩, _, _, rfl, fun _ hx => hx⟩
      · refine List.mem_filter.2 ⟨hs.own f hf, decide_eq_true fun heq => hother ?_⟩
        exact heq ▸ hf
      · exact hs.removing hG hm f (List.mem_filter.1 hf).1 hfind

/-! ## Operations -/

/-- The create is the only context. -/
theorem no_others {R : Unit → Prop} (d : Unit) (hd : d ≠ ()) : R d :=
  absurd rfl hd

theorem stable_log (q : CreateLog → Prop) : (E.creating G).Stable () fun s => q s.log := by
  rintro s - ⟨uc, store, rfl, -⟩ - - h
  exact h

/-- An operation that only touches the log of the create. -/
theorem safe_op {op : Op} {R : Except Exception op.Ans → CreateLog → Prop} (hk : s.log = k)
    (h : ∀ s ch x s', E.createAnswer s op ch = some (x, s') → s.log = k →
      Untold s s' ∧ R x s'.log) :
    (E.creating G).Safe () (Prog.perform (F := Client) op) (fun x s => R x s.log) s := by
  refine Outline.safe_perform (fun x => stable_log (R x)) ?_
  rintro _ ⟨uc, store, rfl, -⟩ (hs : E.CreateInv G _) ch x s₂ _ ha
  obtain ⟨hsame, hR⟩ := h _ ch x s₂ ha hk
  exact ⟨hs.same hsame, no_others, hR⟩

/-- Only the lookup goes to the lookup's URL. -/
theorem schemaUrl_ne_lookupUrl (E : ExternalCreate) (rest : String) :
    schemaUrl E.set.credentials E.set.catalog_name E.set.schema_name ++ rest ≠ E.lookupUrl := by
  intro h
  have hschema : "/api/2.1/unity-catalog/delta/v1/catalogs/" =
      "/api/2.1/unity-catalog/" ++ "delta/v1/catalogs/" := by decide
  have hlookup : "/api/2.1/unity-catalog/tables/" = "/api/2.1/unity-catalog/" ++ "tables/" := by
    decide
  rw [schemaUrl, lookupUrl, UnityCatalog.lookupUrl, hschema, hlookup] at h
  simp only [String.ext_iff, String.toList_append, List.append_assoc,
    List.append_cancel_left_eq] at h
  cases (List.cons.inj h).1

theorem loadUrl_ne_lookupUrl (E : ExternalCreate) : E.loadUrl ≠ E.lookupUrl := by
  rw [loadUrl, tableUrl, String.append_assoc]
  exact schemaUrl_ne_lookupUrl E _

/-! ## Requests -/

/-- The log while a request to `url` is out. -/
def asking (E : ExternalCreate) (k : CreateLog) (url : String) : CreateLog :=
  { k with asked := k.asked || (k.written && url == E.lookupUrl) }

theorem asking_of_ne {url : String} (h : url ≠ E.lookupUrl) : E.asking k url = k := by
  rw [asking, beq_false_of_ne h, Bool.and_false, Bool.or_false]

theorem safe_ensureHttpfs (hk : s.log = k) : (E.creating G).Safe () ensureHttpfs
    (fun r s => r = .ok () ∧ s.log = k) s := by
  refine safe_op (R := fun (r : Except Exception (Op.Ans .ensureHttpfs)) l => r = .ok () ∧
    l = k) hk ?_
  intro s ch x s' ha hk
  cases ch <;> cases ha
  exact ⟨⟨rfl, rfl, rfl, rfl, rfl⟩, rfl, hk⟩

/-- A GET goes out. -/
theorem safe_issueGet {url token : String} (hk : s.log = k) :
    (E.creating G).Safe () (issue ⟨.get, url, token, .empty⟩)
      (fun r s => r = .ok () ∧ s.request = some ⟨.get, url, token, .empty⟩ ∧
        s.log = E.asking k url) s := by
  refine Outline.safe_perform ?_ ?_
  · rintro r u - ⟨uc, store, rfl, -⟩ - - h
    exact h
  · rintro _ ⟨uc, store, rfl, -⟩ (hs : E.CreateInv G _) ch x s₂ _ ha
    cases ch <;> cases ha
    exact ⟨hs.same ⟨rfl, rfl, rfl, rfl, rfl⟩, no_others, rfl, rfl, by rw [asking, ← hk]⟩

/-- A GET, and what its caller makes of the response. -/
theorem safe_get {α : Type} {url token : String} {f : HttpResponse → Except Exception α}
    {Q : Except Exception α → CreateState → Prop} (hQ : ∀ r, (E.creating G).Stable () (Q r))
    (hs : E.CreateInv G s) (hk : s.log = k)
    (hanswer : ∀ s, E.CreateInv G s → s.request = some ⟨.get, url, token, .empty⟩ →
      s.log = E.asking k url →
      (E.creating G).Safe () answer (fun x => Q (x.bind f)) s) :
    (E.creating G).Safe () (ensureHttpfs.bind fun _ => (issue ⟨.get, url, token, .empty⟩).bind
      fun _ => answer.bind fun resp => Prog.ofExcept (f resp)) Q s := by
  refine Outline.Safe.bind (safe_ensureHttpfs hk) hs ?_ fun e s₁ _ h => nomatch h.1
  rintro - s₁ hs₁ ⟨-, hk₁⟩
  refine Outline.Safe.bind (safe_issueGet hk₁) hs₁ ?_ fun e s₂ _ h => nomatch h.1
  rintro - s₂ hs₂ ⟨-, hreq, hk₂⟩
  refine Outline.Safe.bind (hanswer s₂ hs₂ hreq hk₂) hs₂ ?_ ?_
  · exact fun resp s₃ hs₃ h => Outline.safe_ofExcept (hQ _) hs₃ h
  · exact fun e s₃ hs₃ h => Outline.safe_ofExcept (x := .error e) (hQ _) hs₃ h

/-- What the create knows after it has looked its table up. -/
def Found (k : CreateLog) (r : Except Exception Bool) (s : CreateState) : Prop :=
  match r with
  | .ok found => s.log = { k with removing := k.removing || (k.asked && !found) }
  | .error _ => s.log = { k with unanswered := k.unanswered || k.asked }

/-- What the create knows after it has loaded its table. -/
def Loaded (E : ExternalCreate) (k : CreateLog) (r : Except Exception UCAPICommitsResult)
    (s : CreateState) : Prop :=
  match r with
  | .ok result => (E.name, result.location) ∈ s.uc.tables ∧ s.log = { k with
      removing := k.removing || (k.asked &&
        comparableLocation result.location != comparableLocation E.location) }
  | .error _ => s.log = { k with unanswered := k.unanswered || k.asked }

theorem stable_found (r : Except Exception Bool) : (E.creating G).Stable () (Found k r) := by
  rintro s - ⟨uc, store, rfl, -⟩ - - h
  cases r <;> exact h

theorem stable_loaded (r : Except Exception UCAPICommitsResult) :
    (E.creating G).Stable () (E.Loaded k r) := by
  rintro s - ⟨uc, store, rfl, ht⟩ - - h
  cases r with
  | ok result => exact ⟨ht _ h.1, h.2⟩
  | error e => exact h

theorem safe_lookupAnswer {token : String} (hk : s.log = k)
    (hreq : s.request = some ⟨.get, E.lookupUrl, token, .empty⟩) :
    (E.creating G).Safe () answer
      (fun x => Found k (x.bind fun resp => resp.tableFound E.lookupUrl)) s := by
  refine Outline.safe_perform (fun x => stable_found _) ?_
  rintro _ ⟨uc, store, rfl, -⟩ (hs : E.CreateInv G _) ch x s₂ hg ha
  have hreply : E.reply { s with uc, store } ⟨.get, E.lookupUrl, token, .empty⟩ ch =
      some (x, s₂) := by
    have : (s.request.bind fun req => E.reply { s with uc, store } req ch) = some (x, s₂) := ha
    rwa [hreq] at this
  subst hk
  cases ch with
  | respond resp spelled =>
    simp only [reply, if_true] at hreply
    split at hreply
    · rename_i found hfound
      split at hreply
      · obtain ⟨rfl, rfl⟩ := Prod.mk.inj (Option.some.inj hreply)
        refine ⟨⟨hs.own, hs.removals, fun hG hm => ?_⟩, no_others, ?_⟩
        · rcases Bool.or_eq_true_iff.1 hm with hm | hm
          · exact hs.removing hG hm
          · obtain ⟨hasked, hnot⟩ := Bool.and_eq_true_iff.1 hm
            have hfalse : found = false := by simpa using hnot
            exact hg hG rfl ⟨hasked, _, hreq, .inl ⟨rfl, hfalse ▸ hfound⟩⟩
        · show Found s.log (resp.tableFound E.lookupUrl) _
          rw [hfound]
          rfl
      · cases hreply
    · rename_i e herr
      obtain ⟨rfl, rfl⟩ := Prod.mk.inj (Option.some.inj hreply)
      refine ⟨hs.same ⟨rfl, rfl, rfl, rfl, rfl⟩, no_others, ?_⟩
      show Found s.log (resp.tableFound E.lookupUrl) _
      rw [herr]
      rfl
  | fail e spelled =>
    obtain ⟨rfl, rfl⟩ := Prod.mk.inj (Option.some.inj hreply)
    exact ⟨hs.same ⟨rfl, rfl, rfl, rfl, rfl⟩, no_others, rfl⟩
  | _ => cases hreply

theorem safe_loadAnswer {token : String} (hk : s.log = k)
    (hreq : s.request = some ⟨.get, E.loadUrl, token, .empty⟩) :
    (E.creating G).Safe () answer
      (fun x => E.Loaded k (x.bind fun resp => E.loadOutcome resp)) s := by
  refine Outline.safe_perform (fun x => stable_loaded _) ?_
  rintro _ ⟨uc, store, rfl, -⟩ (hs : E.CreateInv G _) ch x s₂ hg ha
  have hreply : E.reply { s with uc, store } ⟨.get, E.loadUrl, token, .empty⟩ ch =
      some (x, s₂) := by
    have : (s.request.bind fun req => E.reply { s with uc, store } req ch) = some (x, s₂) := ha
    rwa [hreq] at this
  subst hk
  cases ch with
  | respond resp spelled =>
    simp only [reply, if_neg (loadUrl_ne_lookupUrl E)] at hreply
    split at hreply
    · rename_i result hload
      split at hreply
      · rename_i hmem
        obtain ⟨rfl, rfl⟩ := Prod.mk.inj (Option.some.inj hreply)
        refine ⟨⟨hs.own, hs.removals, fun hG hm => ?_⟩, no_others, ?_⟩
        · rcases Bool.or_eq_true_iff.1 hm with hm | hm
          · exact hs.removing hG hm
          · obtain ⟨hasked, hne⟩ := Bool.and_eq_true_iff.1 hm
            exact hg hG rfl ⟨hasked, _, hreq,
              .inr ⟨loadUrl_ne_lookupUrl E, result, hload, bne_iff_ne.1 hne⟩⟩
        · show E.Loaded s.log (E.loadOutcome resp) _
          rw [hload]
          exact ⟨hmem, rfl⟩
      · cases hreply
    · rename_i e herr
      obtain ⟨rfl, rfl⟩ := Prod.mk.inj (Option.some.inj hreply)
      refine ⟨hs.same ⟨rfl, rfl, rfl, rfl, rfl⟩, no_others, ?_⟩
      show E.Loaded s.log (E.loadOutcome resp) _
      rw [herr]
      rfl
  | fail e spelled =>
    obtain ⟨rfl, rfl⟩ := Prod.mk.inj (Option.some.inj hreply)
    exact ⟨hs.same ⟨rfl, rfl, rfl, rfl, rfl⟩, no_others, rfl⟩
  | _ => cases hreply

/-- `TableExists` -/
theorem safe_tableExists (hs : E.CreateInv G s) (hk : s.log = k) :
    (E.creating G).Safe () (UCAPI.tableExists E.set.catalog_name E.set.schema_name
      E.info.table_name E.set.credentials) (Found (E.asking k E.lookupUrl)) s := by
  rw [UCAPI.tableExists_eq]
  exact safe_get stable_found hs hk fun s _ hreq hk => safe_lookupAnswer hk hreq

/-- `LoadTable` -/
theorem safe_loadTable (hs : E.CreateInv G s) (hk : s.log = k) :
    (E.creating G).Safe () (UCAPI.loadTable E.set.catalog_name E.set.schema_name
      E.info.table_name E.set.credentials) (E.Loaded k) s := by
  rw [UCAPI.loadTable_eq]
  refine safe_get stable_loaded hs hk fun s _ hreq hk => safe_loadAnswer ?_ hreq
  exact hk.trans (asking_of_ne (loadUrl_ne_lookupUrl E))

/-- The register request goes out, before the cleanup. -/
theorem safe_issueRegister {table : UCAPICommittedTable} {table_type token : String}
    (hk : s.log = k) (hrem : k.removing = false) :
    (E.creating G).Safe () (issue ⟨.post, E.registerUrl, token, .registerTable table table_type⟩)
      (fun r s => r = .ok () ∧
        s.request = some ⟨.post, E.registerUrl, token, .registerTable table table_type⟩ ∧
        s.log = k) s := by
  refine Outline.safe_perform ?_ ?_
  · rintro r u - ⟨uc, store, rfl, -⟩ - - h
    exact h
  · rintro _ ⟨uc, store, rfl, -⟩ (hs : E.CreateInv G _) ch x s₂ _ ha
    subst hk
    cases ch <;> cases ha
    refine ⟨⟨hs.own, hs.removals, fun _ hm => ?_⟩, no_others, rfl, rfl, ?_⟩
    · exact absurd (hrem.symm.trans hm) Bool.false_ne_true
    · exact asking_of_ne (schemaUrl_ne_lookupUrl E _)

/-- UC answers it. -/
theorem safe_registerAnswer {table : UCAPICommittedTable} {table_type token : String}
    (hk : s.log = k)
    (hreq : s.request = some ⟨.post, E.registerUrl, token, .registerTable table table_type⟩) :
    (E.creating G).Safe () answer (fun _ s => s.log = k) s := by
  refine Outline.safe_perform (fun _ => stable_log fun l => l = k) ?_
  rintro _ ⟨uc, store, rfl, -⟩ (hs : E.CreateInv G _) ch x s₂ _ ha
  have hreply : E.reply { s with uc, store }
      ⟨.post, E.registerUrl, token, .registerTable table table_type⟩ ch = some (x, s₂) := by
    have : (s.request.bind fun req => E.reply { s with uc, store } req ch) = some (x, s₂) := ha
    rwa [hreq] at this
  have done : ∀ (spelled : Option String) (uc' : CatalogView),
      E.processIf uc spelled = some uc' →
      E.CreateInv G { s with uc := uc', store, request := none } := fun spelled uc' h =>
    ⟨hs.own, hs.removals, fun hG hm f hf hfind =>
      (processIf_spec h).2 _ (hs.removing hG hm f hf hfind)⟩
  cases ch with
  | respond resp spelled =>
    simp only [reply] at hreply
    obtain ⟨uc', huc, hreply⟩ := Option.bind_eq_some_iff.1 hreply
    split at hreply
    · split at hreply
      · obtain ⟨rfl, rfl⟩ := Prod.mk.inj (Option.some.inj hreply)
        exact ⟨done _ _ huc, no_others, hk⟩
      · cases hreply
    · obtain ⟨rfl, rfl⟩ := Prod.mk.inj (Option.some.inj hreply)
      exact ⟨done _ _ huc, no_others, hk⟩
  | fail e spelled =>
    obtain ⟨uc', huc, heq⟩ := Option.map_eq_some_iff.1 hreply
    obtain ⟨rfl, rfl⟩ := Prod.mk.inj heq
    exact ⟨done _ _ huc, no_others, hk⟩
  | _ => cases hreply

/-- `CreateTable`, while the cleanup has not begun. -/
theorem safe_createTable {table : UCAPICommittedTable} {table_type : String}
    (hs : E.CreateInv G s) (hk : s.log = k) (hrem : k.removing = false) :
    (E.creating G).Safe () (UCAPI.createTable E.set.catalog_name E.set.schema_name table table_type
      E.set.credentials) (fun _ s => s.log = k) s := by
  have hstable : (E.creating G).Stable () fun s : CreateState => s.log = k :=
    stable_log fun l => l = k
  have throws : ∀ (e : Exception) (s : CreateState), E.CreateInv G s → s.log = k →
      (E.creating G).Safe () (Prog.throw e : Run Unit) (fun _ (s : CreateState) => s.log = k) s :=
    fun e s hs h =>
      Outline.safe_ofExcept (O := E.creating G) (x := .error e) hstable hs h
  rw [UCAPI.createTable_eq]
  refine Outline.Safe.bind (Q := fun _ (s : CreateState) => s.log = k)
    (Outline.safe_ofExcept hstable hs hk) hs ?_ fun e s₁ hs₁ h => throws e s₁ hs₁ h
  rintro - s₁ hs₁ hk₁
  refine Outline.Safe.bind (safe_ensureHttpfs hk₁) hs₁ ?_ fun e s₂ hs₂ h => throws e s₂ hs₂ h.2
  rintro - s₂ hs₂ ⟨-, hk₂⟩
  refine Outline.Safe.bind (safe_issueRegister hk₂ hrem) hs₂ ?_
    fun e s₃ hs₃ h => throws e s₃ hs₃ h.2.2
  rintro - s₃ hs₃ ⟨-, hreq, hk₃⟩
  refine Outline.Safe.bind (safe_registerAnswer hk₃ hreq) hs₃ ?_
    fun e s₄ hs₄ h => throws e s₄ hs₄ h
  exact fun resp s₄ hs₄ hk₄ => Outline.safe_ofExcept hstable hs₄ hk₄

/-! ## Writing version 0 -/

/-- The cleanup has not begun. -/
structure Untouched (l : CreateLog) : Prop where
  asked : l.asked = false
  unanswered : l.unanswered = false
  removing : l.removing = false
  stuck : l.stuck = false
  removals : l.removals = []

/-- What was read back describes the table. -/
def Describes (E : ExternalCreate) (text : String) : Bool :=
  (parseCommittedTable E.info.table_name E.location text).isOk

/-- Nothing is written. -/
structure NotWritten (l : CreateLog) : Prop extends Untouched l where
  written : l.written = false

/-- Version 0 is written, and nothing has failed since. -/
structure Written (l : CreateLog) : Prop extends Untouched l where
  written : l.written = true
  files : l.files ≠ []
  wrote : l.wrote = l.files
  halted : l.halted = false

/-- Version 0 is written, and something has failed that the cleanup does not see. -/
structure Abandoned (E : ExternalCreate) (l : CreateLog) : Prop extends Untouched l where
  written : l.written = true
  files : l.files ≠ []
  failed : l.halted = true ∨ ∃ text, l.contents = some text ∧ E.Describes text = false

/-- Version 0 is written and read back: it can be registered. -/
structure Registrable (E : ExternalCreate) (l : CreateLog) : Prop extends Written l where
  contents : ∃ text, l.contents = some text ∧ E.Describes text = true

/-- What `WriteVersionZero` returns, and in which log. -/
def Committed (E : ExternalCreate) (committed : UCAPICommittedTable) (l : CreateLog) : Prop :=
  E.Registrable l ∧ committed.name = E.info.table_name

/-- What a program that returns, and one that throws, leaves in the log. -/
def Yields {α : Type} (A : α → CreateLog → Prop) (B : CreateLog → Prop) (r : Except Exception α)
    (l : CreateLog) : Prop :=
  match r with
  | .ok a => A a l
  | .error _ => B l

variable {α β : Type} {A : α → CreateLog → Prop} {A' : β → CreateLog → Prop} {B : CreateLog → Prop}

/-- Sequencing of programs that leave the same when they throw. -/
theorem Yields.bind {p : Run α} {f : α → Run β} (hs : E.CreateInv G s)
    (hp : (E.creating G).Safe () p (fun r s => Yields A B r s.log) s)
    (hf : ∀ a s, E.CreateInv G s → A a s.log →
      (E.creating G).Safe () (f a) (fun r s => Yields A' B r s.log) s) :
    (E.creating G).Safe () (p.bind f) (fun r s => Yields A' B r s.log) s :=
  hp.bind hs hf fun e _ hs h =>
    Outline.safe_ofExcept (O := E.creating G) (x := .error e) (stable_log (Yields A' B _)) hs h

theorem Yields.ofExcept {x : Except Exception α} (hs : E.CreateInv G s) (h : Yields A B x s.log) :
    (E.creating G).Safe () (Prog.ofExcept x) (fun r s => Yields A B r s.log) s :=
  Outline.safe_ofExcept (stable_log (Yields A B _)) hs h

theorem Untouched.halt {l : CreateLog} (h : Untouched l) : Untouched { l with halted := true } :=
  ⟨h.asked, h.unanswered, h.removing, h.stuck, h.removals⟩

theorem Written.abandon {l : CreateLog} (h : Written l) : E.Abandoned { l with halted := true } :=
  ⟨h.toUntouched.halt, h.written, h.files, .inl rfl⟩

/-- Nothing is written, or it is abandoned. -/
def Lost (E : ExternalCreate) (l : CreateLog) : Prop := NotWritten l ∨ E.Abandoned l

theorem Lost.halt {l : CreateLog} (h : E.Lost l) : E.Lost { l with halted := true } := by
  rcases h with h | h
  · exact .inl ⟨h.toUntouched.halt, h.written⟩
  · exact .inr ⟨h.toUntouched.halt, h.written, h.files, .inl rfl⟩

/-- Opening and reading version 0. -/
theorem safe_openLog {path : String} (hw : Written s.log) :
    (E.creating G).Safe () (openRead path) (fun r s =>
      Yields (fun _ => Written) E.Lost r s.log) s := by
  refine safe_op (R := Yields (fun _ => Written) E.Lost) rfl ?_
  intro u ch x u' ha hk
  rw [← hk] at hw
  cases ch <;> cases ha
  · exact ⟨⟨rfl, rfl, rfl, rfl, rfl⟩, .inr hw.abandon⟩
  · exact ⟨⟨rfl, rfl, rfl, rfl, rfl⟩, hw⟩

theorem safe_readLog {path : String} (hw : Written s.log) :
    (E.creating G).Safe () (readText path)
      (fun r s => Yields (fun text l => Written l ∧ l.contents = some text) E.Lost r s.log) s := by
  refine safe_op (R := Yields (fun (text : Op.Ans (.readText path)) l =>
    Written l ∧ l.contents = some text) E.Lost) rfl ?_
  intro u ch x u' ha hk
  rw [← hk] at hw
  cases ch <;> cases ha
  · exact ⟨⟨rfl, rfl, rfl, rfl, rfl⟩, .inr hw.abandon⟩
  · exact ⟨⟨rfl, rfl, rfl, rfl, rfl⟩,
      ⟨⟨hw.asked, hw.unanswered, hw.removing, hw.stuck, hw.removals⟩, hw.written, hw.files,
        hw.wrote, hw.halted⟩, rfl⟩

/-- `ReadCommittedTable` of what was written. -/
theorem safe_readCommittedTable (hs : E.CreateInv G s) (hw : Written s.log) :
    (E.creating G).Safe () (readCommittedTable E.info.table_name E.location)
      (fun r s => Yields E.Committed E.Lost r s.log) s := by
  refine Yields.bind hs (safe_openLog hw) fun _ s₁ hs₁ hw₁ => ?_
  refine Yields.bind hs₁ (safe_readLog hw₁) fun text s₂ hs₂ ⟨hw₂, hc₂⟩ => ?_
  refine Yields.ofExcept hs₂ ?_
  rcases hp : parseCommittedTable E.info.table_name E.location text with e | committed
  · refine .inr ⟨hw₂.toUntouched, hw₂.written, hw₂.files, .inr ⟨text, hc₂, ?_⟩⟩
    rw [Describes, hp]
    rfl
  · refine ⟨⟨hw₂, text, hc₂, ?_⟩, parseCommittedTable_name hp⟩
    rw [Describes, hp]
    rfl

/-- The Delta catalog's `CreateTable`: it may throw after it has written. -/
theorem safe_deltaCreateTable {db : AttachedDatabase} (hn : NotWritten s.log)
    (hhalt : s.log.halted = false) :
    (E.creating G).Safe () (deltaCreateTable db)
      (fun r s => Yields (fun _ => Written) E.Lost r s.log) s := by
  refine Outline.safe_perform (fun r => stable_log (Yields (fun _ => Written) E.Lost r)) ?_
  rintro _ ⟨uc, store, rfl, -⟩ (hs : E.CreateInv G _) ch x s₂ - ha
  cases ch with
  | wrote files e =>
    simp only [creates, createAnswer] at ha
    split at ha
    · rename_i hfiles
      obtain ⟨rfl, rfl⟩ := Prod.mk.inj (Option.some.inj ha)
      refine ⟨⟨fun f hf => List.mem_append_left _ hf, hs.removals, fun hG hm => ?_⟩, no_others, ?_⟩
      · exact absurd (hn.removing.symm.trans hm) Bool.false_ne_true
      have hu : Untouched { s.log with
          wrote := files, files := files, written := true, halted := s.log.halted || e.isSome } :=
        ⟨hn.asked, hn.unanswered, hn.removing, hn.stuck, hn.removals⟩
      cases e with
      | none => exact ⟨hu, rfl, hfiles.1, rfl, by simp [hhalt]⟩
      | some e => exact .inr ⟨hu, rfl, hfiles.1, .inl (by simp)⟩
    · cases ha
  | fail e spelled =>
    obtain ⟨rfl, rfl⟩ := Prod.mk.inj (Option.some.inj ha)
    exact ⟨hs.same ⟨rfl, rfl, rfl, rfl, rfl⟩, no_others, .inl hn⟩
  | _ => cases ha

theorem safe_detachDatabase {name : String} {C : CreateLog → Prop} (hA : C s.log)
    (hB : ∀ l, C l → E.Lost { l with halted := true }) :
    (E.creating G).Safe () (detachDatabase name)
      (fun r s => Yields (fun _ => C) E.Lost r s.log) s := by
  refine safe_op (R := Yields (fun _ => C) E.Lost) rfl ?_
  intro u ch x u' ha hk
  rw [← hk] at hA
  cases ch <;> cases ha
  · exact ⟨⟨rfl, rfl, rfl, rfl, rfl⟩, hA⟩
  · exact ⟨⟨rfl, rfl, rfl, rfl, rfl⟩, hB _ hA⟩

/-- `WriteVersionZero` -/
theorem safe_writeVersionZero {attach_info : AttachInfo} (hs : E.CreateInv G s)
    (hn : NotWritten s.log) (hhalt : s.log.halted = false) :
    (E.creating G).Safe () (writeVersionZero attach_info E.info.table_name E.location)
      (fun r s => Yields E.Committed E.Lost r s.log) s := by
  refine Yields.bind (A := fun _ l => NotWritten l ∧ l.halted = false) hs ?_ ?_
  · refine safe_op (R := Yields (fun _ l => NotWritten l ∧ l.halted = false) E.Lost) rfl ?_
    intro u ch x u' ha hk
    rw [← hk] at hn hhalt
    cases ch <;> cases ha
    · exact ⟨⟨rfl, rfl, rfl, rfl, rfl⟩, hn, hhalt⟩
    · exact ⟨⟨rfl, rfl, rfl, rfl, rfl⟩, .inl hn⟩
  · rintro db s₁ hs₁ ⟨hn₁, hhalt₁⟩
    refine Yields.bind (A := E.Committed) hs₁ ?_ fun committed s₂ hs₂ ⟨hr₂, hname⟩ => ?_
    · refine Outline.Safe.tryCatch (Q := fun r (s : CreateState) =>
        Yields E.Committed E.Lost r s.log) ?_ hs₁ ?_ ?_
      · exact Yields.bind hs₁ (safe_deltaCreateTable hn₁ hhalt₁) fun _ s₂ hs₂ hw₂ =>
          safe_readCommittedTable hs₂ hw₂
      · exact fun committed s₂ hs₂ hr₂ => Yields.ofExcept (x := .ok committed) hs₂ hr₂
      · intro e s₂ hs₂ (hl₂ : E.Lost s₂.log)
        -- the database is detached, and where that fails too, what failed first is thrown
        refine Yields.bind (A := fun _ => E.Lost) hs₂ ?_ fun _ s₃ hs₃ hl₃ =>
          Yields.ofExcept (x := .error e) hs₃ hl₃
        refine Outline.Safe.tryCatch (Q := fun r (s : CreateState) =>
          Yields (fun _ => E.Lost) E.Lost r s.log)
          (safe_detachDatabase hl₂ fun _ h => h.halt) hs₂ ?_ ?_
        · exact fun a s₃ hs₃ hl₃ => Yields.ofExcept (x := .ok a) hs₃ hl₃
        · exact fun e s₃ hs₃ hl₃ => Yields.ofExcept (x := .ok ()) hs₃ hl₃
    · refine Yields.bind hs₂ (safe_detachDatabase (C := E.Registrable) hr₂
        fun _ h => .inr h.toWritten.abandon) fun _ s₃ hs₃ hr₃ => ?_
      exact Yields.ofExcept (x := .ok committed) hs₃ ⟨hr₃, hname⟩

/-! ## Registering it -/

theorem Found.same {r : Except Exception Bool} (h : Found k r s) (hasked : k.asked = false) :
    s.log = k := by
  have hnot : ∀ b, (k.asked && b) = false := fun b => by rw [hasked, Bool.false_and]
  cases r with
  | ok found =>
    refine Eq.trans h ?_
    rw [hnot, Bool.or_false]
  | error e =>
    have hnone : (k.unanswered || k.asked) = k.unanswered := by rw [hasked, Bool.or_false]
    refine Eq.trans h ?_
    rw [hnone]

theorem Loaded.same {r : Except Exception UCAPICommitsResult} (h : E.Loaded k r s)
    (hasked : k.asked = false) : s.log = k := by
  have hnot : ∀ b, (k.asked && b) = false := fun b => by rw [hasked, Bool.false_and]
  cases r with
  | ok result =>
    refine h.2.trans ?_
    rw [hnot, Bool.or_false]
  | error e =>
    have hnone : (k.unanswered || k.asked) = k.unanswered := by rw [hasked, Bool.or_false]
    refine h.trans ?_
    rw [hnone]

/-- `RegisterTable`, whatever comes of it. -/
theorem safe_registerTable {committed : UCAPICommittedTable}
    {is_ours : UCAPICommitsResult → Bool} (hs : E.CreateInv G s) (hc : E.Committed committed k)
    (hk : s.log = k) :
    (E.creating G).Safe () (registerTable E.set committed "EXTERNAL" is_ours)
      (fun _ s => s.log = k) s := by
  have hstable : (E.creating G).Stable () fun s : CreateState => s.log = k :=
    stable_log fun l => l = k
  obtain ⟨hr, hname⟩ := hc
  refine Outline.Safe.tryCatch (Q := fun _ (s : CreateState) => s.log = k)
    (safe_createTable hs hk hr.removing) hs
    (fun a s₁ hs₁ hk₁ => Outline.safe_ofExcept (x := .ok a) hstable hs₁ hk₁) ?_
  intro e s₁ hs₁ hk₁
  split
  · exact Outline.safe_ofExcept (O := E.creating G) (x := .error e) hstable hs₁ hk₁
  · -- an unclear outcome is looked up
    rw [hname]
    refine Outline.Safe.bind (Q := fun _ (s : CreateState) => s.log = k) ?_ hs₁ ?_
      fun e s₂ hs₂ hk₂ =>
        Outline.safe_ofExcept (O := E.creating G) (x := .error e) hstable hs₂ hk₂
    · refine Outline.Safe.tryCatch (Q := fun _ (s : CreateState) => s.log = k) ?_ hs₁
        (fun a s₂ hs₂ hk₂ => Outline.safe_ofExcept (x := .ok a) hstable hs₂ hk₂)
        fun e s₂ hs₂ hk₂ => Outline.safe_ofExcept (x := .ok false) hstable hs₂ hk₂
      refine Outline.Safe.bind (safe_loadTable hs₁ hk₁) hs₁ ?_ ?_
      · exact fun loaded s₂ hs₂ h =>
          Outline.safe_ofExcept (x := .ok (is_ours loaded)) hstable hs₂ (h.same hr.asked)
      · exact fun e s₂ hs₂ h =>
          Outline.safe_ofExcept (O := E.creating G) (x := .error e) hstable hs₂ (h.same hr.asked)
    · intro registered s₂ hs₂ hk₂
      cases registered with
      | false => exact Outline.safe_ofExcept (O := E.creating G) (x := .error e) hstable hs₂ hk₂
      | true => exact Outline.safe_ofExcept (x := .ok ()) hstable hs₂ hk₂

/-! ## The cleanup -/

/-- Version 0 is written and read back, and nothing failed on the way. -/
structure ReadBack (E : ExternalCreate) (l : CreateLog) : Prop where
  written : l.written = true
  halted : l.halted = false
  contents : ∃ text, l.contents = some text ∧ E.Describes text = true

/-- The cleanup was told that it may remove version 0, and has not begun. -/
structure Deciding (E : ExternalCreate) (l : CreateLog) : Prop extends E.ReadBack l where
  removing : l.removing = true
  unanswered : l.unanswered = false
  stuck : l.stuck = false
  files : l.files ≠ []
  wrote : l.wrote = l.files

/-- It has `fs` left to remove: all it finds of what the create wrote and that is there still. -/
structure Removing (E : ExternalCreate) (fs : List String) (l : CreateLog) : Prop
    extends E.ReadBack l where
  removing : l.removing = true
  unanswered : l.unanswered = false
  stuck : l.stuck = false
  finds : ∀ f ∈ fs, E.Finds f
  listed : ∀ f ∈ l.files, E.Finds f → f ∈ fs
  wrote : ∀ f ∈ l.files, f ∈ l.wrote
  gone : ∀ f ∈ l.wrote, f ∈ l.files ∨ E.Finds f

/-- Some of what the create wrote has stayed: something failed, or the cleanup does not find it. -/
structure Kept (E : ExternalCreate) (l : CreateLog) : Prop extends E.ReadBack l where
  unanswered : l.unanswered = false
  files : l.files ≠ []
  failed : l.stuck = true ∨ ∃ f ∈ l.wrote, ¬ E.Finds f

/-- All of it was found and is removed. -/
structure Removed (E : ExternalCreate) (l : CreateLog) : Prop where
  stuck : l.stuck = false
  files : l.files = []
  finds : ∀ f ∈ l.wrote, E.Finds f

/-- The cleanup has got through: UC lists the table, or did not say, or the files are removed. -/
structure Settled (E : ExternalCreate) (s : CreateState) : Prop extends E.ReadBack s.log where
  stuck : s.log.stuck = false
  settled : s.log.unanswered = true ∨ E.Lists s.uc ∨ E.Removed s.log

/-- How the removal ends. -/
def Ended (E : ExternalCreate) (l : CreateLog) : Prop :=
  E.Kept l ∨ E.ReadBack l ∧ E.Removed l

/-- Whatever ends it, nothing is left or there is a reason that something is. -/
theorem Removing.ended {fs : List String} {l : CreateLog} (h : E.Removing fs l)
    (hleft : l.files ≠ [] → ∃ f ∈ l.wrote, ¬ E.Finds f) : E.Ended l := by
  by_cases hfiles : l.files = []
  · refine .inr ⟨h.toReadBack, h.stuck, hfiles, fun f hf => ?_⟩
    refine (h.gone f hf).resolve_left fun hmem => ?_
    rw [hfiles] at hmem
    exact List.not_mem_nil hmem
  · exact .inl ⟨h.toReadBack, h.unanswered, hfiles, .inr (hleft hfiles)⟩

/-- The loop has come to its end: what is left was not found. -/
theorem Removing.done {l : CreateLog} (h : E.Removing [] l) : E.Ended l := by
  refine h.ended fun hne => ?_
  obtain ⟨f, hf⟩ := List.exists_mem_of_ne_nil _ hne
  exact ⟨f, h.wrote f hf, fun hfind => List.not_mem_nil (h.listed f hf hfind)⟩

/-- An operation of the cleanup fails. -/
theorem Removing.fail {fs : List String} {l : CreateLog} (h : E.Removing fs l) :
    E.Ended { l with stuck := l.stuck || !l.files.isEmpty } := by
  by_cases hfiles : l.files = []
  · have hstuck : (l.stuck || !l.files.isEmpty) = l.stuck := by
      rw [hfiles, List.isEmpty_nil, Bool.not_true, Bool.or_false]
    rw [hstuck]
    exact h.ended fun hne => absurd hfiles hne
  · refine .inl ⟨⟨h.written, h.halted, h.contents⟩, h.unanswered, hfiles, .inl ?_⟩
    rw [List.isEmpty_eq_false_iff.2 hfiles, Bool.not_false, Bool.or_true]

/-- What the cleanup knows after it has asked. -/
def Looked (E : ExternalCreate) (r : Except Exception Bool) (s : CreateState) : Prop :=
  match r with
  | .ok true | .error _ => E.Settled s
  | .ok false => E.Deciding s.log

theorem stable_settled : (E.creating G).Stable () E.Settled := by
  rintro s - ⟨uc, store, rfl, ht⟩ - - h
  refine ⟨h.toReadBack, h.stuck, ?_⟩
  rcases h.settled with h | h | h
  · exact .inl h
  · exact .inr (.inl (lists_mono ht h))
  · exact .inr (.inr h)

theorem stable_looked (r : Except Exception Bool) : (E.creating G).Stable () (E.Looked r) := by
  rcases r with e | (_ | _)
  · exact stable_settled
  · exact stable_log E.Deciding
  · exact stable_settled

/-- The lookups of the cleanup. -/
theorem safe_listedAtLocation (hs : E.CreateInv G s) (hr : E.Registrable s.log) :
    (E.creating G).Safe () (listedAtLocation E.set E.info.table_name E.location) E.Looked s := by
  have hk : E.asking s.log E.lookupUrl = { s.log with asked := true } := by
    have hnow : (s.log.asked || (s.log.written && E.lookupUrl == E.lookupUrl)) = true := by
      rw [hr.written, beq_self_eq_true, Bool.and_true, Bool.or_true]
    rw [asking, hnow]
  have hback : ∀ l : CreateLog, l.written = s.log.written → l.halted = s.log.halted →
      l.contents = s.log.contents → E.ReadBack l := fun l hw hh hc =>
    ⟨hw.trans hr.written, hh.trans hr.halted, hc ▸ hr.contents⟩
  -- no answer, no removal
  have hcannot : ∀ u : CreateState,
      u.log = { s.log with asked := true, unanswered := true } → E.Settled u := fun u hu =>
    ⟨by rw [hu]; exact hback _ rfl rfl rfl, by rw [hu]; exact hr.stuck, .inl (by rw [hu])⟩
  have hmay : ∀ u : CreateState, u.log = { s.log with asked := true, removing := true } →
      E.Looked (.ok false) u := by
    intro u hu
    show E.Deciding u.log
    rw [hu]
    exact ⟨hback _ rfl rfl rfl, rfl, hr.unanswered, hr.stuck, hr.files, hr.wrote⟩
  refine Outline.Safe.bind (safe_tableExists hs rfl) hs ?_ ?_
  · intro found s₁ hs₁ (h₁ : s₁.log = _)
    rw [hk] at h₁
    cases found with
    | false =>
      refine Outline.safe_ofExcept (x := .ok false) (stable_looked _) hs₁ (hmay s₁ ?_)
      rw [h₁, hr.removing]
      rfl
    | true =>
      have h₁' : s₁.log = { s.log with asked := true } := by
        rw [h₁]
        simp only [Bool.not_true, Bool.and_false, Bool.or_false]
      refine Outline.Safe.bind (safe_loadTable hs₁ h₁') hs₁ ?_ ?_
      · rintro loaded s₂ hs₂ ⟨hmem, h₂⟩
        refine Outline.safe_ofExcept (stable_looked _) hs₂
          (x := .ok (comparableLocation loaded.location == comparableLocation E.location)) ?_
        rcases hb : comparableLocation loaded.location == comparableLocation E.location with _ | _
        · refine hmay s₂ ?_
          rw [h₂, hr.removing, bne, hb]
          rfl
        · have hlog : s₂.log = { s.log with asked := true } := by
            rw [h₂, bne, hb]
            simp only [Bool.not_true, Bool.and_false, Bool.or_false]
          refine ⟨by rw [hlog]; exact hback _ rfl rfl rfl, by rw [hlog]; exact hr.stuck, ?_⟩
          exact .inr (.inl ⟨_, hmem, E.comparable _ _ (beq_iff_eq.1 hb)⟩)
      · intro e s₂ hs₂ (h₂ : s₂.log = _)
        refine Outline.safe_ofExcept (O := E.creating G) (x := .error e) (stable_looked _) hs₂
          (hcannot s₂ ?_)
        rw [h₂]
        simp only [Bool.or_true]
  · intro e s₁ hs₁ (h₁ : s₁.log = _)
    rw [hk] at h₁
    refine Outline.safe_ofExcept (O := E.creating G) (x := .error e) (stable_looked _) hs₁
      (hcannot s₁ ?_)
    rw [h₁]
    simp only [Bool.or_true]

/-- The pattern finds what it matches, among it what the create wrote and it matches. -/
theorem safe_glob (hd : E.Deciding s.log) :
    (E.creating G).Safe () (glob (versionZeroPattern E.location))
      (fun r s => Yields E.Removing E.Ended r s.log) s := by
  refine Outline.safe_perform (fun r => stable_log (Yields E.Removing E.Ended r)) ?_
  rintro _ ⟨uc, store, rfl, -⟩ (hs : E.CreateInv G _) ch x s₂ - ha
  cases ch with
  | listed files =>
    simp only [creates, createAnswer] at ha
    split at ha
    · rename_i hlist
      obtain ⟨rfl, rfl⟩ := Prod.mk.inj (Option.some.inj ha)
      refine ⟨hs, no_others, hd.toReadBack, hd.removing, hd.unanswered, hd.stuck, ?_, ?_, ?_, ?_⟩
      · exact fun f hf => (hlist.1 f hf).2
      · exact fun f hf hfind => hlist.2 f (hs.own f hf) hfind
      · exact fun f hf => hd.wrote ▸ hf
      · exact fun f hf => .inl (hd.wrote ▸ hf)
    · cases ha
  | fail e spelled =>
    obtain ⟨rfl, rfl⟩ := Prod.mk.inj (Option.some.inj ha)
    refine ⟨hs.same ⟨rfl, rfl, rfl, rfl, rfl⟩, no_others, .inl ?_⟩
    refine ⟨⟨hd.written, hd.halted, hd.contents⟩, hd.unanswered, hd.files, .inl ?_⟩
    show (s.log.stuck || !s.log.files.isEmpty) = true
    rw [List.isEmpty_eq_false_iff.2 hd.files, Bool.not_false, Bool.or_true]
  | _ => cases ha

/-- One file less. -/
theorem Removing.remove {file : String} {fs : List String} {l : CreateLog} {uc : CatalogView}
    (h : E.Removing (file :: fs) l) : E.Removing fs { l with
      files := l.files.filter (· ≠ file), removals := (file, uc) :: l.removals } := by
  refine ⟨⟨h.written, h.halted, h.contents⟩, h.removing, h.unanswered, h.stuck, ?_, ?_, ?_, ?_⟩
  · exact fun f hf => h.finds f (List.mem_cons_of_mem _ hf)
  · intro f hf hfind
    obtain ⟨hmem, hne⟩ := List.mem_filter.1 hf
    exact (List.mem_cons.1 (h.listed f hmem hfind)).resolve_left (of_decide_eq_true hne)
  · exact fun f hf => h.wrote f (List.mem_filter.1 hf).1
  · intro f hf
    by_cases heq : f = file
    · exact .inr (heq ▸ h.finds file List.mem_cons_self)
    · exact (h.gone f hf).imp_left fun hmem => List.mem_filter.2 ⟨hmem, decide_eq_true heq⟩

/-- One removal: under the condition no registered table owns the file. -/
theorem safe_removeFile {file : String} {fs : List String} (hr : E.Removing (file :: fs) s.log) :
    (E.creating G).Safe () (removeFile file)
      (fun r s => Yields (fun _ => E.Removing fs) E.Ended r s.log) s := by
  refine Outline.safe_perform (fun r => stable_log (Yields (fun _ => E.Removing fs) E.Ended r)) ?_
  rintro _ ⟨uc, store, rfl, -⟩ (hs : E.CreateInv G _) ch x s₂ - ha
  cases ch with
  | proceed =>
    simp only [creates, createAnswer] at ha
    split at ha
    · rename_i hmem
      obtain ⟨rfl, rfl⟩ := Prod.mk.inj (Option.some.inj ha)
      have hfind := hr.finds file List.mem_cons_self
      refine ⟨⟨fun f hf => ?_, fun hG r hr' => ?_, fun hG hm f hf => ?_⟩, no_others, hr.remove⟩
      · obtain ⟨hf, hne⟩ := List.mem_filter.1 hf
        exact List.mem_filter.2 ⟨hs.own f hf, hne⟩
      · rcases List.mem_cons.1 hr' with rfl | hr'
        · exact hs.removing hG hr.removing file hmem hfind
        · exact hs.removals hG r hr'
      · exact hs.removing hG hm f (List.mem_filter.1 hf).1
    · cases ha
  | fail e spelled =>
    obtain ⟨rfl, rfl⟩ := Prod.mk.inj (Option.some.inj ha)
    exact ⟨hs.same ⟨rfl, rfl, rfl, rfl, rfl⟩, no_others, hr.fail⟩
  | _ => cases ha

/-- The loop removes all of them, or stops at the first that fails. -/
theorem safe_removeFiles {fs : List String} : ∀ {s : CreateState}, E.CreateInv G s →
    E.Removing fs s.log → (E.creating G).Safe () (removeFiles fs)
      (fun r s => Yields (fun _ => E.Ended) E.Ended r s.log) s := by
  induction fs with
  | nil =>
    intro s hs hr
    exact Yields.ofExcept (x := .ok ()) hs hr.done
  | cons file fs ih =>
    intro s hs hr
    exact Yields.bind hs (safe_removeFile hr) fun _ s₁ hs₁ hr₁ => ih hs₁ hr₁

/-- How the cleanup ends. -/
def Cleaned (E : ExternalCreate) (s : CreateState) : Prop := E.Settled s ∨ E.Kept s.log

theorem Ended.cleaned (h : E.Ended s.log) : E.Cleaned s :=
  h.elim .inr fun h => .inl ⟨h.1, h.2.stuck, .inr (.inr h.2)⟩

theorem stable_cleaned : (E.creating G).Stable () E.Cleaned := by
  intro s t hr hs ht h
  rcases h with h | h
  · exact .inl (stable_settled s t hr hs ht h)
  · exact .inr (stable_log E.Kept s t hr hs ht h)

/-- `RemoveUnregisteredVersionZero` -/
theorem safe_removeUnregisteredVersionZero (hs : E.CreateInv G s) (hr : E.Registrable s.log) :
    (E.creating G).Safe () (removeUnregisteredVersionZero E.set E.info.table_name E.location)
      (fun _ => E.Cleaned) s := by
  refine Outline.Safe.tryCatch (Q := fun _ => E.Cleaned) ?_ hs
    (fun a s₁ hs₁ h => Outline.safe_ofExcept (x := .ok a) stable_cleaned hs₁ h)
    fun e s₁ hs₁ h => Outline.safe_ofExcept (x := .ok ()) stable_cleaned hs₁ h
  refine Outline.Safe.bind (safe_listedAtLocation hs hr) hs ?_ fun e s₁ hs₁ h =>
    Outline.safe_ofExcept (O := E.creating G) (x := .error e) stable_cleaned hs₁ (.inl h)
  intro listed s₁ hs₁ h₁
  cases listed with
  | true => exact Outline.safe_ofExcept (x := .ok ()) stable_cleaned hs₁ (.inl h₁)
  | false =>
    refine Outline.Safe.bind (safe_glob h₁) hs₁ ?_ fun e s₂ hs₂ (h : E.Ended s₂.log) =>
      Outline.safe_ofExcept (O := E.creating G) (x := .error e) stable_cleaned hs₂ h.cleaned
    intro files s₂ hs₂ hr₂
    refine Outline.Safe.mono (safe_removeFiles hs₂ hr₂) fun r s₃ h => ?_
    cases r <;> exact Ended.cleaned h

/-! ## The whole create -/

/-- How a create that throws ends. -/
def Failed (E : ExternalCreate) (r : Except Exception Unit) (s : CreateState) : Prop :=
  match r with
  | .ok _ => True
  | .error _ => E.Lost s.log ∨ E.Cleaned s

theorem stable_failed (r : Except Exception Unit) : (E.creating G).Stable () (E.Failed r) := by
  rcases r with e | -
  · intro s t hr hs ht h
    rcases h with h | h
    · exact .inl (stable_log E.Lost s t hr hs ht h)
    · exact .inr (stable_cleaned s t hr hs ht h)
  · exact Outline.stable_const True

theorem safe_registerVersionZero {committed : UCAPICommittedTable} (hs : E.CreateInv G s)
    (hc : E.Committed committed s.log) :
    (E.creating G).Safe () (registerVersionZero E.set E.info E.location committed) E.Failed s := by
  refine Outline.Safe.tryCatch (safe_registerTable hs hc rfl) hs
    (fun a s₁ hs₁ _ => Outline.safe_ofExcept (x := .ok a) (stable_failed _) hs₁ trivial) ?_
  intro e s₁ hs₁ hk₁
  have hr : E.Registrable s₁.log := hk₁ ▸ hc.1
  refine Outline.Safe.bind (safe_removeUnregisteredVersionZero hs₁ hr) hs₁ ?_ fun e s₂ hs₂ h =>
    Outline.safe_ofExcept (O := E.creating G) (x := .error e) (stable_failed _) hs₂ (.inr h)
  intro _ s₂ hs₂ h₂
  split
  · exact Outline.safe_ofExcept (x := .ok ()) (stable_failed _) hs₂ trivial
  · exact Outline.safe_ofExcept (O := E.creating G) (x := .error e) (stable_failed _) hs₂ (.inr h₂)

theorem safe_randomUUID (hk : s.log = k) :
    (E.creating G).Safe () randomUUID (fun _ s => s.log = k) s := by
  refine safe_op (R := fun _ l => l = k) hk ?_
  intro u ch x u' ha hk
  cases ch <;> cases ha
  exact ⟨⟨rfl, rfl, rfl, rfl, rfl⟩, hk⟩

/-- `CreateTable` with a location, from a state in which it has just started. -/
theorem safe_program (hs : E.CreateInv G s) (hn : NotWritten s.log) (hhalt : s.log.halted = false) :
    (E.creating G).Safe () E.program E.Failed s := by
  have throws : ∀ (e : Exception) (u : CreateState), E.CreateInv G u → E.Lost u.log →
      (E.creating G).Safe () (Prog.throw e : Run Unit) E.Failed u := fun e u hu h =>
    Outline.safe_ofExcept (O := E.creating G) (x := .error e) (stable_failed _) hu (.inl h)
  rw [program, UCTableSet.createExternalTable]
  split
  · exact throws _ s hs (.inl hn)
  · rcases hl : externalLocation E.info.location with e | location
    · exact throws e s hs (.inl hn)
    · have hloc : location = E.location := by
        rw [ExternalCreate.location, externalLocation_ok hl, Option.getD_some]
      subst hloc
      have hask : E.asking s.log E.lookupUrl = s.log := by
        have hnone : (s.log.asked || (s.log.written && E.lookupUrl == E.lookupUrl)) =
            s.log.asked := by
          rw [hn.written, Bool.false_and, Bool.or_false]
        rw [asking, hnone]
      have hsame : ∀ {r : Except Exception Bool} {u : CreateState},
          Found (E.asking s.log E.lookupUrl) r u → u.log = s.log := fun h => by
        rw [hask] at h
        exact h.same hn.asked
      refine Outline.Safe.bind (p := UCAPI.tableExists E.set.catalog_name E.set.schema_name
        E.info.table_name E.set.credentials) (safe_tableExists hs rfl) hs ?_
        fun e s₁ hs₁ h => throws e s₁ hs₁ (.inl (hsame h ▸ hn))
      intro found s₁ hs₁ h
      have hk₁ := hsame h
      cases found with
      | true =>
        simp only [if_true]
        split
        · exact Outline.safe_ofExcept (x := .ok ()) (stable_failed _) hs₁ trivial
        · exact throws _ s₁ hs₁ (.inl (hk₁ ▸ hn))
      | false =>
        refine Outline.Safe.bind (safe_randomUUID hk₁) hs₁ ?_
          fun e s₂ hs₂ hk₂ => throws e s₂ hs₂ (.inl (hk₂ ▸ hn))
        intro uuid s₂ hs₂ hk₂
        refine Outline.Safe.bind (safe_writeVersionZero hs₂ (hk₂ ▸ hn) (hk₂ ▸ hhalt)) hs₂ ?_
          fun e s₃ hs₃ h₃ => throws e s₃ hs₃ h₃
        exact fun committed s₃ hs₃ h₃ => safe_registerVersionZero hs₃ h₃

theorem creating_sound {cfg : E.creates.Config}
    (h : E.creates.system.ReachableWhile (E.creating G).guard.Meets cfg) :
    E.CreateInv G cfg.state ∧
      ∀ c p, cfg.threads c = some p → (E.creating G).Safe c p E.Failed cfg.state := by
  refine Outline.sound (O := E.creating G) (Q := fun _ => E.Failed) ?_ ?_ ?_ ?_ h
  · intro (s : CreateState) hs
    rw [show s = { uc := { tables := s.uc.tables }, store := s.store } from hs]
    exact ⟨nofun, fun _ => nofun, fun _ => nofun⟩
  · intro (s : CreateState) c call p s' hs hst
    simp only [creates] at hst
    split at hst
    · cases hst
    · obtain ⟨rfl, rfl⟩ := Prod.mk.inj (Option.some.inj hst)
      have hs' : E.CreateInv G { s with started := true, log := {} } :=
        ⟨nofun, fun _ => nofun, fun _ => nofun⟩
      exact ⟨hs', no_others, safe_program hs' ⟨⟨rfl, rfl, rfl, rfl, rfl⟩, rfl⟩ rfl⟩
  · exact fun s c r hs _ => ⟨hs, no_others⟩
  · intro s e s' hs hg he
    obtain ⟨hs', hr⟩ := CreateInv.env hs hg he
    exact ⟨hs', fun _ => hr⟩

/-- What a program has thrown. -/
def thrown : Option (Run Unit) → Option Exception
  | some (.throw e) => some e
  | _ => none

theorem thrown_eq_some {p : Option (Run Unit)} {e : Exception} :
    thrown p = some e ↔ p = some (.throw e) := by
  rcases p with _ | (a | e' | ⟨op, k⟩)
  · exact ⟨nofun, nofun⟩
  · exact ⟨nofun, nofun⟩
  · constructor
    · intro h
      rw [Option.some.inj h]
    · intro h
      rw [h]
      rfl
  · exact ⟨nofun, nofun⟩

/-! ### Runs of a cleanup -/

/-- What is left of a path behind each part of its first component. -/
def componentTails : List Char → List (List Char)
  | [] => [[]]
  | c :: cs => (c :: cs) :: if c = '/' then [] else componentTails cs

/-- A glob with `*`, `?` and `[…]`, none of which matches a slash; `set` is what was read of a set
that is open. -/
def globMatch (set : Option (List Char)) : List Char → List Char → Bool
  | [], path => set.isNone && path.isEmpty
  | p :: ps, path =>
    match set with
    | some cs =>
      if p = ']' then
        match path with
        | [] => false
        | c :: path => c ≠ '/' && cs.contains c && globMatch none ps path
      else globMatch (some (p :: cs)) ps path
    | none =>
      if p = '[' then globMatch (some []) ps path
      else if p = '*' then (componentTails path).any (globMatch none ps)
      else
        match path with
        | [] => false
        | c :: path => (p = c || p = '?' && c ≠ '/') && globMatch none ps path

/-- One create, where texts that compare equal are the only ones that name the same location. -/
def exampleCreate (location : String) : ExternalCreate where
  set := ⟨"c", "s", false, { endpoint := "http://uc", token := "" }⟩
  info := ⟨"t", .error, some location⟩
  Place := String
  place := comparableLocation
  comparable _ _ h := h
  decidablePlace := inferInstance
  globs pattern path := globMatch none pattern.toList path.toList

/-- An answer without a body. -/
def statusResponse (status : ℕ) : HttpResponse := ⟨status, status < 400, "", [], ""⟩

/-- The answers to the create's next operations. -/
def exampleSteps (location : String) (answers : List CreateChoice) :
    List (exampleCreate location).creates.Label :=
  answers.map fun ch => .op () ch

/-- The create looks its table up and writes version 0. -/
def exampleWrites (location : String) : List (exampleCreate location).creates.Label :=
  [.start () ()] ++ exampleSteps location [.proceed, .proceed, .respond (statusResponse 404) none,
    .text "u", .proceed, .wrote [versionZeroEntry location] none, .size 64]

/-- It reads it back. -/
def exampleReads (location : String) : List (exampleCreate location).creates.Label :=
  exampleSteps location [.text ("\x7b\"commitInfo\":\x7b\"timestamp\":1\x7d\x7d\n" ++
    "\x7b\"metaData\":\x7b\"schemaString\":\"\x7b\x7d\"\x7d\x7d"), .proceed]

/-- UC refuses to register it, and does not have it. -/
def exampleRefused (location : String) : List (exampleCreate location).creates.Label :=
  exampleSteps location [.proceed, .proceed, .respond (statusResponse 400) none] ++ [.env .lose] ++
    exampleSteps location [.proceed, .proceed, .respond (statusResponse 404) none]

/-- The cleanup asks UC, hears that it does not have the table. -/
def exampleAsks (location : String) : List (exampleCreate location).creates.Label :=
  exampleSteps location [.proceed, .proceed, .respond (statusResponse 404) none]

/-- It removes what it finds. -/
def exampleRemoves (location : String) (files : List String) :
    List (exampleCreate location).creates.Label :=
  exampleSteps location (.listed files :: files.map fun _ => .proceed)

/-- Where the create begins. -/
def exampleStart (location : String) (tables : List (String × String)) (store : List String) :
    (exampleCreate location).creates.Config :=
  ⟨({ uc := { tables }, store } : CreateState), fun _ => none⟩

/-- A file was removed at whose location UC listed a table. -/
def removesListed {location : String} (cfg : (exampleCreate location).creates.Config) : Bool :=
  (CreateState.log cfg.state).removals.any fun r =>
    r.2.tables.any fun x => comparableLocation x.2 == comparableLocation (logLocation r.1)

/-- What a replay from there reaches. -/
theorem reachable_of_replay {location : String} {tables : List (String × String)}
    {store : List String} {steps : List (exampleCreate location).creates.Label}
    {ok : (exampleCreate location).creates.Config → (exampleCreate location).creates.Label → Prop}
    {check : (exampleCreate location).creates.Config → (exampleCreate location).creates.Label →
      Bool}
    {cfg : (exampleCreate location).creates.Config}
    (hcheck : ∀ cfg l, check cfg l = true → ok cfg l)
    (h : (exampleCreate location).creates.replay check steps (exampleStart location tables store) =
      some cfg) :
    (exampleCreate location).creates.system.ReachableWhile ok cfg :=
  ⟨exampleStart location tables store, ⟨rfl, rfl⟩, Pool.run_of_replay hcheck h⟩

theorem exists_removed {location : String} (tables : List (String × String)) (store : List String)
    (steps : List (exampleCreate location).creates.Label)
    (h : ((exampleCreate location).creates.replay (fun _ _ => true) steps
      (exampleStart location tables store)).any removesListed = true) :
    ∃ cfg, (exampleCreate location).creates.system.Reachable cfg ∧
      ¬ (exampleCreate location).KeepsRegistered cfg.state := by
  obtain ⟨cfg, hcfg, hremoves⟩ := (Option.any_eq_true _ _).1 h
  obtain ⟨r, hr, hlist⟩ := List.any_eq_true.1 hremoves
  obtain ⟨x, hx, hplace⟩ := List.any_eq_true.1 hlist
  have hsame : comparableLocation x.2 = comparableLocation (logLocation r.1) := beq_iff_eq.1 hplace
  exact ⟨cfg, reachable_of_replay (fun _ _ _ => trivial) hcfg,
    fun hkeeps => hkeeps r hr (.inl ⟨x, hx, hsame⟩)⟩

/-- Another client registers the location under another name, after version 0 is written; or the
location holds a wildcard, and another table's location matches it. -/
theorem registered_table_is_removed :
    (∃ cfg, (exampleCreate "/t").creates.system.Reachable cfg ∧
      ¬ (exampleCreate "/t").KeepsRegistered cfg.state) ∧
    ∃ cfg, (exampleCreate "/data/a*").creates.system.Reachable cfg ∧
      ¬ (exampleCreate "/data/a*").KeepsRegistered cfg.state := by
  constructor
  · exact exists_removed [] []
      (exampleWrites "/t" ++ exampleReads "/t" ++ [.env (.register "c.s.other" "/t")] ++
        exampleRefused "/t" ++ exampleAsks "/t" ++ exampleRemoves "/t" [versionZeroEntry "/t"])
      (by decide +kernel)
  · exact exists_removed [("c.s.other", "/data/abc")] [versionZeroEntry "/data/abc"]
      (exampleWrites "/data/a*" ++ exampleReads "/data/a*" ++ exampleRefused "/data/a*" ++
        exampleAsks "/data/a*" ++
        exampleRemoves "/data/a*" [versionZeroEntry "/data/a*", versionZeroEntry "/data/abc"])
      (by decide +kernel)

/-- **A failed create destroys no registered table** in every run in which the cleanup hears that UC
does not have the table only where no table owns the location, and none is registered there by
another client from then on. -/
theorem keepsRegistered_of_removesUnowned {cfg : E.creates.Config}
    (h : E.creates.system.ReachableWhile E.removesUnowned.Meets cfg) :
    E.KeepsRegistered cfg.state := by
  obtain ⟨cfg₀, hinit, hrun⟩ := h
  have hguard : E.creates.system.Run (E.creating True).guard.Meets cfg₀ cfg := by
    refine hrun.mono fun cfg l hl => ?_
    cases l with
    | op c ch => exact fun op k hop _ => hl op k hop
    | env e => exact fun _ => hl
    | _ => trivial
  exact (creating_sound ⟨cfg₀, hinit, hguard⟩).1.removals trivial

/-- Whether UC lists no table where a file is that the cleanup finds, once the cleanup has asked,
and what others do from then on is elsewhere. -/
def removesUnownedCheck (location : String) (cfg : (exampleCreate location).creates.Config) :
    (exampleCreate location).creates.Label → Bool
  | .op _ _ => !(CreateState.log cfg.state).asked || (CreateState.uc cfg.state).inflight == 0 &&
      (CreateState.store cfg.state).all fun f =>
        !(exampleCreate location).globs (versionZeroPattern location) f ||
          (CreateState.uc cfg.state).tables.all fun x =>
            comparableLocation x.2 != comparableLocation (logLocation f)
  | .env (.register _ spelled) => !(CreateState.log cfg.state).removing ||
      (CreateState.store cfg.state).all fun f =>
        !(exampleCreate location).globs (versionZeroPattern location) f ||
          comparableLocation (logLocation f) != comparableLocation spelled
  | .env (.write f) => !(CreateState.log cfg.state).removing ||
      !(exampleCreate location).globs (versionZeroPattern location) f
  | _ => true

theorem removesUnownedCheck_meets (location : String)
    (cfg : (exampleCreate location).creates.Config)
    (l : (exampleCreate location).creates.Label) (h : removesUnownedCheck location cfg l = true) :
    (exampleCreate location).removesUnowned.Meets cfg l := by
  cases l with
  | op c ch =>
    rintro op k - - hsays f hf hfind
    have hasked : (CreateState.log cfg.state).asked = true := by
      cases ch with
      | respond resp spelled => exact hsays.1
      | _ => exact hsays.elim
    simp only [removesUnownedCheck, hasked, Bool.not_true, Bool.false_or, Bool.and_eq_true,
      beq_iff_eq, List.all_eq_true, Bool.or_eq_true, Bool.not_eq_true', bne_iff_ne] at h
    have hno := (h.2 f hf).resolve_left fun hmiss =>
      absurd (hmiss.symm.trans hfind) Bool.false_ne_true
    rintro (⟨x, hx, hp⟩ | ⟨-, hin, -⟩)
    · exact hno x hx hp
    · exact absurd hin (by rw [h.1]; exact lt_irrefl 0)
  | env e =>
    intro hrem
    cases e with
    | register name spelled =>
      simp only [removesUnownedCheck, hrem, Bool.not_true, Bool.false_or, List.all_eq_true,
        Bool.or_eq_true, Bool.not_eq_true', bne_iff_ne] at h
      exact fun f hf hfind => (h f hf).resolve_left fun hmiss =>
        absurd (hmiss.symm.trans hfind) Bool.false_ne_true
    | write f =>
      simp only [removesUnownedCheck, hrem, Bool.not_true, Bool.false_or, Bool.not_eq_true'] at h
      exact fun hfind => absurd (h.symm.trans hfind) Bool.false_ne_true
    | _ => trivial
  | _ => trivial

/-- The location holds a wildcard, and the other tables' locations do not match it. -/
theorem keepsRegistered_of_removesUnowned_elsewhere :
    ∃ cfg : (exampleCreate "/data/a*").creates.Config,
      ((CreateState.log cfg.state).removals.map fun r => r.1) = [versionZeroEntry "/data/a*"] ∧
        (CreateState.store cfg.state) = [versionZeroEntry "/data/c", versionZeroEntry "/data/b"] ∧
        (exampleCreate "/data/a*").KeepsRegistered cfg.state := by
  have h : ((exampleCreate "/data/a*").creates.replay (removesUnownedCheck "/data/a*")
      (exampleWrites "/data/a*" ++ exampleReads "/data/a*" ++ exampleRefused "/data/a*" ++
        exampleAsks "/data/a*" ++
        [.env (.write (versionZeroEntry "/data/c")), .env (.register "c.s.more" "/data/c")] ++
        exampleRemoves "/data/a*" [versionZeroEntry "/data/a*"])
      (exampleStart "/data/a*" [("c.s.other", "/data/b")] [versionZeroEntry "/data/b"])).map
        (fun cfg => ((CreateState.log cfg.state).removals.map fun r => r.1,
          CreateState.store cfg.state)) =
      some ([versionZeroEntry "/data/a*"],
        [versionZeroEntry "/data/c", versionZeroEntry "/data/b"]) := by
    decide +kernel
  obtain ⟨cfg, hcfg, hst⟩ := Option.map_eq_some_iff.1 h
  obtain ⟨hremoved, hstore⟩ := Prod.mk.inj hst
  exact ⟨cfg, hremoved, hstore, keepsRegistered_of_removesUnowned
    (reachable_of_replay (removesUnownedCheck_meets _) hcfg)⟩

/-! ## What a failed create leaves -/

/-- What a failed create is to leave: unless UC lists a table there or has not said, no file of the
version 0 it wrote, and all of what was there if it wrote none. -/
def LeavesFree (E : ExternalCreate) (s : CreateState) : Prop :=
  (s.log.written = true → E.Lists s.uc ∨ s.log.unanswered = true ∨ s.log.files = []) ∧
    (s.log.written = false → s.log.removals = [])

/-- What was written is free of the failures no cleanup answers to, and the cleanup finds it. -/
def CleansUp (E : ExternalCreate) (s : CreateState) : Prop :=
  s.log.written = true → ¬ E.Lists s.uc →
    s.log.halted = false ∧ (∀ text, s.log.contents = some text → E.Describes text = true) ∧
      s.log.stuck = false ∧ (s.log.unanswered = false → ∀ f ∈ s.log.wrote, E.Finds f)

theorem Lost.free_iff_clean (h : E.Lost s.log) : E.LeavesFree s ↔ E.CleansUp s := by
  rcases h with h | h
  · constructor
    · exact fun _ hw => absurd (h.written.symm.trans hw) Bool.false_ne_true
    · exact fun _ => ⟨fun hw => absurd (h.written.symm.trans hw) Bool.false_ne_true,
        fun _ => h.removals⟩
  · constructor
    · intro hfree _ hno
      rcases hfree.1 h.written with hl | hu | hf
      · exact absurd hl hno
      · exact absurd (h.unanswered.symm.trans hu) Bool.false_ne_true
      · exact absurd hf h.files
    · intro hclean
      refine ⟨fun hw => ?_, fun _ => h.removals⟩
      by_contra hno
      obtain ⟨hhalt, htext, -⟩ := hclean hw fun hl => hno (.inl hl)
      rcases h.failed with hf | ⟨text, hc, hd⟩
      · exact absurd (hhalt.symm.trans hf) Bool.false_ne_true
      · exact absurd (hd.symm.trans (htext text hc)) Bool.false_ne_true

theorem Settled.free_iff_clean (h : E.Settled s) : E.LeavesFree s ↔ E.CleansUp s := by
  have hw := h.written
  constructor
  · intro _ _ hno
    obtain ⟨text, hc, hd⟩ := h.contents
    refine ⟨h.halted, fun text' hc' => ?_, h.stuck, fun hanswered => ?_⟩
    · obtain rfl := Option.some.inj (hc'.symm.trans hc)
      exact hd
    · rcases h.settled with hu | hl | hr
      · exact absurd (hanswered.symm.trans hu) Bool.false_ne_true
      · exact absurd hl hno
      · exact hr.finds
  · refine fun _ => ⟨fun _ => ?_, fun hn => absurd (hn.symm.trans hw) Bool.false_ne_true⟩
    rcases h.settled with hu | hl | hr
    · exact .inr (.inl hu)
    · exact .inl hl
    · exact .inr (.inr hr.files)

theorem Kept.free_iff_clean (h : E.Kept s.log) : E.LeavesFree s ↔ E.CleansUp s := by
  constructor
  · intro hfree hw hno
    rcases hfree.1 hw with hl | hu | hf
    · exact absurd hl hno
    · exact absurd (h.unanswered.symm.trans hu) Bool.false_ne_true
    · exact absurd hf h.files
  · intro hclean
    refine ⟨fun hw => ?_, fun hn => absurd (hn.symm.trans h.written) Bool.false_ne_true⟩
    by_contra hno
    obtain ⟨-, -, hstuck, hfinds⟩ := hclean hw fun hl => hno (.inl hl)
    rcases h.failed with hfailed | ⟨f, hf, hmiss⟩
    · exact absurd (hstuck.symm.trans hfailed) Bool.false_ne_true
    · exact hmiss (hfinds h.unanswered f hf)

/-- A create that has thrown has left version 0 behind, and UC neither lists it nor was silent. -/
def leavesBehind {location : String} (cfg : (exampleCreate location).creates.Config) : Bool :=
  (thrown (cfg.threads ())).isSome && (CreateState.log cfg.state).written &&
    !(CreateState.log cfg.state).unanswered && (CreateState.uc cfg.state).tables.isEmpty &&
      !(CreateState.log cfg.state).files.isEmpty

theorem exists_leftBehind {location : String} (steps : List (exampleCreate location).creates.Label)
    (h : ((exampleCreate location).creates.replay (fun _ _ => true) steps
      (exampleStart location [] [])).any leavesBehind = true) :
    ∃ cfg e, (exampleCreate location).creates.system.Reachable cfg ∧
      cfg.threads () = some (.throw e) ∧ ¬ (exampleCreate location).LeavesFree cfg.state := by
  obtain ⟨cfg, hcfg, hleft⟩ := (Option.any_eq_true _ _).1 h
  simp only [leavesBehind, Bool.and_eq_true, Bool.not_eq_true', List.isEmpty_iff,
    List.isEmpty_eq_false_iff] at hleft
  obtain ⟨⟨⟨⟨hthrown, hwritten⟩, hunanswered⟩, htables⟩, hfiles⟩ := hleft
  obtain ⟨e, he⟩ := Option.isSome_iff_exists.1 hthrown
  refine ⟨cfg, e, reachable_of_replay (fun _ _ _ => trivial) hcfg,
    thrown_eq_some.1 he, fun hfree => ?_⟩
  rcases hfree.1 hwritten with ⟨x, hx, -⟩ | hu | hf
  · rw [htables] at hx
    exact absurd hx List.not_mem_nil
  · exact absurd (hunanswered.symm.trans hu) Bool.false_ne_true
  · exact hfiles hf

/-- Reading version 0 back fails, and nothing removes it; or the location holds a set of characters,
and the cleanup looks for version 0 elsewhere. -/
theorem unread_version_stays :
    (∃ cfg e, (exampleCreate "/t").creates.system.Reachable cfg ∧
      cfg.threads () = some (.throw e) ∧ ¬ (exampleCreate "/t").LeavesFree cfg.state) ∧
    ∃ cfg e, (exampleCreate "/data/[x]/t").creates.system.Reachable cfg ∧
      cfg.threads () = some (.throw e) ∧ ¬ (exampleCreate "/data/[x]/t").LeavesFree cfg.state := by
  constructor
  · exact exists_leftBehind
      (exampleWrites "/t" ++ exampleSteps "/t" [.fail (ioException "read failed") none, .proceed])
      (by decide +kernel)
  · exact exists_leftBehind
      (exampleWrites "/data/[x]/t" ++ exampleReads "/data/[x]/t" ++ exampleRefused "/data/[x]/t" ++
        exampleAsks "/data/[x]/t" ++ exampleRemoves "/data/[x]/t" [])
      (by decide +kernel)

/-- **A failed create leaves its location free** exactly where nothing failed, between the write of
version 0 and its registration, that no cleanup answers to, and the cleanup found what was written
and got through. -/
theorem leavesFree_iff {cfg : E.creates.Config} {e : Exception}
    (h : E.creates.system.Reachable cfg) (hthrown : cfg.threads () = some (.throw e)) :
    E.LeavesFree cfg.state ↔ E.CleansUp cfg.state := by
  obtain ⟨cfg₀, hinit, hrun⟩ := h
  have hguard : E.creates.system.Run (E.creating False).guard.Meets cfg₀ cfg := by
    refine hrun.mono fun cfg l _ => ?_
    cases l with
    | op c ch => exact fun op k hop hf => hf.elim
    | env e => exact fun hf => hf.elim
    | _ => trivial
  obtain ⟨hs, hsafe⟩ := creating_sound ⟨cfg₀, hinit, hguard⟩
  have hfailed : E.Failed (.error e) cfg.state :=
    hsafe () _ hthrown cfg.state ((E.creating False).rely_refl () cfg.state) hs
  rcases hfailed with hl | hs | hk
  · exact hl.free_iff_clean
  · exact hs.free_iff_clean
  · exact hk.free_iff_clean

/-- UC refuses the registration, and version 0 is removed; another table's stays. -/
theorem leavesFree_iff_refused : ∃ cfg : (exampleCreate "/t").creates.Config,
    (CreateState.log cfg.state).wrote = [versionZeroEntry "/t"] ∧
      (CreateState.log cfg.state).files = [] ∧
      CreateState.store cfg.state = [versionZeroEntry "/u"] ∧
      ((exampleCreate "/t").LeavesFree cfg.state ↔ (exampleCreate "/t").CleansUp cfg.state) := by
  have h : ((exampleCreate "/t").creates.replay (fun _ _ => true)
      (exampleWrites "/t" ++ exampleReads "/t" ++ exampleRefused "/t" ++ exampleAsks "/t" ++
        exampleRemoves "/t" [versionZeroEntry "/t"])
      (exampleStart "/t" [("c.s.other", "/u")] [versionZeroEntry "/u"])).map
        (fun cfg => ((thrown (cfg.threads ())).isSome, (CreateState.log cfg.state).wrote,
          (CreateState.log cfg.state).files, CreateState.store cfg.state)) =
      some (true, [versionZeroEntry "/t"], [], [versionZeroEntry "/u"]) := by
    decide +kernel
  obtain ⟨cfg, hcfg, hst⟩ := Option.map_eq_some_iff.1 h
  obtain ⟨hthrown, hst⟩ := Prod.mk.inj hst
  obtain ⟨hwrote, hst⟩ := Prod.mk.inj hst
  obtain ⟨hfiles, hstore⟩ := Prod.mk.inj hst
  obtain ⟨e, he⟩ := Option.isSome_iff_exists.1 hthrown
  exact ⟨cfg, hwrote, hfiles, hstore, leavesFree_iff
    (reachable_of_replay (fun _ _ _ => trivial) hcfg) (thrown_eq_some.1 he)⟩

end ExternalCreate

end UnityCatalog
