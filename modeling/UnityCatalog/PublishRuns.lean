import UnityCatalog.Publish

/-!
# Runs of the sessions that publish

What each step of a session and of its surroundings preserves, the copy as a proof outline, and the
result: where nobody counts a file that is not whole as published, `backfilled_version` is true in
every state of every interleaving.
-/

namespace UnityCatalog

open Effectful

namespace SharedTable

variable {T : SharedTable} {c : ℕ} {s s' : LogState}

/-! ## Steps -/

/-- Writing a file that is neither staged nor published whole. -/
theorem grows_of_write {p : String} {bytes : Bytes} (hr : s'.ratified = s.ratified)
    (hf : s'.files = Function.update s.files p (some bytes))
    (hp : ∀ file_name, s.files (stagedFile T.location file_name) ≠ none →
      stagedFile T.location file_name ≠ p)
    (hw : ∀ x ∈ s.ratified, logFile T.location x.1 = p → ¬ T.Whole s x) : T.Grows s s' where
  ratified x hx := by rwa [hr]
  later x hx := by
    rw [hr] at hx
    exact .inl hx
  staged f b hb := by
    rw [hf, Function.update_of_ne (hp f (by rw [hb]; exact Option.some_ne_none b))]
    exact hb
  whole x hx := by
    rintro ⟨b, hb, hl⟩
    refine ⟨b, ?_, ?_⟩
    · rw [hf, Function.update_of_ne (hp _ (by rw [hb]; exact Option.some_ne_none b))]
      exact hb
    · rw [hf, Function.update_of_ne fun h => hw x hx h ⟨b, hb, hl⟩]
      exact hl

/-- The invariant where only files have grown. -/
theorem LogInv.grow (hs : T.LogInv s) (hg : T.Grows s s') (hr : s'.ratified = s.ratified)
    (hp : s'.published = s.published) (hc : s'.commit_state = s.commit_state)
    (hl : s'.listed = s.listed) (ht : s'.taken = s.taken)
    (howner : ∀ c p, s'.writing c = some p → s'.files p ≠ none ∧
      (∀ file_name, p ≠ stagedFile T.location file_name) ∧ ∀ d, s'.writing d = some p → d = c) :
    T.LogInv s' where
  distinct := by
    rw [hr]
    exact hs.distinct
  staged x hx := by
    rw [hr] at hx
    obtain ⟨b, hb⟩ := Option.ne_none_iff_exists'.1 (hs.staged x hx)
    rw [hg.staged _ b hb]
    exact Option.some_ne_none b
  published := by
    rw [hp]
    exact hg.covered hs.published
  covered c := by
    rw [hc]
    exact hg.covered (hs.covered c)
  listed c l h := by
    rw [hl] at h
    exact hg.listing (hs.listed c l h)
  taken c x hx := by
    rw [ht] at hx
    exact hg.ratified x (hs.taken c x hx)
  owner := howner

/-- A session creates the file of a version. -/
theorem LogInv.create {v : ℕ} (hs : T.LogInv s) (hfree : s.files (logFile T.location v) = none)
    (hs' : s' = { s with
      files := Function.update s.files (logFile T.location v) (some [])
      writing := Function.update s.writing c (some (logFile T.location v)) }) :
    T.LogInv s' ∧ ∀ d, d ≠ c → T.LogRely d s s' := by
  subst hs'
  have hfile : ∀ p, s.files p ≠ none → p ≠ logFile T.location v := by
    rintro p hp rfl
    exact hp hfree
  have hg : T.Grows s { s with
      files := Function.update s.files (logFile T.location v) (some [])
      writing := Function.update s.writing c (some (logFile T.location v)) } := by
    refine grows_of_write rfl rfl (fun f hf => hfile _ hf) ?_
    rintro x - hx ⟨b, -, hl⟩
    rw [hx, hfree] at hl
    cases hl
  refine ⟨hs.grow hg rfl rfl rfl rfl rfl ?_, fun d hd => ?_⟩
  · intro d p (hp : Function.update s.writing c (some (logFile T.location v)) d = some p)
    show Function.update s.files (logFile T.location v) (some []) p ≠ none ∧ _
    by_cases hd : d = c
    · subst hd
      rw [Function.update_self] at hp
      obtain rfl := Option.some.inj hp
      refine ⟨by simp, logFile_ne_stagedFile _ v, ?_⟩
      intro e (he : Function.update s.writing d _ e = _)
      by_contra hne
      rw [Function.update_of_ne hne] at he
      exact (hs.owner e _ he).1 hfree
    · rw [Function.update_of_ne hd] at hp
      obtain ⟨hfiles, hstaged, honly⟩ := hs.owner d p hp
      refine ⟨?_, hstaged, ?_⟩
      · rw [Function.update_of_ne (hfile p hfiles)]
        exact hfiles
      · intro e (he : Function.update s.writing c _ e = _)
        by_cases hec : e = c
        · subst hec
          rw [Function.update_self] at he
          exact absurd (Option.some.inj he).symm (hfile p hfiles)
        · rw [Function.update_of_ne hec] at he
          exact honly e he
  · refine ⟨hg, rfl, rfl, Function.update_of_ne hd .., ?_⟩
    intro p hp
    exact Function.update_of_ne (hfile p (hs.owner d p hp).1) ..

/-- A session writes to the file it has created, which is not whole yet. -/
theorem LogInv.write {p : String} {b : Bytes} (hs : T.LogInv s) (hw : s.writing c = some p)
    (hnot : ∀ x ∈ s.ratified, logFile T.location x.1 = p → ¬ T.Whole s x) :
    T.LogInv { s with files := Function.update s.files p (some b) } ∧
      ∀ d, d ≠ c → T.LogRely d s { s with files := Function.update s.files p (some b) } := by
  obtain ⟨-, hstaged, -⟩ := hs.owner c p hw
  have hg : T.Grows s { s with files := Function.update s.files p (some b) } :=
    grows_of_write rfl rfl (fun f _ h => hstaged f h.symm) hnot
  refine ⟨hs.grow hg rfl rfl rfl rfl rfl ?_, fun d hd => ⟨hg, rfl, rfl, rfl, ?_⟩⟩
  · intro d q hq
    obtain ⟨hfiles, hrest⟩ := hs.owner d q hq
    refine ⟨?_, hrest⟩
    show Function.update s.files p (some b) q ≠ none
    by_cases hqp : q = p
    · subst hqp
      simp
    · rw [Function.update_of_ne hqp]
      exact hfiles
  · intro q hq
    refine Function.update_of_ne ?_ ..
    rintro rfl
    exact hd ((hs.owner c q hw).2.2 d hq)

/-- A file is staged under a name that is free: no log file is one that is staged. -/
theorem LogInv.env_stage {f : String} {bytes : List UInt8} (hs : T.LogInv s)
    (h : T.attaches.env s (.stage f bytes) = some s') :
    T.LogInv s' ∧ ∀ d, T.LogRely d s s' := by
  simp only [attaches] at h
  split at h
  · rename_i hfree
    obtain rfl := Option.some.inj h
    have hg : T.Grows s { s with
        files := Function.update s.files (stagedFile T.location f) (some bytes) } := by
      refine grows_of_write rfl rfl ?_ ?_
      · rintro g hg heq
        rw [heq] at hg
        exact hg hfree
      · exact fun x _ hx _ => logFile_ne_stagedFile _ _ _ hx
    refine ⟨hs.grow hg rfl rfl rfl rfl rfl ?_, fun d => ⟨hg, rfl, rfl, rfl, ?_⟩⟩
    · intro d p hp
      obtain ⟨hfiles, hstaged, honly⟩ := hs.owner d p hp
      refine ⟨?_, hstaged, honly⟩
      show Function.update s.files _ _ p ≠ none
      rw [Function.update_of_ne (hstaged f)]
      exact hfiles
    · intro p hp
      exact Function.update_of_ne ((hs.owner d p hp).2.1 f) ..
  · cases h

/-- A staged commit is ratified as a version later than all ratified ones. -/
theorem LogInv.env_ratify {v : ℕ} {f : String} (hs : T.LogInv s)
    (h : T.attaches.env s (.ratify v f) = some s') :
    T.LogInv s' ∧ ∀ d, T.LogRely d s s' := by
  simp only [attaches] at h
  split at h
  · rename_i hv
    obtain ⟨hf, hlater⟩ := hv
    obtain rfl := Option.some.inj h
    have hg : T.Grows s { s with ratified := (v, f) :: s.ratified } := by
      refine ⟨fun x hx => List.mem_cons_of_mem _ hx, ?_, fun _ _ hb => hb, fun _ _ hw => hw⟩
      intro x hx
      rcases List.mem_cons.1 hx with rfl | hx
      · exact .inr hlater
      · exact .inl hx
    refine ⟨?_, fun d => ⟨hg, rfl, rfl, rfl, fun _ _ => rfl⟩⟩
    refine ⟨?_, ?_, hg.covered hs.published, fun d => hg.covered (hs.covered d),
      fun d l hl => hg.listing (hs.listed d l hl),
      fun d x hx => List.mem_cons_of_mem _ (hs.taken d x hx), hs.owner⟩
    · intro x hx y hy hxy
      rcases List.mem_cons.1 hx with rfl | hx
      · rcases List.mem_cons.1 hy with rfl | hy
        · rfl
        · exact absurd hxy (Nat.ne_of_gt (hlater y hy))
      · rcases List.mem_cons.1 hy with rfl | hy
        · exact absurd hxy (Nat.ne_of_lt (hlater x hx))
        · exact hs.distinct x hx y hy hxy
    · intro x hx
      rcases List.mem_cons.1 hx with rfl | hx
      · exact Option.isSome_iff_ne_none.1 hf
      · exact hs.staged x hx
  · cases h

/-- A session's `LoadTable` is answered: what is not listed any more has been published. -/
theorem LogInv.env_load {c : ℕ} (hs : T.LogInv s) (h : T.attaches.env s (.load c) = some s') :
    T.LogInv s' ∧ ∀ d, T.LogRely d s s' := by
  obtain rfl := Option.some.inj h
  have hg : T.Grows s { s with listed := Function.update s.listed c (some s.unpublished) } :=
    .of_eq rfl rfl
  refine ⟨⟨hs.distinct, hs.staged, hg.covered hs.published, fun d => hg.covered (hs.covered d), ?_,
    hs.taken, hs.owner⟩, fun d => ⟨hg, rfl, rfl, rfl, fun _ _ => rfl⟩⟩
  intro d l (hl : Function.update s.listed c (some s.unpublished) d = some l)
  refine hg.listing ?_
  by_cases hd : d = c
  · subst hd
    rw [Function.update_self] at hl
    obtain rfl := Option.some.inj hl
    refine ⟨fun x hx => (List.mem_filter.1 hx).1, fun x hx => ?_⟩
    by_cases hb : backfilled s.published x.1 = true
    · obtain ⟨w, hw, hle⟩ := backfilled_eq_true.1 hb
      exact .inr (.inl ((hs.published w hw).2 x hx hle))
    · exact .inl (List.mem_filter.2 ⟨hx, by simpa using hb⟩)
  · rw [Function.update_of_ne hd] at hl
    exact hs.listed d l hl

/-- A session reports a version up to the one it copied. -/
theorem LogInv.env_publish {c v : ℕ} (hs : T.LogInv s)
    (h : T.attaches.env s (.publish c v) = some s') :
    T.LogInv s' ∧ ∀ d, T.LogRely d s s' := by
  simp only [attaches] at h
  split at h
  · rename_i w hw
    split at h
    · rename_i hle
      obtain rfl := Option.some.inj h
      have hg : T.Grows s { s with published := some v } := .of_eq rfl rfl
      refine ⟨⟨hs.distinct, hs.staged, hg.covered ?_, fun d => hg.covered (hs.covered d),
        fun d l hl => hg.listing (hs.listed d l hl), hs.taken, hs.owner⟩,
        fun d => ⟨hg, rfl, rfl, rfl, fun _ _ => rfl⟩⟩
      rintro u hu
      obtain rfl := Option.some.inj hu
      obtain ⟨⟨x, hx, hwx⟩, hall⟩ := hs.covered c w hw
      exact ⟨⟨x, hx, hle.trans hwx⟩, fun y hy hyv => hall y hy (hyv.trans hle)⟩
    · cases h
  · cases h

/-- What the surroundings do on their own. -/
theorem LogInv.env {e : LogEnv} (hs : T.LogInv s) (h : T.attaches.env s e = some s') :
    T.LogInv s' ∧ ∀ d, T.LogRely d s s' := by
  cases e with
  | stage f bytes => exact hs.env_stage h
  | ratify v f => exact hs.env_ratify h
  | load c => exact hs.env_load h
  | publish c v => exact hs.env_publish h

/-! ## The copy -/

variable (T) in
/-- The sessions under the invariant. -/
def publishing : Outline T.attaches where
  guard := T.findsWhole
  inv := T.LogInv
  rely := T.LogRely
  rely_refl := .refl
  rely_trans _ _ _ _ h h' := h.trans h'

variable (T) in
/-- `c` copies a commit of which `buf` is read and not yet written: what is written, what is read
and what is left are the bytes it was staged with. -/
structure Copying (c : ℕ) (x : Staged) (bytes buf : Bytes) (s : LogState) : Prop where
  ratified : x ∈ s.ratified
  source : s.files (stagedFile T.location x.2) = some bytes
  writing : s.writing c = some (logFile T.location x.1)
  split : ∃ written, s.files (logFile T.location x.1) = some written ∧
    written ++ buf ++ s.reading c = bytes

variable (T) in
/-- A copy that returned has published its commit whole. -/
def Copied {β : Type} (x : Staged) (r : Except Exception β) (s : LogState) : Prop :=
  x ∈ s.ratified ∧ ∀ a, r = .ok a → T.Whole s x

variable {x : Staged} {bytes buf : Bytes}

theorem LogRely.copying (h : T.LogRely c s s') (hc : T.Copying c x bytes buf s) :
    T.Copying c x bytes buf s' where
  ratified := h.ratified x hc.ratified
  source := h.staged _ _ hc.source
  writing := h.writing.trans hc.writing
  split := by
    obtain ⟨written, hw, hsplit⟩ := hc.split
    exact ⟨written, (h.written _ hc.writing).trans hw, by rw [h.reading, hsplit]⟩

theorem stable_copied {β : Type} (r : Except Exception β) :
    T.publishing.Stable c (T.Copied x r) :=
  fun _ _ hr _ _ h => ⟨hr.ratified x h.1, fun a ha => hr.whole x h.1 (h.2 a ha)⟩

/-- While bytes are left, the file is not whole. -/
theorem Copying.not_whole (hc : T.Copying c x bytes buf s) (hs : T.LogInv s)
    (hbuf : buf ≠ []) {y : Staged} (hy : y ∈ s.ratified)
    (hxy : logFile T.location y.1 = logFile T.location x.1) : ¬ T.Whole s y := by
  obtain rfl := hs.distinct y hy x hc.ratified (logFile_inj.1 hxy)
  rintro ⟨b, hb, hl⟩
  obtain ⟨written, hw, hsplit⟩ := hc.split
  obtain rfl := Option.some.inj (hb.symm.trans hc.source)
  obtain rfl := Option.some.inj (hl.symm.trans hw)
  have hlength := congrArg List.length hsplit
  have := List.length_pos_of_ne_nil hbuf
  simp only [List.length_append] at hlength
  omega

theorem Copying.whole (hc : T.Copying c x bytes [] s) (hr : s.reading c = []) :
    T.Whole s x := by
  obtain ⟨written, hw, hsplit⟩ := hc.split
  rw [hr, List.append_nil, List.append_nil] at hsplit
  exact ⟨bytes, hc.source, hsplit ▸ hw⟩

/-- One read. -/
theorem safe_readFile {path : String} {n : ℕ} (hc : T.Copying c x bytes [] s) :
    T.publishing.Safe c (readFile path n) (fun r s' => x ∈ s'.ratified ∧ ∀ buf, r = .ok buf →
      T.Copying c x bytes buf s' ∧
        (s'.reading c).length + buf.length = (s.reading c).length ∧
        (buf = [] → s'.reading c = [])) s := by
  refine Outline.safe_perform ?_ ?_
  · rintro r u v hr - - ⟨hx, h⟩
    refine ⟨hr.ratified x hx, fun buf hb => ?_⟩
    obtain ⟨hcopy, hlen, hnil⟩ := h buf hb
    rw [hr.reading]
    exact ⟨hr.copying hcopy, hlen, hnil⟩
  · intro (s₁ : LogState) (hr : T.LogRely c s s₁) (hs₁ : T.LogInv s₁) ch r s₂ _ ha
    have hc₁ := hr.copying hc
    rw [← hr.reading]
    cases ch with
    | bytes k =>
      simp only [attaches, logAnswer] at ha
      split at ha
      · rename_i hk
        obtain ⟨rfl, rfl⟩ := Prod.mk.inj (Option.some.inj ha)
        have hg : T.Grows s₁ { s₁ with
          reading := Function.update s₁.reading c ((s₁.reading c).drop k) } := .of_eq rfl rfl
        refine ⟨hs₁.grow hg rfl rfl rfl rfl rfl hs₁.owner, fun d hd => ?_, hc₁.ratified, ?_⟩
        · exact ⟨hg, rfl, Function.update_of_ne hd .., rfl, fun _ _ => rfl⟩
        · intro buf hb
          obtain rfl := Except.ok.inj hb
          obtain ⟨written, hw, hsplit⟩ := hc₁.split
          rw [List.append_nil] at hsplit
          -- what is read is taken off what was still to come
          have hread : Function.update s₁.reading c ((s₁.reading c).drop k) c =
            (s₁.reading c).drop k := Function.update_self ..
          refine ⟨⟨hc₁.ratified, hc₁.source, hc₁.writing, written, hw, ?_⟩, ?_, ?_⟩
          · show _ ++ Function.update s₁.reading c ((s₁.reading c).drop k) c = bytes
            rw [hread, List.append_assoc, List.take_append_drop, hsplit]
          · show (Function.update s₁.reading c ((s₁.reading c).drop k) c).length + _ = _
            rw [hread, List.length_drop, List.length_take]
            omega
          · intro hnil
            refine hread.trans ?_
            -- an empty read means the end, as a read takes a byte where there is one
            rcases List.take_eq_nil_iff.1 hnil with h0 | hnil
            · omega
            · rw [hnil, List.drop_nil]
      · cases ha
    | fail e =>
      obtain ⟨rfl, rfl⟩ := Prod.mk.inj (Option.some.inj ha)
      exact ⟨hs₁, fun d _ => .refl d _, hc₁.ratified, nofun⟩
    | _ => cases ha

/-- One write. -/
theorem safe_writeFile (hc : T.Copying c x bytes buf s) (hbuf : buf ≠ []) :
    T.publishing.Safe c (writeFile (logFile T.location x.1) buf) (fun r s' => x ∈ s'.ratified ∧
      s'.reading c = s.reading c ∧ ∀ a, r = .ok a → T.Copying c x bytes [] s') s := by
  refine Outline.safe_perform ?_ ?_
  · rintro r u v hr - - ⟨hx, hread, h⟩
    exact ⟨hr.ratified x hx, hr.reading.trans hread, fun a ha => hr.copying (h a ha)⟩
  · intro (s₁ : LogState) (hr : T.LogRely c s s₁) (hs₁ : T.LogInv s₁) ch r s₂ _ ha
    have hc₁ := hr.copying hc
    obtain ⟨written, hw, hsplit⟩ := hc₁.split
    have hnot : ∀ y ∈ s₁.ratified, logFile T.location y.1 = logFile T.location x.1 →
        ¬ T.Whole s₁ y := fun y hy hxy => hc₁.not_whole hs₁ hbuf hy hxy
    cases ch with
    | proceed =>
      simp only [attaches, logAnswer, hw, Option.map_some] at ha
      obtain ⟨rfl, rfl⟩ := Prod.mk.inj (Option.some.inj ha)
      obtain ⟨hs₂, hothers⟩ := hs₁.write (b := written ++ buf) hc₁.writing hnot
      refine ⟨hs₂, hothers, hc₁.ratified, hr.reading, fun _ _ => ?_⟩
      refine ⟨hc₁.ratified, ?_, hc₁.writing, written ++ buf, Function.update_self .., ?_⟩
      · exact (Function.update_of_ne (logFile_ne_stagedFile _ _ _).symm ..).trans hc₁.source
      · rw [List.append_nil, hsplit]
    | torn n e =>
      simp only [attaches, logAnswer, hw, Option.map_some] at ha
      obtain ⟨rfl, rfl⟩ := Prod.mk.inj (Option.some.inj ha)
      obtain ⟨hs₂, hothers⟩ := hs₁.write (b := written ++ buf.take n) hc₁.writing hnot
      exact ⟨hs₂, hothers, hc₁.ratified, hr.reading, nofun⟩
    | _ => cases ha

/-- The copying loop, given more rounds than bytes are left. -/
theorem safe_copyLoop {src : String} (rounds : ℕ) (hs : T.LogInv s)
    (hc : T.Copying c x bytes [] s) (hlen : (s.reading c).length < rounds) :
    T.publishing.Safe c (copyLoop src (logFile T.location x.1) rounds) (T.Copied x) s := by
  induction rounds generalizing s with
  | zero => exact absurd hlen (Nat.not_lt_zero _)
  | succ rounds ih =>
    refine Outline.Safe.bind (safe_readFile hc) hs ?_ ?_
    · rintro buf s₁ hs₁ ⟨hx, h⟩
      obtain ⟨hc₁, hlen₁, hnil⟩ := h buf rfl
      split
      · rename_i hbuf
        subst hbuf
        exact Outline.safe_ofExcept (x := .ok ()) (stable_copied _) hs₁
          ⟨hx, fun _ _ => hc₁.whole (hnil rfl)⟩
      · rename_i hbuf
        refine Outline.Safe.bind (safe_writeFile hc₁ hbuf) hs₁ ?_ ?_
        · rintro a s₂ hs₂ ⟨-, hread, hc₂⟩
          refine ih hs₂ (hc₂ _ rfl) ?_
          have := List.length_pos_of_ne_nil hbuf
          rw [hread]
          omega
        · rintro e s₂ hs₂ ⟨hx₂, -⟩
          exact Outline.safe_ofExcept (x := .error e) (stable_copied _) hs₂ ⟨hx₂, nofun⟩
    · rintro e s₁ hs₁ ⟨hx, -⟩
      exact Outline.safe_ofExcept (x := .error e) (stable_copied _) hs₁ ⟨hx, nofun⟩

/-- Opening the staged file; the size that is answered is that of what is left to read. -/
theorem safe_openRead (hx : x ∈ s.ratified) :
    T.publishing.Safe c (openRead (stagedFile T.location x.2))
      (fun r (s : LogState) => x ∈ s.ratified ∧ ∀ n, r = .ok n → (s.reading c).length = n ∧
        s.files (stagedFile T.location x.2) = some (s.reading c)) s := by
  refine Outline.safe_perform ?_ ?_
  · rintro r u v (hr : T.LogRely c u v) - - ⟨hx, h⟩
    refine ⟨hr.ratified x hx, fun n hn => ?_⟩
    rw [hr.reading]
    exact ⟨(h n hn).1, hr.staged _ _ (h n hn).2⟩
  · intro (s₁ : LogState) (hr : T.LogRely c s s₁) (hs₁ : T.LogInv s₁) ch r s₂ _ ha
    cases ch with
    | proceed =>
      obtain ⟨bytes, hb, heq⟩ := Option.map_eq_some_iff.1 ha
      obtain ⟨rfl, rfl⟩ := Prod.mk.inj heq
      have hg : T.Grows s₁ { s₁ with reading := Function.update s₁.reading c bytes } :=
        .of_eq rfl rfl
      refine ⟨hs₁.grow hg rfl rfl rfl rfl rfl hs₁.owner, fun d hd => ?_, hr.ratified x hx, ?_⟩
      · exact ⟨hg, rfl, Function.update_of_ne hd .., rfl, fun _ _ => rfl⟩
      · intro n hn
        show (Function.update s₁.reading c bytes c).length = n ∧
          s₁.files _ = some (Function.update s₁.reading c bytes c)
        rw [Function.update_self]
        exact ⟨Except.ok.inj hn, hb⟩
    | fail e =>
      obtain ⟨rfl, rfl⟩ := Prod.mk.inj (Option.some.inj ha)
      exact ⟨hs₁, fun d _ => .refl d _, hr.ratified x hx, nofun⟩
    | _ => cases ha

/-- The exclusive create: what it finds is whole, what it creates is this session's to write. -/
theorem safe_openExclusive {size : ℕ} (hx : x ∈ s.ratified) (hsize : (s.reading c).length = size)
    (hsource : s.files (stagedFile T.location x.2) = some (s.reading c)) :
    T.publishing.Safe c (openExclusive (logFile T.location x.1))
      (fun r (s : LogState) => x ∈ s.ratified ∧ (r = .ok false → T.Whole s x) ∧
        (r = .ok true → (s.reading c).length = size ∧ ∃ bytes, T.Copying c x bytes [] s)) s := by
  refine Outline.safe_perform ?_ ?_
  · rintro r u v (hr : T.LogRely c u v) - - ⟨hx, hf, ht⟩
    refine ⟨hr.ratified x hx, fun h => hr.whole x hx (hf h), fun h => ?_⟩
    obtain ⟨hlen, bytes, hc⟩ := ht h
    rw [hr.reading]
    exact ⟨hlen, bytes, hr.copying hc⟩
  · intro (s₁ : LogState) (hr : T.LogRely c s s₁) (hs₁ : T.LogInv s₁) ch r s₂ hg ha
    have hx₁ := hr.ratified x hx
    have hsource₁ := hr.staged _ _ hsource
    rw [← hr.reading] at hsize hsource₁
    cases ch with
    | proceed =>
      rcases hf : s₁.files (logFile T.location x.1) with _ | written
      · simp only [attaches, logAnswer, hf] at ha
        obtain ⟨rfl, rfl⟩ := Prod.mk.inj (Option.some.inj ha)
        obtain ⟨hs₂, hothers⟩ := hs₁.create (c := c) hf rfl
        refine ⟨hs₂, hothers, hx₁, nofun, fun _ => ⟨hsize, s₁.reading c, ?_⟩⟩
        refine ⟨hx₁, ?_, Function.update_self .., [], Function.update_self .., rfl⟩
        exact (Function.update_of_ne (logFile_ne_stagedFile _ _ _).symm ..).trans hsource₁
      · simp only [attaches, logAnswer, hf] at ha
        obtain ⟨rfl, rfl⟩ := Prod.mk.inj (Option.some.inj ha)
        have hw : T.Whole s₁ x :=
          hg rfl _ rfl (by rw [hf]; exact Option.some_ne_none _) x hx₁ rfl
        exact ⟨hs₁, fun d _ => .refl d _, hx₁, fun _ => hw, nofun⟩
    | fail e =>
      obtain ⟨rfl, rfl⟩ := Prod.mk.inj (Option.some.inj ha)
      exact ⟨hs₁, fun d _ => .refl d _, hx₁, nofun, nofun⟩
    | _ => cases ha

theorem safe_closeFile {path : String} (hs : T.LogInv s) (hx : x ∈ s.ratified)
    (hw : T.Whole s x) :
    T.publishing.Safe c (closeFile path)
      (fun _ (s : LogState) => x ∈ s.ratified ∧ T.Whole s x) s := by
  have hstable : T.publishing.Stable c fun s : LogState => x ∈ s.ratified ∧ T.Whole s x :=
    fun _ _ (hr : T.LogRely c _ _) _ _ h => ⟨hr.ratified x h.1, hr.whole x h.1 h.2⟩
  refine (Outline.safe_perform_idle hstable (R := fun _ => True) ?_ hs ⟨hx, hw⟩).mono
    fun _ _ h => h.1
  intro u ch r u' ha
  cases ch <;> cases ha <;> exact ⟨rfl, trivial⟩

/-- `CopyStagedCommitToDeltaLog` of a ratified commit. -/
theorem safe_copyStagedCommitToDeltaLog (hs : T.LogInv s) (hx : x ∈ s.ratified) :
    T.publishing.Safe c (copyStagedCommitToDeltaLog (stagedFile T.location x.2)
      (logFile T.location x.1)) (T.Copied x) s := by
  have throws : ∀ {s : LogState} {e : Exception}, T.LogInv s → x ∈ s.ratified →
      T.publishing.Safe c (Prog.throw e : Run Bool) (T.Copied x) s := fun {s e} hs hx =>
    Outline.safe_ofExcept (O := T.publishing) (x := .error e) (stable_copied _) hs ⟨hx, nofun⟩
  refine Outline.Safe.bind (safe_openRead hx) hs ?_ fun e s₁ hs₁ h₁ => throws hs₁ h₁.1
  rintro size s₁ hs₁ ⟨hx₁, h₁⟩
  obtain ⟨hsize, hsource⟩ := h₁ size rfl
  refine Outline.Safe.bind (safe_openExclusive hx₁ hsize hsource) hs₁ ?_
    fun e s₂ hs₂ h₂ => throws hs₂ h₂.1
  rintro created s₂ hs₂ ⟨hx₂, hfound, hcreated⟩
  cases created with
  | false =>
    exact Outline.safe_ofExcept (x := .ok false) (stable_copied _) hs₂
      ⟨hx₂, fun _ _ => hfound rfl⟩
  | true =>
    obtain ⟨hlen, bytes, hc⟩ := hcreated rfl
    refine Outline.Safe.bind (safe_copyLoop _ hs₂ hc (by omega)) hs₂ ?_
      fun e s₃ hs₃ h₃ => throws hs₃ h₃.1
    rintro a s₃ hs₃ ⟨hx₃, hw₃⟩
    refine Outline.Safe.bind (safe_closeFile hs₃ hx₃ (hw₃ a rfl)) hs₃ ?_
      fun e s₄ hs₄ h₄ => throws hs₄ h₄.1
    rintro _ s₄ hs₄ ⟨hx₄, hw₄⟩
    exact Outline.safe_ofExcept (x := .ok true) (stable_copied _) hs₄ ⟨hx₄, fun _ _ => hw₄⟩

/-! ## The backfill -/

theorem stagedPath_eq (c : ℕ) (file_name : String) :
    (T.session c).stagedPath file_name = stagedFile T.location file_name := by
  rw [TableInformation.stagedPath, T.at_location, stagedFile]

theorem publishedPath_eq (c : ℕ) (version : ℕ) :
    (T.session c).publishedPath version = logFile T.location version := by
  rw [TableInformation.publishedPath, T.at_location, logFile]

/-- What is known while a list is worked off: the list, and that the watermark is true. -/
structure Backfilling (T : SharedTable) (l : List Staged) (wm : Option ℕ) (s : LogState) :
    Prop where
  listing : T.Listing s l
  covered : T.Covered s wm

theorem stable_backfilling (l : List Staged) (wm : Option ℕ) :
    T.publishing.Stable c (Backfilling T l wm) :=
  fun _ _ (hr : T.LogRely c _ _) _ _ h => ⟨hr.listing h.listing, hr.toGrows.covered h.covered⟩

/-- The next commit of the list moves the watermark, once it is published whole. -/
theorem Backfilling.advance {l : List Staged} {wm : Option ℕ} {rest : List Staged}
    (h : Backfilling T l wm s) (hs : T.LogInv s) (hx : x ∈ l) (hw : T.Whole s x)
    (hnext : ∀ y ∈ rest, x.1 ≤ y.1)
    (hall : ∀ y ∈ l, y = x ∨ y ∈ rest ∨ ∃ w, wm = some w ∧ y.1 ≤ w) :
    Backfilling T l (some x.1) s := by
  refine ⟨h.listing, ?_⟩
  intro w hwm
  obtain rfl := Option.some.inj hwm
  have hxr := h.listing.ratified x hx
  refine ⟨⟨x, hxr, le_rfl⟩, fun z hz hle => ?_⟩
  rcases h.listing.complete z hz with hzl | hzw | hlater
  · rcases hall z hzl with rfl | hzr | ⟨w, hwm, hzw⟩
    · exact hw
    · have heq : z.1 = x.1 := Nat.le_antisymm hle (hnext z hzr)
      exact hs.distinct z hz x hxr heq ▸ hw
    · exact (h.covered w hwm).2 z hz hzw
  · exact hzw
  · exact absurd hle (Nat.not_le.2 (hlater x hx))

/-- One commit of `BackfillCommits`. -/
def Advanced (x : Staged) (r : Except Exception (Option ℕ)) (s : LogState) : Prop :=
  ∀ v, r = .ok (some v) → v = x.1 ∧ T.Whole s x

theorem safe_backfillOne {commit : UCAPICommit} (hs : T.LogInv s)
    (hx : commit.staged ∈ s.ratified) :
    T.publishing.Safe c
      ((((T.session c).backfillOne commit).bind fun _ => Prog.ret (some commit.version)).tryCatch
        fun _ => Prog.ret none)
      (fun r (s : LogState) => commit.staged ∈ s.ratified ∧
        Advanced (T := T) commit.staged r s) s := by
  have hstable : ∀ r : Except Exception (Option ℕ), T.publishing.Stable c fun s : LogState =>
      commit.staged ∈ s.ratified ∧ Advanced (T := T) commit.staged r s :=
    fun r _ _ (hr : T.LogRely c _ _) _ _ h => ⟨hr.ratified _ h.1, fun v hv =>
      ⟨(h.2 v hv).1, hr.whole _ h.1 (h.2 v hv).2⟩⟩
  have hnone : ∀ (r : Except Exception (Option ℕ)) (s : LogState), (∀ v, r ≠ .ok (some v)) →
      Advanced (T := T) commit.staged r s := fun r s hr v hv => absurd hv (hr v)
  rw [TableInformation.backfillOne, stagedPath_eq, publishedPath_eq, Prog.bind_eq, Prog.bind_assoc]
  refine Outline.Safe.tryCatch (Q := fun r (s : LogState) => commit.staged ∈ s.ratified ∧
    Advanced (T := T) commit.staged r s) ?_ hs ?_ ?_
  · refine Outline.Safe.bind (safe_copyStagedCommitToDeltaLog hs hx) hs ?_ ?_
    · rintro copied s₁ hs₁ ⟨hx₁, hw₁⟩
      rw [optionalIdx]
      split
      · refine Outline.safe_ofExcept (x := .error _) (hstable _) hs₁ ⟨hx₁, hnone _ _ ?_⟩
        rintro v ⟨⟩
      · refine Outline.safe_ofExcept (x := .ok (some commit.version)) (hstable _) hs₁ ⟨hx₁, ?_⟩
        intro v hv
        obtain rfl := Option.some.inj (Except.ok.inj hv)
        exact ⟨rfl, hw₁ copied rfl⟩
    · rintro e s₁ hs₁ ⟨hx₁, -⟩
      refine Outline.safe_ofExcept (x := .error e) (hstable _) hs₁ ⟨hx₁, hnone _ _ ?_⟩
      rintro v ⟨⟩
  · exact fun r s₁ hs₁ h₁ => Outline.safe_ofExcept (x := .ok r) (hstable _) hs₁ h₁
  · intro e s₁ hs₁ h₁
    refine Outline.safe_ofExcept (x := .ok none) (hstable _) hs₁ ⟨h₁.1, hnone _ _ ?_⟩
    rintro v ⟨⟩

theorem safe_backfillLoop {l : List Staged} (commits : List UCAPICommit) {wm : Option ℕ}
    (hs : T.LogInv s) (h : Backfilling T l wm s)
    (hsorted : commits.Pairwise fun a b => a.version ≤ b.version)
    (hmem : ∀ x ∈ commits, x.staged ∈ l)
    (hall : ∀ y ∈ l, y ∈ commits.map UCAPICommit.staged ∨ ∃ w, wm = some w ∧ y.1 ≤ w) :
    T.publishing.Safe c ((T.session c).backfillLoop commits wm)
      (fun r (s : LogState) => ∀ wm', r = .ok wm' → T.Covered s wm') s := by
  have hstable : ∀ r : Except Exception (Option ℕ), T.publishing.Stable c
      fun s : LogState => ∀ wm', r = .ok wm' → T.Covered s wm' :=
    fun r _ _ (hr : T.LogRely c _ _) _ _ h wm' hwm => hr.toGrows.covered (h wm' hwm)
  have stops : ∀ {s : LogState} {wm : Option ℕ}, T.LogInv s → T.Covered s wm →
      T.publishing.Safe c (Prog.ret wm : Run (Option ℕ))
        (fun r (s : LogState) => ∀ wm', r = .ok wm' → T.Covered s wm') s := by
    intro s wm hs hc
    refine Outline.safe_ofExcept (O := T.publishing) (x := .ok wm) (hstable _) hs ?_
    intro wm' hwm
    exact Except.ok.inj hwm ▸ hc
  induction commits generalizing wm s with
  | nil => exact stops hs h.covered
  | cons commit rest ih =>
    obtain ⟨hnext, hsorted⟩ := List.pairwise_cons.1 hsorted
    have hcommit := hmem commit List.mem_cons_self
    have hrest : ∀ x ∈ rest, x.staged ∈ l := fun x hx => hmem x (List.mem_cons_of_mem _ hx)
    -- a commit of the list is this one, one of the rest, or done
    have hall' : ∀ y ∈ l, y = commit.staged ∨ y ∈ rest.map UCAPICommit.staged ∨
        ∃ w, wm = some w ∧ y.1 ≤ w := by
      intro y hy
      rcases hall y hy with hy | hy
      · rcases List.mem_cons.1 hy with hy | hy
        · exact .inl hy
        · exact .inr (.inl hy)
      · exact .inr (.inr hy)
    rw [TableInformation.backfillLoop_cons]
    split
    · rename_i hdone
      obtain ⟨w, hw, hle⟩ := backfilled_eq_true.1 hdone
      refine ih hs h hsorted hrest fun y hy => ?_
      rcases hall' y hy with rfl | hy | hy
      · exact .inr ⟨w, hw, hle⟩
      · exact .inl hy
      · exact .inr hy
    · rename_i hdone
      have hone := safe_backfillOne (c := c) hs (h.listing.ratified _ hcommit)
      refine Outline.Safe.bind (hone.frame hs (Nat.succ_ne_self c) (stable_backfilling l wm)
        (stable_backfilling l wm) h) hs ?_ ?_
      · rintro (_ | v) s₁ hs₁ ⟨h₁, -, hadv⟩
        · exact stops hs₁ h₁.covered
        · obtain ⟨rfl, hw⟩ := hadv v rfl
          refine ih hs₁ (h₁.advance hs₁ hcommit hw ?_ hall') hsorted hrest fun y hy => ?_
          · intro y hy
            obtain ⟨z, hz, rfl⟩ := List.mem_map.1 hy
            exact hnext z hz
          · rcases hall' y hy with rfl | hy | ⟨w, hw, hle⟩
            · exact .inr ⟨_, rfl, le_rfl⟩
            · exact .inl hy
            · refine .inr ⟨_, rfl, ?_⟩
              by_contra hlt
              exact hdone (backfilled_eq_true.2 ⟨w, hw, (Nat.not_le.1 hlt).le.trans hle⟩)
      · exact fun e s₁ hs₁ _ =>
          Outline.safe_ofExcept (x := .error e) (hstable _) hs₁ (by rintro _ ⟨⟩)

/-! ## `InternalAttach` -/

/-- What `LoadTable` returned lists what is not published yet. -/
def Loads (T : SharedTable) (result : UCAPICommitsResult) (s : LogState) : Prop :=
  ∃ l, T.Listing s l ∧ (∀ x ∈ result.commits, x.staged ∈ l) ∧
    ∀ x ∈ l, x ∈ result.commits.map UCAPICommit.staged

theorem stable_loads {β : Type} (r : Except Exception β)
    (f : β → Except Exception UCAPICommitsResult) :
    T.publishing.Stable c fun s => ∀ result, r.bind f = .ok result → Loads T result s := by
  intro u v (hr : T.LogRely c u v) _ _ h result hres
  obtain ⟨l, hl, hrest⟩ := h result hres
  exact ⟨l, hr.listing hl, hrest⟩

theorem safe_listAnswer : T.publishing.Safe c answer (fun r s => ∀ result,
    (r.bind fun resp => (T.session c).loadOutcome resp) = .ok result → Loads T result s) s := by
  refine Outline.safe_perform (fun r => stable_loads r _) ?_
  intro (s₁ : LogState) (hr : T.LogRely c s s₁) (hs₁ : T.LogInv s₁) ch r s₂ _ ha
  have hlist : T.listReply s₁ c ch = some (r, s₂) := ha
  cases ch with
  | respond resp =>
    simp only [listReply] at hlist
    split at hlist
    · rename_i result l hok hl
      split at hlist
      · rename_i hsame
        obtain ⟨rfl, rfl⟩ := Prod.mk.inj (Option.some.inj hlist)
        have hlisting := hs₁.listed c l hl
        have hg : T.Grows s₁ { s₁ with
          taken := Function.update s₁.taken c (l ++ s₁.taken c) } := .of_eq rfl rfl
        refine ⟨⟨hs₁.distinct, hs₁.staged, hg.covered hs₁.published,
          fun d => hg.covered (hs₁.covered d), fun d m hm => hg.listing (hs₁.listed d m hm), ?_,
          hs₁.owner⟩, fun d _ => ⟨hg, rfl, rfl, rfl, fun _ _ => rfl⟩, ?_⟩
        · intro d x (hx : x ∈ Function.update s₁.taken c (l ++ s₁.taken c) d)
          by_cases hd : d = c
          · subst hd
            rw [Function.update_self] at hx
            rcases List.mem_append.1 hx with hx | hx
            · exact hlisting.ratified x hx
            · exact hs₁.taken d x hx
          · rw [Function.update_of_ne hd] at hx
            exact hs₁.taken d x hx
        · intro result' hres
          obtain rfl := Except.ok.inj (hok.symm.trans hres)
          exact ⟨l, hg.listing hlisting, hsame⟩
      · cases hlist
    · cases hlist
    · rename_i e herr
      obtain ⟨rfl, rfl⟩ := Prod.mk.inj (Option.some.inj hlist)
      refine ⟨hs₁, fun d _ => .refl d _, fun result hres => ?_⟩
      have := herr.symm.trans hres
      cases this
  | fail e =>
    obtain ⟨rfl, rfl⟩ := Prod.mk.inj (Option.some.inj hlist)
    exact ⟨hs₁, fun d _ => .refl d _, nofun⟩
  | _ => cases hlist

theorem safe_loadRequest {req : HttpRequest} :
    T.publishing.Safe c (issue req) (fun _ _ => True) s := by
  refine Outline.safe_perform (fun _ => Outline.stable_const _) ?_
  intro (s₁ : LogState) (hr : T.LogRely c s s₁) (hs₁ : T.LogInv s₁) ch r s₂ _ ha
  cases ch <;> cases ha
  have hg : T.Grows s₁ { s₁ with listed := Function.update s₁.listed c none } := .of_eq rfl rfl
  refine ⟨⟨hs₁.distinct, hs₁.staged, hg.covered hs₁.published, fun d => hg.covered (hs₁.covered d),
    ?_, hs₁.taken, hs₁.owner⟩, fun d _ => ⟨hg, rfl, rfl, rfl, fun _ _ => rfl⟩, trivial⟩
  intro d l (hl : Function.update s₁.listed c none d = some l)
  by_cases hd : d = c
  · subst hd
    rw [Function.update_self] at hl
    cases hl
  · rw [Function.update_of_ne hd] at hl
    exact hg.listing (hs₁.listed d l hl)

theorem safe_loadTable (hs : T.LogInv s) : T.publishing.Safe c (T.session c).loadTable
    (fun r s => ∀ result, r = .ok result → Loads T result s) s := by
  have hstable : ∀ r : Except Exception UCAPICommitsResult, T.publishing.Stable c
      fun s : LogState => ∀ result, r = .ok result → Loads T result s := by
    intro r u v (hr : T.LogRely c u v) _ _ h result hres
    obtain ⟨l, hl, hrest⟩ := h result hres
    exact ⟨l, hr.listing hl, hrest⟩
  have throws : ∀ (e : Exception) (s : LogState), T.LogInv s →
      T.publishing.Safe c (Prog.throw e : Run UCAPICommitsResult)
        (fun r (s : LogState) => ∀ result, r = .ok result → Loads T result s) s := fun e s hs =>
    Outline.safe_ofExcept (O := T.publishing) (x := .error e) (hstable _) hs nofun
  rw [TableInformation.loadTable, UCAPI.loadTable_eq]
  refine Outline.Safe.bind (Q := fun _ _ => True) ?_ hs ?_ fun e s₁ hs₁ _ => throws e s₁ hs₁
  · refine Outline.safe_perform (fun _ => Outline.stable_const _) ?_
    intro s₁ _ hs₁ ch r s₂ _ ha
    cases ch <;> cases ha <;> exact ⟨hs₁, fun d _ => LogRely.refl d _, trivial⟩
  · rintro _ s₁ hs₁ -
    refine Outline.Safe.bind safe_loadRequest hs₁ ?_ fun e s₂ hs₂ _ => throws e s₂ hs₂
    rintro _ s₂ hs₂ -
    refine Outline.Safe.bind safe_listAnswer hs₂ ?_ fun e s₃ hs₃ _ => throws e s₃ hs₃
    exact fun resp s₃ hs₃ h₃ => Outline.safe_ofExcept (hstable _) hs₃ h₃

theorem safe_newWatermark {result : UCAPICommitsResult} {wm : Option ℕ} (hs : T.LogInv s)
    (hl : Loads T result s) (hc : T.Covered s wm) :
    T.publishing.Safe c ((T.session c).newWatermark result.commits wm)
      (fun r (s : LogState) => ∀ wm', r = .ok wm' → T.Covered s wm') s := by
  rw [TableInformation.newWatermark]
  split
  · refine Outline.safe_ofExcept (O := T.publishing) (x := .ok wm) ?_ hs fun wm' hwm => ?_
    · exact fun u v (hr : T.LogRely c u v) _ _ h wm' hwm => hr.toGrows.covered (h wm' hwm)
    · exact Except.ok.inj hwm ▸ hc
  · obtain ⟨l, hlisting, hmem, hall⟩ := hl
    refine safe_backfillLoop _ hs ⟨hlisting, hc⟩ ?_ ?_ ?_
    · exact (List.pairwise_insertionSort (fun a b : UCAPICommit => a.version ≤ b.version) _).imp
        fun h => h
    · exact fun x hx => hmem x ((List.mem_insertionSort _).1 hx)
    · intro y hy
      obtain ⟨x, hx, hxy⟩ := List.mem_map.1 (hall y hy)
      exact .inl (List.mem_map.2 ⟨x, (List.mem_insertionSort _).2 hx, hxy⟩)

/-- `LoadTable`, the backfill and the publication of `commit_state`. -/
theorem keeps_loadCommits : T.publishing.Keeps c (T.session c).loadCommits := by
  intro s hs
  refine Outline.Safe.bind_keeps (safe_loadTable hs) hs fun result s₁ hs₁ hl => ?_
  have hl₁ : Loads T result s₁ := hl result rfl
  refine Outline.Safe.bind_keeps (Q := fun r (s : LogState) => Loads T result s ∧
    ∀ cs, r = .ok cs → T.Covered s cs.backfilled_version) ?_ hs₁ ?_
  · refine Outline.safe_perform ?_ ?_
    · rintro r u v (hr : T.LogRely c u v) - - ⟨⟨l, hl, hrest⟩, hcs⟩
      exact ⟨⟨l, hr.listing hl, hrest⟩, fun cs h => hr.toGrows.covered (hcs cs h)⟩
    · intro (s₂ : LogState) (hr : T.LogRely c s₁ s₂) (hs₂ : T.LogInv s₂) ch r s₃ _ ha
      cases ch <;> cases ha
      obtain ⟨l, hl, hrest⟩ := hl₁
      refine ⟨hs₂, fun d _ => .refl d _, ⟨l, hr.listing hl, hrest⟩, fun cs h => ?_⟩
      obtain rfl := Except.ok.inj h
      exact hs₂.covered c
  · rintro cs s₂ hs₂ ⟨hl₂, hcs⟩
    refine Outline.Safe.bind_keeps (safe_newWatermark hs₂ hl₂ (hcs cs rfl)) hs₂ ?_
    intro wm s₃ hs₃ hwm
    refine Outline.Safe.bind_keeps (Q := fun _ _ => True) ?_ hs₃ fun _ s₄ hs₄ _ =>
      Outline.keeps_ret result s₄ hs₄
    refine Outline.safe_perform (fun _ => Outline.stable_const _) ?_
    intro (s₄ : LogState) (hr : T.LogRely c s₃ s₄) (hs₄ : T.LogInv s₄) ch r s₅ _ ha
    cases ch <;> cases ha
    have hwm₄ : T.Covered s₄ wm := hr.toGrows.covered (hwm wm rfl)
    have hg : T.Grows s₄ { s₄ with
      commit_state := Function.update s₄.commit_state c ⟨result.etag, wm⟩ } := .of_eq rfl rfl
    refine ⟨⟨hs₄.distinct, hs₄.staged, hg.covered hs₄.published, fun d => ?_,
      fun d l hl => hg.listing (hs₄.listed d l hl), hs₄.taken, hs₄.owner⟩, fun d hd => ?_, trivial⟩
    · show T.Covered _ (Function.update s₄.commit_state c _ d).backfilled_version
      by_cases hd : d = c
      · subst hd
        rw [Function.update_self]
        exact hg.covered hwm₄
      · rw [Function.update_of_ne hd]
        exact hg.covered (hs₄.covered d)
    · exact ⟨hg, Function.update_of_ne hd .., rfl, rfl, fun _ _ => rfl⟩

/-- The operations on what a session has attached. -/
def Op.IsAttachment : Op → Prop
  | .lockAttach => True
  | .unlockAttach => True
  | .isDirty => True
  | .setDirty _ => True
  | .attached => True
  | .setAttached _ => True
  | .tryGetTransaction _ => True
  | .attachDatabase _ => True
  | .detachDatabase _ => True
  | _ => False

theorem keeps_of_attachment {β : Type} {p : Run β} (hp : p.Uses Op.IsAttachment) :
    T.publishing.Keeps c p := by
  refine Outline.keeps_of_uses hp ?_
  intro s op ch r s' hop ha
  cases op <;> first | exact absurd hop not_false | skip
  case attachDatabase info =>
    rcases ch with _ | _ | _ | _ | (_ | db) | _ | _ <;> cases ha <;> rfl
  all_goals
    cases ch <;> cases ha <;> rfl

theorem keeps_withAttachLock {β : Type} {p : Run β} (hp : T.publishing.Keeps c p) :
    T.publishing.Keeps c (withAttachLock p) := by
  have hunlock : T.publishing.Keeps c unlockAttach :=
    keeps_of_attachment (Prog.uses_perform trivial)
  refine Outline.Keeps.bind (keeps_of_attachment (Prog.uses_perform trivial)) fun _ => ?_
  refine Outline.Keeps.bind (Outline.Keeps.tryCatch hp fun e => ?_) fun a => ?_
  · exact hunlock.bind fun _ => Outline.keeps_throw e
  · exact hunlock.bind fun _ => Outline.keeps_ret a

theorem keeps_attachFresh : T.publishing.Keeps c (T.session c).attachFresh := by
  refine Outline.Keeps.bind ?_ fun managed => ?_
  · rw [TableInformation.loadManaged, if_pos (T.session c).managed]
    exact keeps_loadCommits.bind fun result => Outline.keeps_ret (some result)
  · refine keeps_of_attachment ((Prog.uses_perform trivial).bind fun db => ?_)
    exact Prog.uses_perform trivial

/-- **`InternalAttach`** keeps the invariant, whatever it is answered and wherever it fails. -/
theorem keeps_internalAttach : T.publishing.Keeps c (T.session c).internalAttach := by
  refine keeps_withAttachLock ?_
  have htail : T.publishing.Keeps c (attached.bind fun db =>
      if db.isSome then pure () else (T.session c).attachFresh) := by
    refine Outline.Keeps.bind (keeps_of_attachment (Prog.uses_perform trivial)) fun db => ?_
    split
    · exact Outline.keeps_ret ()
    · exact keeps_attachFresh
  have hread : readByThisTransaction.Uses Op.IsAttachment := by
    refine (Prog.uses_perform trivial).bind fun db => ?_
    cases db with
    | some db => exact Prog.uses_perform trivial
    | none => trivial
  have hdetach : (T.session c).internalDetach.Uses Op.IsAttachment := by
    refine (Prog.uses_perform trivial).bind fun db => ?_
    split
    · exact (Prog.uses_perform trivial).bind fun _ => Prog.uses_perform trivial
    · trivial
  refine Outline.Keeps.bind (keeps_of_attachment hread) fun read => ?_
  refine Outline.Keeps.bind (keeps_of_attachment (Prog.uses_perform trivial)) fun dirty => ?_
  split
  · refine Outline.Keeps.bind (keeps_of_attachment hdetach) fun _ => ?_
    exact Outline.Keeps.bind (keeps_of_attachment (Prog.uses_perform trivial)) fun _ => htail
  · exact htail

/-- **Backfill publishes whole commits only** in every run in which whoever finds a commit's file
already there finds it whole. -/
theorem publishesWhole_of_findsWhole {cfg : T.attaches.Config}
    (h : T.attaches.system.ReachableWhile T.findsWhole.Meets cfg) : T.PublishesWhole cfg.state := by
  refine LogInv.publishesWhole (Outline.sound (O := T.publishing) (Q := fun _ _ _ => True)
    ?_ ?_ ?_ ?_ h).1
  · intro s hs
    rw [show s = {} from hs]
    exact ⟨nofun, nofun, nofun, nofun, nofun, nofun, nofun⟩
  · intro s c call p s' hs hst
    obtain ⟨rfl, rfl⟩ := Prod.mk.inj (Option.some.inj hst)
    exact ⟨hs, fun d _ => .refl d _, keeps_internalAttach _ hs⟩
  · exact fun s c r hs _ => ⟨hs, fun d _ => .refl d _⟩
  · exact fun s e s' hs _ he => LogInv.env hs he

/-! ## Two runs -/

/-- One table, and sessions that see the same of it. -/
def exampleShared : SharedTable := ⟨fun _ => exampleManaged, "/t", fun _ => rfl⟩

/-- An answer to `LoadTable` that lists version 1. -/
def commitsResponse : HttpResponse :=
  ⟨200, true, "", [],
    "\x7b\"metadata\":\x7b\"etag\":\"e1\"\x7d,\"latest-table-version\":1,\"commits\":[" ++
    "\x7b\"version\":1,\"timestamp\":1,\"file-name\":\"f\",\"file-size\":2," ++
    "\"file-modification-timestamp\":1\x7d]\x7d"⟩

/-- A commit is staged and ratified. -/
def exampleRatified : List exampleShared.attaches.Label :=
  [.env (.stage "f" [1, 2]), .env (.ratify 1 "f")]

/-- The answers to a session's next operations. -/
def exampleAnswers (session : ℕ) (answers : List LogChoice) : List exampleShared.attaches.Label :=
  answers.map fun ch => .op session ch

/-- A session's `InternalAttach`, with the answers given in its copy. -/
def exampleAttach (session : ℕ) (copy : List LogChoice) : List exampleShared.attaches.Label :=
  [.start session ()] ++
    exampleAnswers session
      [.proceed, .database none, .flag false, .database none, .proceed, .proceed] ++
    [.env (.load session)] ++
    exampleAnswers session ([.respond commitsResponse, .proceed] ++ copy ++
      [.proceed, .database (some 0), .proceed, .proceed]) ++
    [.finish session]

/-- Nothing is attached, staged or ratified. -/
def exampleLog : exampleShared.attaches.Config := ⟨({} : LogState), fun _ => none⟩

/-- A copy fails after one of two bytes; the next session finds the file there and counts it. -/
theorem torn_copy_is_counted :
    ∃ cfg, exampleShared.attaches.system.Reachable cfg ∧
      ¬ exampleShared.PublishesWhole cfg.state := by
  have h : (exampleShared.attaches.replay (fun _ _ => true) (exampleRatified ++
      exampleAttach 0 [.proceed, .proceed, .bytes 2, .torn 1 (ioException "write failed")] ++
      exampleAttach 1 [.proceed, .proceed]) exampleLog).map
        (fun cfg : exampleShared.attaches.Config =>
          (LogState.taken cfg.state 1, LogState.commit_state cfg.state 1,
            LogState.files cfg.state (logFile "/t" 1),
            LogState.files cfg.state (stagedFile "/t" "f"))) =
      some ([(1, "f")], ⟨"e1", some 1⟩, some [1], some [1, 2]) := by
    decide +kernel
  obtain ⟨cfg, hcfg, hst⟩ := Option.map_eq_some_iff.1 h
  obtain ⟨htaken, hst⟩ := Prod.mk.inj hst
  obtain ⟨hcs, hst⟩ := Prod.mk.inj hst
  obtain ⟨hlog, hstaged⟩ := Prod.mk.inj hst
  refine ⟨cfg, ⟨exampleLog, ⟨rfl, rfl⟩, Pool.run_of_replay (fun _ _ _ => trivial) hcfg⟩,
    fun hp => ?_⟩
  obtain ⟨bytes, hb, hl⟩ := hp 1 (1, "f") (by rw [htaken]; exact List.mem_cons_self) 1
    (by rw [hcs]) le_rfl
  have hsame : some [1, 2] = some ([1] : Bytes) :=
    hstaged.symm.trans (hb.trans (hl.symm.trans hlog))
  cases hsame

/-- Whether a step finds no torn file. -/
def findsWholeCheck (cfg : exampleShared.attaches.Config) : exampleShared.attaches.Label → Bool
  | .op c _ =>
    match cfg.threads c with
    | some (.call (.openExclusive path) _) =>
      decide (∀ x ∈ LogState.ratified cfg.state, logFile "/t" x.1 = path →
        LogState.files cfg.state path = none ∨
          LogState.files cfg.state (stagedFile "/t" x.2) = LogState.files cfg.state path)
    | _ => true
  | _ => true

theorem findsWholeCheck_meets (cfg : exampleShared.attaches.Config)
    (l : exampleShared.attaches.Label) (h : findsWholeCheck cfg l = true) :
    exampleShared.findsWhole.Meets cfg l := by
  cases l with
  | op c ch =>
    intro op k hop _ path hpath hne x hx hxp
    subst hpath
    simp only [findsWholeCheck, hop, decide_eq_true_eq] at h
    rcases h x hx hxp with hnone | hsame
    · exact absurd hnone hne
    · obtain ⟨bytes, hb⟩ := Option.ne_none_iff_exists'.1 hne
      refine ⟨bytes, hsame.trans hb, ?_⟩
      exact (congrArg (LogState.files cfg.state) hxp).trans hb
  | _ => trivial

/-- A whole copy, and a second session that finds it there. -/
theorem publishesWhole_of_findsWhole_copied :
    ∃ cfg : exampleShared.attaches.Config,
      (LogState.commit_state cfg.state 1).backfilled_version = some 1 ∧
        exampleShared.PublishesWhole cfg.state := by
  have h : (exampleShared.attaches.replay findsWholeCheck (exampleRatified ++
      exampleAttach 0 [.proceed, .proceed, .bytes 2, .proceed, .bytes 2, .proceed] ++
      exampleAttach 1 [.proceed, .proceed]) exampleLog).map
        (fun cfg : exampleShared.attaches.Config => LogState.commit_state cfg.state 1) =
      some ⟨"e1", some 1⟩ := by
    decide +kernel
  obtain ⟨cfg, hcfg, hcs⟩ := Option.map_eq_some_iff.1 h
  exact ⟨cfg, by rw [hcs], publishesWhole_of_findsWhole
    ⟨exampleLog, ⟨rfl, rfl⟩, Pool.run_of_replay findsWholeCheck_meets hcfg⟩⟩

end SharedTable

end UnityCatalog
