import UnityCatalog.Prog
import UnityCatalog.Steps

/-!
# Threads: programs interleaved operation by operation

A library module. A `Pool` is a world whose contexts run programs at the same time: a step starts a
program in an idle context, performs the next operation of a running one, retires a finished one, or
is a step of the environment's own. Every interleaving is a run of `Pool.system`.

The proof rule is **rely/guarantee**. An `Outline` names an invariant of the shared state and, for
each context, how the others may change the state under it (`rely`). `Outline.Safe` walks a program
and asks, at every operation and in every state the others may have led to, that the operation keeps
the invariant and stays within what the others rely on. `Outline.sound` then gives the invariant in
every reachable state of every interleaving. A `Guard` restricts which answers and environment steps
are looked at: the rule proves properties of the runs all of whose steps meet it.
-/

namespace Effectful

variable {F : Signature} {ε α β : Type}

/-- A world of threads. -/
structure Pool (F : Signature) (ε α : Type) extends World F ε where
  /-- what a context can be asked to run -/
  Call : Type
  /-- the program of a call and the state it starts in; `none` where the call is not possible -/
  start : State → Ctx → Call → Option (Prog F ε α × State)
  /-- what the end of a program leaves behind -/
  finish : State → Ctx → Except ε α → State
  /-- steps no program takes -/
  Env : Type
  /-- the effect of such a step; `none` where it is not possible -/
  env : State → Env → Option State
  /-- initial states; every context starts idle -/
  init : State → Prop

namespace Pool

variable (P : Pool F ε α)

/-- The shared state and what each context has left to run. -/
structure Config where
  /-- the shared state -/
  state : P.State
  /-- the rest of each running program -/
  threads : P.Ctx → Option (Prog F ε α)

/-- The steps of a pool. -/
inductive Label where
  /-- an idle context starts a call -/
  | start (c : P.Ctx) (call : P.Call)
  /-- a running context performs its next operation -/
  | op (c : P.Ctx) (ch : P.Choice)
  /-- a context whose program has ended becomes idle -/
  | finish (c : P.Ctx)
  /-- the environment moves -/
  | env (e : P.Env)

variable [DecidableEq P.Ctx]

/-- One step; `none` where it is not possible. -/
def next (cfg : P.Config) : P.Label → Option P.Config
  | .start c call =>
    match cfg.threads c with
    | some _ => none
    | none =>
      match P.start cfg.state c call with
      | some (p, s) => some ⟨s, Function.update cfg.threads c (some p)⟩
      | none => none
  | .op c ch =>
    match cfg.threads c with
    | some (.call op k) =>
      match P.answer c cfg.state op ch with
      | some (x, s) => some ⟨s, Function.update cfg.threads c (some (k x))⟩
      | none => none
    | _ => none
  | .finish c =>
    match cfg.threads c with
    | some (.ret a) => some ⟨P.finish cfg.state c (.ok a), Function.update cfg.threads c none⟩
    | some (.throw e) =>
      some ⟨P.finish cfg.state c (.error e), Function.update cfg.threads c none⟩
    | _ => none
  | .env e =>
    match P.env cfg.state e with
    | some s => some ⟨s, cfg.threads⟩
    | none => none

section

variable {P} {cfg cfg' : P.Config} {c : P.Ctx}

/-- **What a step does**, and when it is possible. An idle context starts the program of a call. -/
theorem next_start {call : P.Call} :
    P.next cfg (.start c call) = some cfg' ↔ cfg.threads c = none ∧
      ∃ p s, P.start cfg.state c call = some (p, s) ∧
        cfg' = ⟨s, Function.update cfg.threads c (some p)⟩ := by
  rw [next]
  cases cfg.threads c with
  | some p => simp
  | none =>
    cases P.start cfg.state c call with
    | none => simp
    | some y => simp [Prod.ext_iff, eq_comm]

/-- A running context performs the operation its program is at, and goes on with the answer. -/
theorem next_op {ch : P.Choice} :
    P.next cfg (.op c ch) = some cfg' ↔ ∃ op k x s, cfg.threads c = some (.call op k) ∧
      P.answer c cfg.state op ch = some (x, s) ∧
        cfg' = ⟨s, Function.update cfg.threads c (some (k x))⟩ := by
  rw [next]
  constructor
  · intro h
    split at h
    · rename_i op k hc
      split at h
      · rename_i x s ha
        exact ⟨op, k, x, s, hc, ha, (Option.some.inj h).symm⟩
      · cases h
    · cases h
  · rintro ⟨op, k, x, s, hc, ha, rfl⟩
    simp only [hc, ha]

/-- A context whose program has ended becomes idle, with whatever the end leaves behind. -/
theorem next_finish :
    P.next cfg (.finish c) = some cfg' ↔ ∃ r, cfg.threads c = some (Prog.ofExcept r) ∧
      cfg' = ⟨P.finish cfg.state c r, Function.update cfg.threads c none⟩ := by
  rw [next]
  constructor
  · intro h
    split at h
    · rename_i a hc
      exact ⟨.ok a, hc, (Option.some.inj h).symm⟩
    · rename_i e hc
      exact ⟨.error e, hc, (Option.some.inj h).symm⟩
    · cases h
  · rintro ⟨a | a, hc, rfl⟩ <;> simp only [hc, Prog.ofExcept]

/-- A step of the environment leaves all programs as they are. -/
theorem next_env {e : P.Env} :
    P.next cfg (.env e) = some cfg' ↔ ∃ s, P.env cfg.state e = some s ∧
      cfg' = ⟨s, cfg.threads⟩ := by
  rw [next]
  cases P.env cfg.state e <;> simp [eq_comm]

end

/-- The interleavings of a pool as a step system. -/
def system : StepSystem where
  State := P.Config
  Label := P.Label
  init cfg := P.init cfg.state ∧ cfg.threads = fun _ => none
  step cfg l cfg' := P.next cfg l = some cfg'

/-- Perform the steps in order, as long as each passes the check; `none` as soon as one does not or
is not possible. -/
def replay (check : P.Config → P.Label → Bool) : List P.Label → P.Config → Option P.Config
  | [], cfg => some cfg
  | l :: ls, cfg =>
    if check cfg l then
      match P.next cfg l with
      | some cfg' => replay check ls cfg'
      | none => none
    else none

variable {P}

/-- A replay is a run. -/
theorem run_of_replay {ok : P.Config → P.Label → Prop} {check : P.Config → P.Label → Bool}
    (hcheck : ∀ cfg l, check cfg l = true → ok cfg l) {ls : List P.Label} :
    ∀ {cfg cfg' : P.Config}, P.replay check ls cfg = some cfg' → P.system.Run ok cfg cfg' := by
  induction ls with
  | nil =>
    intro cfg cfg' h
    obtain rfl := Option.some.inj h
    exact .refl
  | cons l ls ih =>
    intro cfg cfg' h
    simp only [replay] at h
    split at h
    · rename_i hc
      rcases hn : P.next cfg l with _ | cfg₁
      · rw [hn] at h
        cases h
      · rw [hn] at h
        exact (StepSystem.Run.tail l .refl (hcheck cfg l hc) hn).trans (ih h)
    · cases h

end Pool

/-! ## Conditions on steps -/

/-- Which operations' answers and which environment steps a theorem looks at. -/
structure Guard (P : Pool F ε α) where
  /-- the answers looked at -/
  op : P.State → P.Ctx → F.Op → P.Choice → Prop
  /-- the environment's steps looked at -/
  env : P.State → P.Env → Prop

/-- A step of the pool meets the guard. -/
def Guard.Meets {P : Pool F ε α} (g : Guard P) (cfg : P.Config) : P.Label → Prop
  | .op c ch => ∀ op k, cfg.threads c = some (.call op k) → g.op cfg.state c op ch
  | .env e => g.env cfg.state e
  | _ => True

/-! ## Rely/guarantee -/

/-- An invariant of the shared state, and for each context how the others may change the state
under it. -/
structure Outline (P : Pool F ε α) where
  /-- the steps looked at -/
  guard : Guard P
  /-- holds in every state -/
  inv : P.State → Prop
  /-- how the others may change the state while `c` runs -/
  rely : P.Ctx → P.State → P.State → Prop
  /-- nothing happened -/
  rely_refl : ∀ c s, rely c s s
  /-- one change after another -/
  rely_trans : ∀ c s t u, rely c s t → rely c t u → rely c s u

namespace Outline

variable {P : Pool F ε α} (O : Outline P)

/-- From `s`, `c` runs `p` to its end with `Q`, whatever the others do in between: every operation
keeps the invariant and what every other context relies on. -/
def Safe (c : P.Ctx) : Prog F ε β → (Except ε β → P.State → Prop) → P.State → Prop
  | .ret a, Q, s => ∀ s', O.rely c s s' → O.inv s' → Q (.ok a) s'
  | .throw e, Q, s => ∀ s', O.rely c s s' → O.inv s' → Q (.error e) s'
  | .call op k, Q, s =>
    ∀ s', O.rely c s s' → O.inv s' → ∀ ch x s'', O.guard.op s' c op ch →
      P.answer c s' op ch = some (x, s'') →
        O.inv s'' ∧ (∀ d, d ≠ c → O.rely d s' s'') ∧ Safe c (k x) Q s''

variable {O} {c : P.Ctx} {s t : P.State} {γ : Type}

/-- What the others do does not make a program unsafe. -/
theorem Safe.rely {p : Prog F ε β} {Q : Except ε β → P.State → Prop} (h : O.Safe c p Q s)
    (hr : O.rely c s t) : O.Safe c p Q t := by
  cases p with
  | ret a => exact fun s' hs' => h s' (O.rely_trans _ _ _ _ hr hs')
  | throw e => exact fun s' hs' => h s' (O.rely_trans _ _ _ _ hr hs')
  | call op k => exact fun s' hs' => h s' (O.rely_trans _ _ _ _ hr hs')

/-- Sequencing. -/
theorem Safe.bind {p : Prog F ε β} {f : β → Prog F ε γ} {Q : Except ε β → P.State → Prop}
    {Q' : Except ε γ → P.State → Prop} (hp : O.Safe c p Q s) (hs : O.inv s)
    (hok : ∀ a s, O.inv s → Q (.ok a) s → O.Safe c (f a) Q' s)
    (herr : ∀ e s, O.inv s → Q (.error e) s → O.Safe c (.throw e : Prog F ε γ) Q' s) :
    O.Safe c (p.bind f) Q' s := by
  induction p generalizing s with
  | ret a => exact hok a s hs (hp s (O.rely_refl c s) hs)
  | throw e => exact herr e s hs (hp s (O.rely_refl c s) hs)
  | call op k ih =>
    intro s' hs' hi ch x s'' hg ha
    obtain ⟨hi'', hothers, hk⟩ := hp s' hs' hi ch x s'' hg ha
    exact ⟨hi'', hothers, ih x hk hi''⟩

/-- An end for a value and one for an error. -/
def ending (A : β → P.State → Prop) (B : ε → P.State → Prop) : Except ε β → P.State → Prop
  | .ok a => A a
  | .error e => B e

/-- Handlers. -/
theorem Safe.tryCatch {p : Prog F ε β} {h : ε → Prog F ε β} {Q Q' : Except ε β → P.State → Prop}
    (hp : O.Safe c p Q s) (hs : O.inv s)
    (hok : ∀ a s, O.inv s → Q (.ok a) s → O.Safe c (.ret a : Prog F ε β) Q' s)
    (herr : ∀ e s, O.inv s → Q (.error e) s → O.Safe c (h e) Q' s) :
    O.Safe c (p.tryCatch h) Q' s := by
  induction p generalizing s with
  | ret a => exact hok a s hs (hp s (O.rely_refl c s) hs)
  | throw e => exact herr e s hs (hp s (O.rely_refl c s) hs)
  | call op k ih =>
    intro s' hs' hi ch x s'' hg ha
    obtain ⟨hi'', hothers, hk⟩ := hp s' hs' hi ch x s'' hg ha
    exact ⟨hi'', hothers, ih x hk hi''⟩

/-- The others do not break `Q` under `c`. -/
def Stable (O : Outline P) (c : P.Ctx) (Q : P.State → Prop) : Prop :=
  ∀ s t, O.rely c s t → O.inv s → O.inv t → Q s → Q t

theorem Stable.and {Q R : P.State → Prop} (hQ : O.Stable c Q) (hR : O.Stable c R) :
    O.Stable c fun s => Q s ∧ R s :=
  fun s t hr hs ht h => ⟨hQ s t hr hs ht h.1, hR s t hr hs ht h.2⟩

theorem stable_const (q : Prop) : O.Stable c fun _ => q :=
  fun _ _ _ _ _ h => h

/-- The end of a program. -/
theorem safe_ofExcept {x : Except ε β} {Q : Except ε β → P.State → Prop} (hQ : O.Stable c (Q x))
    (hs : O.inv s) (h : Q x s) : O.Safe c (Prog.ofExcept x) Q s := by
  cases x with
  | ok a => exact fun s' hr hs' => hQ s s' hr hs hs' h
  | error e => exact fun s' hr hs' => hQ s s' hr hs hs' h

/-- **Brackets.** A program between two operations, of which the second is performed however the
program ends. -/
theorem Safe.bracket {enter leave : Prog F ε Unit} {p : Prog F ε β} {H : P.State → Prop}
    {K L : Except ε β → P.State → Prop}
    (henter : O.Safe c enter (fun x s => x = .ok () ∧ H s) s) (hs : O.inv s)
    (hp : ∀ s, O.inv s → H s → O.Safe c p K s)
    (hleave : ∀ r s, O.inv s → K r s → O.Safe c leave (fun x s => x = .ok () ∧ L r s) s)
    (hK : ∀ r, O.Stable c (K r)) (hL : ∀ r, O.Stable c (L r)) :
    O.Safe c (enter.bind fun _ => (p.tryCatch fun e => leave.bind fun _ => .throw e).bind fun a =>
      leave.bind fun _ => .ret a) L s := by
  refine henter.bind hs (fun _ s₁ hs₁ h₁ => ?_) fun e s₁ _ h₁ => nomatch h₁.1
  -- at the inner bind a value is still in the bracket, and an error is out of it
  refine Safe.bind (Q := fun r s => (∀ a, r = .ok a → K r s) ∧ ∀ e, r = .error e → L (.error e) s)
    ?_ hs₁ (fun a s₂ hs₂ h₂ => ?_) fun e s₂ hs₂ h₂ => ?_
  · have stable (r : Except ε β) : O.Stable c fun s =>
        (∀ a, r = .ok a → K r s) ∧ ∀ e, r = .error e → L (.error e) s := fun u v hrel hu hv h =>
      ⟨fun a ha => hK r u v hrel hu hv (h.1 a ha), fun e he => hL _ u v hrel hu hv (h.2 e he)⟩
    refine (hp s₁ hs₁ h₁.2).tryCatch hs₁ (fun a s₂ hs₂ h₂ => ?_) fun e s₂ hs₂ h₂ => ?_
    · exact safe_ofExcept (x := .ok a) (stable _) hs₂ ⟨fun _ _ => h₂, nofun⟩
    · refine (hleave _ s₂ hs₂ h₂).bind hs₂ (fun _ s₃ hs₃ h₃ => ?_) fun e' s₃ _ h₃ => nomatch h₃.1
      refine safe_ofExcept (x := .error e) (stable _) hs₃ ⟨nofun, fun e' he => ?_⟩
      cases he
      exact h₃.2
  · refine (hleave _ s₂ hs₂ (h₂.1 a rfl)).bind hs₂ (fun _ s₃ hs₃ h₃ => ?_) fun e s₃ _ h₃ =>
      nomatch h₃.1
    exact safe_ofExcept (x := .ok a) (hL _) hs₃ h₃.2
  · exact safe_ofExcept (x := .error e) (hL _) hs₂ (h₂.2 e rfl)

/-- One operation, with an assertion `Q` the others do not break. -/
theorem safe_perform {op : F.Op} {Q : Except ε (F.Ans op) → P.State → Prop}
    (hstable : ∀ x s t, O.rely c s t → O.inv s → O.inv t → Q x s → Q x t)
    (h : ∀ s', O.rely c s s' → O.inv s' → ∀ ch x s'', O.guard.op s' c op ch →
      P.answer c s' op ch = some (x, s'') →
        O.inv s'' ∧ (∀ d, d ≠ c → O.rely d s' s'') ∧ Q x s'') :
    O.Safe c (Prog.perform op) Q s := by
  intro s' hs' hi ch x s'' hg ha
  obtain ⟨hi'', hothers, hq⟩ := h s' hs' hi ch x s'' hg ha
  refine ⟨hi'', hothers, ?_⟩
  cases x with
  | ok a => exact fun u hu hiu => hstable _ _ _ hu hi'' hiu hq
  | error e => exact fun u hu hiu => hstable _ _ _ hu hi'' hiu hq

/-- One operation that changes nothing: what held before it still does, whatever it answers. -/
theorem safe_perform_idle {op : F.Op} {Q : P.State → Prop} {R : Except ε (F.Ans op) → Prop}
    (hQ : O.Stable c Q)
    (h : ∀ s ch x s', P.answer c s op ch = some (x, s') → s' = s ∧ R x)
    (hs : O.inv s) (hq : Q s) : O.Safe c (Prog.perform op) (fun x s => Q s ∧ R x) s := by
  refine safe_perform (fun x => hQ.and (stable_const (R x))) ?_
  intro s' hr hs' ch x s'' _ ha
  obtain ⟨rfl, hx⟩ := h s' ch x s'' ha
  exact ⟨hs', fun d _ => O.rely_refl d _, hQ s _ hr hs hs' hq, hx⟩

/-- An operation that only answers, first of a program. -/
theorem safe_call_idle {op : F.Op} {k : Except ε (F.Ans op) → Prog F ε β}
    {Q : Except ε β → P.State → Prop}
    (h : ∀ s ch x s', P.answer c s op ch = some (x, s') → s' = s ∧ ∃ a, x = .ok a)
    (hk : ∀ a s, O.inv s → O.Safe c (k (.ok a)) Q s) : O.Safe c (.call op k) Q s := by
  intro s' _ hs' ch x s'' _ ha
  obtain ⟨rfl, a, rfl⟩ := h s' ch x s'' ha
  exact ⟨hs', fun d _ => O.rely_refl d _, hk a _ hs'⟩

/-- A weaker end. -/
theorem Safe.mono {p : Prog F ε β} {Q Q' : Except ε β → P.State → Prop} (h : O.Safe c p Q s)
    (hQ : ∀ r s, Q r s → Q' r s) : O.Safe c p Q' s := by
  induction p generalizing s with
  | ret a => exact fun s' hr hs' => hQ _ _ (h s' hr hs')
  | throw e => exact fun s' hr hs' => hQ _ _ (h s' hr hs')
  | call op k ih =>
    intro s' hr hs' ch x s'' hg ha
    obtain ⟨hs'', hothers, hk⟩ := h s' hr hs' ch x s'' hg ha
    exact ⟨hs'', hothers, ih x hk⟩

/-- **Frame.** What neither `c` nor another context lets the others break, `c` itself keeps too: its
operations stay within what that context relies on. -/
theorem Safe.frame {p : Prog F ε β} {Q : Except ε β → P.State → Prop} {I : P.State → Prop}
    {d : P.Ctx} (h : O.Safe c p Q s) (hs : O.inv s) (hd : d ≠ c) (hc : O.Stable c I)
    (hI : O.Stable d I) (hi : I s) : O.Safe c p (fun r s => I s ∧ Q r s) s := by
  induction p generalizing s with
  | ret a => exact fun s' hr hs' => ⟨hc s s' hr hs hs' hi, h s' hr hs'⟩
  | throw e => exact fun s' hr hs' => ⟨hc s s' hr hs hs' hi, h s' hr hs'⟩
  | call op k ih =>
    intro s' hr hs' ch x s'' hg ha
    obtain ⟨hs'', hothers, hk⟩ := h s' hr hs' ch x s'' hg ha
    have hi'' : I s'' := hI s' s'' (hothers d hd) hs' hs'' (hc s s' hr hs hs' hi)
    exact ⟨hs'', hothers, ih x hk hs'' hi''⟩

/-- What a program returns, in any world, it returns here. -/
theorem Safe.returns {p : Prog F ε β} {Q : Except ε β → P.State → Prop} {A : β → Prop}
    (h : O.Safe c p Q s) (hp : p.Returns A) :
    O.Safe c p (fun r s => (∀ a, r = .ok a → A a) ∧ Q r s) s := by
  induction p generalizing s with
  | ret a => exact fun s' hr hs' => ⟨fun _ hb => Except.ok.inj hb ▸ hp, h s' hr hs'⟩
  | throw e => exact fun s' hr hs' => ⟨nofun, h s' hr hs'⟩
  | call op k ih =>
    intro s' hr hs' ch x s'' hg ha
    obtain ⟨hs'', hothers, hk⟩ := h s' hr hs' ch x s'' hg ha
    exact ⟨hs'', hothers, ih x hk (hp x)⟩

/-- Operations each of which keeps the invariant, what the others rely on, and `Q`. -/
theorem safe_of_each {I : F.Op → Prop} {p : Prog F ε β} {Q : P.State → Prop} (hp : p.Uses I)
    (h : ∀ s op ch x s', O.inv s → Q s → I op → P.answer c s op ch = some (x, s') →
      O.inv s' ∧ (∀ d, d ≠ c → O.rely d s s') ∧ Q s') (hQ : O.Stable c Q)
    (hs : O.inv s) (hq : Q s) : O.Safe c p (fun _ => Q) s := by
  induction p generalizing s with
  | ret a => exact fun s' hr hs' => hQ s s' hr hs hs' hq
  | throw e => exact fun s' hr hs' => hQ s s' hr hs hs' hq
  | call op k ih =>
    intro s' hr hs' ch x s'' _ ha
    obtain ⟨hs'', hothers, hq'⟩ := h s' op ch x s'' hs' (hQ s s' hr hs hs' hq) hp.1 ha
    exact ⟨hs'', hothers, ih x (hp.2 x) hs'' hq'⟩

/-- Operations that leave the state alone leave what held before them. -/
theorem safe_of_uses {I : F.Op → Prop} {p : Prog F ε β} {Q : P.State → Prop} (hp : p.Uses I)
    (h : ∀ s op ch x s', I op → P.answer c s op ch = some (x, s') → s' = s) (hQ : O.Stable c Q)
    (hs : O.inv s) (hq : Q s) : O.Safe c p (fun _ => Q) s := by
  refine safe_of_each hp (fun s op ch x s' hs hq hop ha => ?_) hQ hs hq
  obtain rfl := h s op ch x s' hop ha
  exact ⟨hs, fun d _ => O.rely_refl d _, hq⟩

/-! ### Programs of which only the invariant is asked -/

/-- From every state, `c` runs `p` keeping the invariant and what the others rely on. -/
def Keeps (O : Outline P) (c : P.Ctx) (p : Prog F ε β) : Prop :=
  ∀ s, O.inv s → O.Safe c p (fun _ _ => True) s

theorem keeps_ret (a : β) : O.Keeps c (.ret a : Prog F ε β) :=
  fun _ _ _ _ _ => trivial

theorem keeps_throw (e : ε) : O.Keeps c (.throw e : Prog F ε β) :=
  fun _ _ _ _ _ => trivial

theorem Safe.bind_keeps {p : Prog F ε β} {f : β → Prog F ε γ} {Q : Except ε β → P.State → Prop}
    (hp : O.Safe c p Q s) (hs : O.inv s)
    (hf : ∀ a s, O.inv s → Q (.ok a) s → O.Safe c (f a) (fun _ _ => True) s) :
    O.Safe c (p.bind f) (fun _ _ => True) s :=
  hp.bind hs hf fun e s hs _ => keeps_throw e s hs

theorem Keeps.bind {p : Prog F ε β} {f : β → Prog F ε γ} (hp : O.Keeps c p)
    (hf : ∀ a, O.Keeps c (f a)) : O.Keeps c (p.bind f) :=
  fun s hs => (hp s hs).bind_keeps hs fun a s hs _ => hf a s hs

theorem Keeps.tryCatch {p : Prog F ε β} {h : ε → Prog F ε β} (hp : O.Keeps c p)
    (hh : ∀ e, O.Keeps c (h e)) : O.Keeps c (p.tryCatch h) :=
  fun s hs => (hp s hs).tryCatch hs (fun a s hs _ => keeps_ret a s hs) fun e s hs _ => hh e s hs

/-- Operations each of which keeps the invariant, and what the others rely on. -/
theorem keeps_of_each {I : F.Op → Prop} {p : Prog F ε β} (hp : p.Uses I)
    (h : ∀ s op ch x s', O.inv s → I op → P.answer c s op ch = some (x, s') →
      O.inv s' ∧ ∀ d, d ≠ c → O.rely d s s') : O.Keeps c p := by
  refine fun s hs =>
    safe_of_each hp (fun s op ch x s' hs _ hop ha => ?_) (stable_const True) hs trivial
  obtain ⟨hs', hothers⟩ := h s op ch x s' hs hop ha
  exact ⟨hs', hothers, trivial⟩

/-- Operations that leave the state alone keep the invariant. -/
theorem keeps_of_uses {I : F.Op → Prop} {p : Prog F ε β} (hp : p.Uses I)
    (h : ∀ s op ch x s', I op → P.answer c s op ch = some (x, s') → s' = s) : O.Keeps c p := by
  refine keeps_of_each hp fun s op ch x s' hs hop ha => ?_
  obtain rfl := h s op ch x s' hop ha
  exact ⟨hs, fun d _ => O.rely_refl d _⟩

variable [DecidableEq P.Ctx]

/-- **Soundness.** If every call starts a safe program, what programs leave at their end keeps the
invariant, and the environment keeps it too, then it holds in every state of every interleaving
whose steps meet the guard, and every running program is safe there. -/
theorem sound {Q : P.Ctx → Except ε α → P.State → Prop}
    (hinit : ∀ s, P.init s → O.inv s)
    (hstart : ∀ s c call p s', O.inv s → P.start s c call = some (p, s') →
      O.inv s' ∧ (∀ d, d ≠ c → O.rely d s s') ∧ O.Safe c p (Q c) s')
    (hfinish : ∀ s c r, O.inv s → Q c r s →
      O.inv (P.finish s c r) ∧ ∀ d, d ≠ c → O.rely d s (P.finish s c r))
    (henv : ∀ s e s', O.inv s → O.guard.env s e → P.env s e = some s' →
      O.inv s' ∧ ∀ d, O.rely d s s')
    {cfg : P.Config} (h : P.system.ReachableWhile O.guard.Meets cfg) :
    O.inv cfg.state ∧ ∀ c p, cfg.threads c = some p → O.Safe c p (Q c) cfg.state := by
  refine h.invariant (I := fun cfg : P.Config => O.inv cfg.state ∧
    ∀ c p, cfg.threads c = some p → O.Safe c p (Q c) cfg.state) ?_ ?_
  · rintro cfg ⟨hi, ht⟩
    refine ⟨hinit _ hi, ?_⟩
    intro c p hp
    rw [ht] at hp
    cases hp
  · rintro ⟨s, th⟩ l ⟨s', th'⟩ ⟨hi, hsafe⟩ hg hst
    -- what a step of `c` does to the other threads
    have others : ∀ (c : P.Ctx) (o : Option (Prog F ε α)) (s₁ : P.State),
        (∀ d, d ≠ c → O.rely d s s₁) → (∀ p, o = some p → O.Safe c p (Q c) s₁) →
        ∀ d p, Function.update th c o d = some p → O.Safe d p (Q d) s₁ := by
      intro c o s₁ hrel ho d p hp
      by_cases hd : d = c
      · subst hd
        rw [Function.update_self] at hp
        exact ho p hp
      · rw [Function.update_of_ne hd] at hp
        exact (hsafe d p hp).rely (hrel d hd)
    cases l with
    | start c call =>
      obtain ⟨-, p, s₁, hp, heq⟩ := Pool.next_start.1 hst
      obtain ⟨rfl, rfl⟩ := Pool.Config.mk.inj heq
      obtain ⟨hi₁, hrel, hsafe₁⟩ := hstart _ _ _ _ _ hi hp
      exact ⟨hi₁, others c _ _ hrel fun q hq => Option.some.inj hq ▸ hsafe₁⟩
    | op c ch =>
      obtain ⟨op, k, x, s₁, hc, ha, heq⟩ := Pool.next_op.1 hst
      obtain ⟨rfl, rfl⟩ := Pool.Config.mk.inj heq
      obtain ⟨hi₁, hrel, hsafe₁⟩ := hsafe c _ hc s (O.rely_refl c s) hi ch x _ (hg op k hc) ha
      exact ⟨hi₁, others c _ _ hrel fun q hq => Option.some.inj hq ▸ hsafe₁⟩
    | finish c =>
      obtain ⟨r, hc, heq⟩ := Pool.next_finish.1 hst
      obtain ⟨rfl, rfl⟩ := Pool.Config.mk.inj heq
      have hended : Q c r s := by
        cases r with
        | ok a => exact hsafe c (.ret a) hc s (O.rely_refl c s) hi
        | error e => exact hsafe c (.throw e) hc s (O.rely_refl c s) hi
      obtain ⟨hi₁, hrel⟩ := hfinish _ _ _ hi hended
      exact ⟨hi₁, others c _ _ hrel fun q hq => by cases hq⟩
    | env e =>
      obtain ⟨s₁, he, heq⟩ := Pool.next_env.1 hst
      obtain ⟨rfl, rfl⟩ := Pool.Config.mk.inj heq
      obtain ⟨hi₁, hrel⟩ := henv _ _ _ hi hg he
      exact ⟨hi₁, fun c p hp => (hsafe c p hp).rely (hrel c)⟩

/-- An outline that looks at no step. -/
def Unguarded (O : Outline P) : Prop :=
  (∀ s c op ch, O.guard.op s c op ch) ∧ ∀ s e, O.guard.env s e

/-- Every run meets its guard. -/
theorem Unguarded.reachable (hguard : O.Unguarded) {cfg : P.Config} (h : P.system.Reachable cfg) :
    P.system.ReachableWhile O.guard.Meets cfg := by
  obtain ⟨cfg₀, hcfg₀, hrun⟩ := h
  refine ⟨cfg₀, hcfg₀, hrun.mono fun cfg l _ => ?_⟩
  cases l with
  | op c ch => exact fun op _ _ => hguard.1 _ c op ch
  | env e => exact hguard.2 _ e
  | _ => trivial

omit [DecidableEq P.Ctx] in
/-- A run that nobody interrupts is one of those a program is safe in. -/
theorem Safe.exec {p : Prog F ε β} {Q : Except ε β → P.State → Prop} {r : Except ε β} {s' : P.State}
    (h : O.Safe c p Q s) (hguard : O.Unguarded) (hs : O.inv s)
    (he : p.Exec (W := P.toWorld) c s r s') : O.inv s' ∧ Q r s' := by
  induction p generalizing s with
  | ret a =>
    obtain ⟨rfl, rfl⟩ := he
    exact ⟨hs, h _ (O.rely_refl c _) hs⟩
  | throw e =>
    obtain ⟨rfl, rfl⟩ := he
    exact ⟨hs, h _ (O.rely_refl c _) hs⟩
  | call op k ih =>
    obtain ⟨ch, x, s₁, ha, hk⟩ := he
    obtain ⟨hs₁, -, hsafe⟩ := h s (O.rely_refl c s) hs ch x s₁ (hguard.1 s c op ch) ha
    exact ih x hsafe hs₁ hk

/-- **Soundness** where only the invariant is asked of the calls. -/
theorem keeps_sound (hguard : O.Unguarded) (hinit : ∀ s, P.init s → O.inv s)
    (hstart : ∀ s c call p s', O.inv s → P.start s c call = some (p, s') →
      O.inv s' ∧ (∀ d, d ≠ c → O.rely d s s') ∧ O.Keeps c p)
    (hfinish : ∀ s c r, O.inv s →
      O.inv (P.finish s c r) ∧ ∀ d, d ≠ c → O.rely d s (P.finish s c r))
    (henv : ∀ s e s', O.inv s → P.env s e = some s' → O.inv s' ∧ ∀ d, O.rely d s s')
    {cfg : P.Config} (h : P.system.Reachable cfg) : O.inv cfg.state := by
  refine (sound (Q := fun _ _ _ => True) hinit ?_ ?_ ?_ (hguard.reachable h)).1
  · intro s c call p s' hs hst
    obtain ⟨hs', hothers, hkeeps⟩ := hstart s c call p s' hs hst
    exact ⟨hs', hothers, hkeeps s' hs'⟩
  · exact fun s c r hs _ => hfinish s c r hs
  · exact fun s e s' hs _ he => henv s e s' hs he

end Outline

end Effectful
