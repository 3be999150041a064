import Mathlib.Logic.Relation
import Mathlib.Order.Basic
import Mathlib.Order.WellFounded
import UnityCatalog.Threads

/-!
# Locks taken downwards are never waited for in a circle

A library module. Some operations of a signature wait for a mutex, some give one back (`LockUse`),
and `Pool.locking` is a pool of threads in which such an operation is not answered while another
thread holds the mutex. Every mutex has a level. A program **descends** if it never waits for a
mutex that is not below all those it holds, and if it gives back what it took, in the opposite
order, however it ends. `descends_bracket` is the rule for a scope guard.

`waits_for_one_that_moves` is the theorem: where every call's program descends, a thread that waits
does so, at the end of the chain, for one that can take a step. So no interleaving ends in a
deadlock, and no mutex is left locked by a program that has ended.
-/

namespace Effectful

variable {F : Signature} {ε α β L : Type}

/-! ## What operations do to mutexes -/

/-- What an operation does to a mutex. -/
inductive LockUse (L : Type) where
  /-- nothing -/
  | none
  /-- wait for it and take it -/
  | acquire (l : L)
  /-- give it back -/
  | release (l : L)
  /-- wait for it, take it and give it back -/
  | visit (l : L)

/-- The mutex an operation waits for. -/
def LockUse.awaited : LockUse L → Option L
  | .acquire l => some l
  | .visit l => some l
  | _ => Option.none

/-- Who holds the mutexes after an operation; a `lock()` that throws has not taken its mutex. -/
def ownersAfter [DecidableEq L] {C X : Type} (c : C) (owners : L → Option C) :
    LockUse L → Except ε X → L → Option C
  | .acquire l, .ok _ => Function.update owners l (some c)
  | .release l, _ => Function.update owners l Option.none
  | _, _ => owners

/-- A pool of threads with mutexes: what waits for one is not answered while it is held. -/
abbrev Pool.locking [DecidableEq L] (P : Pool F ε α) (use : F.Op → LockUse L) : Pool F ε α where
  Ctx := P.Ctx
  State := P.State × (L → Option P.Ctx)
  Choice := P.Choice
  answer c s op ch :=
    if (use op).awaited.any fun l => (s.2 l).isSome then Option.none
    else (P.answer c s.1 op ch).map fun y => (y.1, y.2, ownersAfter c s.2 (use op) y.1)
  Call := P.Call
  start s c call := (P.start s.1 c call).map fun y => (y.1, y.2, s.2)
  finish s c r := (P.finish s.1 c r, s.2)
  Env := P.Env
  env s e := (P.env s.1 e).map fun s' => (s', s.2)
  init s := P.init s.1 ∧ s.2 = fun _ => Option.none

/-! ## Programs that descend -/

namespace Prog

variable (use : F.Op → LockUse L) (level : L → ℕ)

/-- Holding `held`, the latest first, the program waits for mutexes below these only, and it ends
holding `rest`. -/
def Descends (rest : List L) : Prog F ε α → List L → Prop
  | ret _, held => held = rest
  | throw _, held => held = rest
  | call op k, held =>
    match use op with
    | .none => ∀ x, (k x).Descends rest held
    | .visit l => (∀ m ∈ held, level l < level m) ∧ ∀ x, (k x).Descends rest held
    | .acquire l => (∀ m ∈ held, level l < level m) ∧
        (∀ a, (k (.ok a)).Descends rest (l :: held)) ∧ ∀ e, (k (.error e)).Descends rest held
    | .release l => ∃ below, held = l :: below ∧ ∀ x, (k x).Descends rest below

variable {use level} {rest mid held : List L}

/-- What a program waits for is below all that it holds. -/
theorem Descends.awaited_lt {op : F.Op} {k : Except ε (F.Ans op) → Prog F ε α}
    (h : (call op k).Descends use level rest held) {m : L} (hm : (use op).awaited = some m) :
    ∀ l ∈ held, level m < level l := by
  simp only [Descends] at h
  cases huse : use op with
  | none =>
    rw [huse] at hm
    cases hm
  | release l =>
    rw [huse] at hm
    cases hm
  | acquire l =>
    rw [huse] at h hm
    cases hm
    exact h.1
  | visit l =>
    rw [huse] at h hm
    cases hm
    exact h.1

theorem descends_ret (a : α) : (ret a : Prog F ε α).Descends use level held held := rfl

theorem descends_throw (e : ε) : (throw e : Prog F ε α).Descends use level held held := rfl

theorem descends_ofExcept (x : Except ε α) :
    (ofExcept x : Prog F ε α).Descends use level held held := by
  cases x <;> rfl

/-- Sequencing, with a handler around the first part. -/
theorem Descends.tryCatch_bind {p : Prog F ε α} {h : ε → Prog F ε α} {f : α → Prog F ε β}
    (hp : p.Descends use level mid held) (hf : ∀ a, (f a).Descends use level rest mid)
    (hh : ∀ e, ((h e).bind f).Descends use level rest mid) :
    ((p.tryCatch h).bind f).Descends use level rest held := by
  induction p generalizing held with
  | ret a =>
    obtain rfl : held = mid := hp
    exact hf a
  | throw e =>
    obtain rfl : held = mid := hp
    exact hh e
  | call op k ih =>
    simp only [Prog.tryCatch, call_bind, Descends] at hp ⊢
    cases huse : use op with
    | none =>
      rw [huse] at hp
      exact fun x => ih x (hp x)
    | visit l =>
      rw [huse] at hp
      exact ⟨hp.1, fun x => ih x (hp.2 x)⟩
    | acquire l =>
      rw [huse] at hp
      exact ⟨hp.1, fun a => ih _ (hp.2.1 a), fun e => ih _ (hp.2.2 e)⟩
    | release l =>
      rw [huse] at hp
      obtain ⟨below, hheld, hk⟩ := hp
      exact ⟨below, hheld, fun x => ih x (hk x)⟩

/-- A handler that throws on is none. -/
theorem tryCatch_throw (p : Prog F ε α) : (p.tryCatch fun e => throw e) = p := by
  induction p with
  | ret a => rfl
  | throw e => rfl
  | call op k ih => exact congrArg (call op) (funext ih)

/-- Sequencing. -/
theorem Descends.bind {p : Prog F ε α} {f : α → Prog F ε β}
    (hp : p.Descends use level held held) (hf : ∀ a, (f a).Descends use level held held) :
    (p.bind f).Descends use level held held := by
  have h := hp.tryCatch_bind (h := fun e => throw e) hf fun e => descends_throw e
  rwa [tryCatch_throw] at h

/-- Handlers. -/
theorem Descends.tryCatch {p : Prog F ε α} {h : ε → Prog F ε α}
    (hp : p.Descends use level held held) (hh : ∀ e, (h e).Descends use level held held) :
    (p.tryCatch h).Descends use level held held := by
  have h' := hp.tryCatch_bind (f := fun a => ret a) descends_ret fun e => by
    rw [bind_ret]
    exact hh e
  rwa [bind_ret] at h'

/-- A program that has nothing to do with mutexes. -/
theorem descends_of_uses {p : Prog F ε α} (hp : p.Uses fun op => use op = .none) :
    p.Descends use level held held := by
  induction p with
  | ret a => rfl
  | throw e => rfl
  | call op k ih =>
    simp only [Descends]
    rw [hp.1]
    exact fun x => ih x (hp.2 x)

/-- A program that takes no mutex for longer than one operation. -/
theorem descends_of_visits {p : Prog F ε α}
    (hp : p.Uses fun op => use op = .none ∨ ∃ l, use op = .visit l ∧ ∀ m ∈ held,
      level l < level m) :
    p.Descends use level held held := by
  induction p with
  | ret a => rfl
  | throw e => rfl
  | call op k ih =>
    simp only [Descends]
    rcases hp.1 with huse | ⟨l, huse, hlevel⟩
    · rw [huse]
      exact fun x => ih x (hp.2 x)
    · rw [huse]
      exact ⟨hlevel, fun x => ih x (hp.2 x)⟩

/-- **Scope guards.** Between an operation that takes a mutex and one that gives it back, however
the scope is left. -/
theorem descends_bracket {enter leave : F.Op} {l : L} {f : F.Ans enter → Prog F ε α}
    (henter : use enter = .acquire l) (hleave : use leave = .release l)
    (hlevel : ∀ m ∈ held, level l < level m)
    (hf : ∀ a, (f a).Descends use level (l :: held) (l :: held)) :
    ((perform enter : Prog F ε _).bind fun a =>
      ((f a).tryCatch fun e => (perform leave).bind fun _ => throw e).bind fun b =>
        (perform leave).bind fun _ => ret b).Descends use level held held := by
  have left (q : Except ε (F.Ans leave) → Prog F ε α) (hq : ∀ x,
    (q x).Descends use level held held) :
      (call leave q).Descends use level held (l :: held) := by
    simp only [Descends]
    rw [hleave]
    exact ⟨held, rfl, hq⟩
  simp only [perform, call_bind, Descends]
  rw [henter]
  refine ⟨hlevel, fun a => ?_, fun e => rfl⟩
  refine (hf a).tryCatch_bind (fun b => left _ ?_) fun e => left _ ?_ <;>
  · intro x
    cases x <;> rfl

/-- A program of a component. -/
theorem Descends.on {ι : Type} {i : ι} {use : (F.indexed ι).Op → LockUse L} {p : Prog F ε α}
    (hp : p.Descends (fun op => use (i, op)) level rest held) :
    (p.on i).Descends use level rest held := by
  induction p generalizing held with
  | ret a => exact hp
  | throw e => exact hp
  | call op k ih =>
    simp only [Prog.on, Descends] at hp ⊢
    cases huse : use (i, op) with
    | none =>
      rw [huse] at hp
      exact fun x => ih x (hp x)
    | visit l =>
      rw [huse] at hp
      exact ⟨hp.1, fun x => ih x (hp.2 x)⟩
    | acquire l =>
      rw [huse] at hp
      exact ⟨hp.1, fun a => ih _ (hp.2.1 a), fun e => ih _ (hp.2.2 e)⟩
    | release l =>
      rw [huse] at hp
      obtain ⟨below, hheld, hk⟩ := hp
      exact ⟨below, hheld, fun x => ih x (hk x)⟩

/-- A program of the first of two components. -/
theorem Descends.left {G : Signature} {use : (F.sum G).Op → LockUse L} {p : Prog F ε α}
    (hp : p.Descends (fun op => use (.inl op)) level rest held) :
    (p.left : Prog (F.sum G) ε α).Descends use level rest held := by
  induction p generalizing held with
  | ret a => exact hp
  | throw e => exact hp
  | call op k ih =>
    simp only [Prog.left, Descends] at hp ⊢
    cases huse : use (.inl op) with
    | none =>
      rw [huse] at hp
      exact fun x => ih x (hp x)
    | visit l =>
      rw [huse] at hp
      exact ⟨hp.1, fun x => ih x (hp.2 x)⟩
    | acquire l =>
      rw [huse] at hp
      exact ⟨hp.1, fun a => ih _ (hp.2.1 a), fun e => ih _ (hp.2.2 e)⟩
    | release l =>
      rw [huse] at hp
      obtain ⟨below, hheld, hk⟩ := hp
      exact ⟨below, hheld, fun x => ih x (hk x)⟩

end Prog

/-! ## Programs that keep to operations and to mutexes -/

namespace Prog

variable {use : F.Op → LockUse L} {level : L → ℕ} {P : F.Op → Prop} {n m : ℕ}

/-- The program performs only operations that satisfy `P`, and it takes only mutexes below level
`n`, downwards, whatever is held from there up. -/
structure Orderly (P : F.Op → Prop) (use : F.Op → LockUse L) (level : L → ℕ) (n : ℕ)
    (p : Prog F ε α) : Prop where
  uses : p.Uses P
  descends : ∀ held, (∀ l ∈ held, n ≤ level l) → p.Descends use level held held

theorem orderly_ret (a : α) : (ret a : Prog F ε α).Orderly P use level n :=
  ⟨trivial, fun _ _ => rfl⟩

theorem orderly_throw (e : ε) : (throw e : Prog F ε α).Orderly P use level n :=
  ⟨trivial, fun _ _ => rfl⟩

theorem orderly_ofExcept (x : Except ε α) : (ofExcept x : Prog F ε α).Orderly P use level n :=
  ⟨uses_ofExcept x, fun _ _ => descends_ofExcept x⟩

theorem Orderly.bind {p : Prog F ε α} {f : α → Prog F ε β} (hp : p.Orderly P use level n)
    (hf : ∀ a, (f a).Orderly P use level n) : (p.bind f).Orderly P use level n where
  uses := hp.uses.bind fun a => (hf a).uses
  descends held hheld := (hp.descends held hheld).bind fun a => (hf a).descends held hheld

theorem Orderly.tryCatch {p : Prog F ε α} {h : ε → Prog F ε α} (hp : p.Orderly P use level n)
    (hh : ∀ e, (h e).Orderly P use level n) : (p.tryCatch h).Orderly P use level n where
  uses := hp.uses.tryCatch fun e => (hh e).uses
  descends held hheld := (hp.descends held hheld).tryCatch fun e => (hh e).descends held hheld

/-- What takes only mutexes below `n` does so below `m`. -/
theorem Orderly.mono {p : Prog F ε α} (hp : p.Orderly P use level n) (h : n ≤ m) :
    p.Orderly P use level m where
  uses := hp.uses
  descends held hheld := hp.descends held fun l hl => h.trans (hheld l hl)

/-- Operations that have nothing to do with mutexes. -/
theorem orderly_of_uses {p : Prog F ε α} (hp : p.Uses fun op => P op ∧ use op = .none) :
    p.Orderly P use level n where
  uses := hp.mono fun _ h => h.1
  descends _ _ := descends_of_uses (hp.mono fun _ h => h.2)

/-- One operation that has nothing to do with mutexes. -/
theorem orderly_perform {op : F.Op} (h : P op) (huse : use op = .none) :
    (perform op : Prog F ε _).Orderly P use level n :=
  orderly_of_uses (uses_perform ⟨h, huse⟩)

/-- One operation that takes a mutex for as long as it lasts. -/
theorem orderly_visit {op : F.Op} {l : L} (h : P op) (huse : use op = .visit l) (hl : level l < n) :
    (perform op : Prog F ε _).Orderly P use level n where
  uses := uses_perform h
  descends _ hheld := descends_of_visits (uses_perform (P := fun op => use op = .none ∨
    ∃ l, use op = .visit l ∧ ∀ m ∈ _, level l < level m)
    (Or.inr ⟨l, huse, fun m hm => hl.trans_le (hheld m hm)⟩))

/-- **Scope guards.** What is done under a mutex takes only mutexes below it. -/
theorem orderly_bracket {enter leave : F.Op} {l : L} {f : F.Ans enter → Prog F ε α}
    (hP : P enter ∧ P leave) (henter : use enter = .acquire l) (hleave : use leave = .release l)
    (hl : level l < n) (hf : ∀ a, (f a).Orderly P use level (level l)) :
    ((perform enter : Prog F ε _).bind fun a =>
      ((f a).tryCatch fun e => (perform leave).bind fun _ => throw e).bind fun b =>
        (perform leave).bind fun _ => ret b).Orderly P use level n where
  uses := by
    refine (uses_perform hP.1).bind fun a =>
      Uses.bind (Uses.tryCatch (hf a).uses fun e => ?_) fun b => ?_
    · exact (uses_perform hP.2).bind fun _ => trivial
    · exact (uses_perform hP.2).bind fun _ => trivial
  descends held hheld := by
    refine descends_bracket henter hleave (fun m hm => hl.trans_le (hheld m hm)) fun a => ?_
    refine (hf a).descends _ fun m hm => ?_
    rcases List.mem_cons.1 hm with rfl | hm
    · exact le_refl _
    · exact hl.le.trans (hheld m hm)

/-- A program of a component. -/
theorem Orderly.on {ι : Type} {i : ι} {P : (F.indexed ι).Op → Prop}
    {use : (F.indexed ι).Op → LockUse L} {p : Prog F ε α}
    (hp : p.Orderly (fun op => P (i, op)) (fun op => use (i, op)) level n) :
    (p.on i).Orderly P use level n :=
  ⟨hp.uses.on, fun held hheld => (hp.descends held hheld).on⟩

/-- A program of the first of two components. -/
theorem Orderly.left {G : Signature} {P : (F.sum G).Op → Prop} {use : (F.sum G).Op → LockUse L}
    {p : Prog F ε α}
    (hp : p.Orderly (fun op => P (.inl op)) (fun op => use (.inl op)) level n) :
    (p.left : Prog (F.sum G) ε α).Orderly P use level n :=
  ⟨hp.uses.left, fun held hheld => (hp.descends held hheld).left⟩

/-! ### Programs of components, step by step -/

theorem on_bind {ι : Type} (i : ι) (p : Prog F ε α) (f : α → Prog F ε β) :
    (p.bind f).on i = (p.on i).bind fun a => (f a).on i := by
  induction p with
  | ret a => rfl
  | throw e => rfl
  | call op k ih => exact congrArg (call (F := F.indexed ι) (i, op)) (funext ih)

theorem on_perform {ι : Type} (i : ι) (op : F.Op) :
    (perform op : Prog F ε _).on i = perform (F := F.indexed ι) (i, op) := by
  refine congrArg (call (F := F.indexed ι) (i, op)) (funext fun x => ?_)
  cases x <;> rfl

theorem on_tryCatch {ι : Type} (i : ι) (p : Prog F ε α) (h : ε → Prog F ε α) :
    (p.tryCatch h).on i = (p.on i).tryCatch fun e => (h e).on i := by
  induction p with
  | ret a => rfl
  | throw e => rfl
  | call op k ih => exact congrArg (call (F := F.indexed ι) (i, op)) (funext ih)

theorem left_bind {G : Signature} (p : Prog F ε α) (f : α → Prog F ε β) :
    ((p.bind f).left : Prog (F.sum G) ε β) = p.left.bind fun a => (f a).left := by
  induction p with
  | ret a => rfl
  | throw e => rfl
  | call op k ih => exact congrArg (call (F := F.sum G) (.inl op)) (funext ih)

theorem uses_trivial (p : Prog F ε α) : p.Uses fun _ => True := by
  induction p with
  | ret a => trivial
  | throw e => trivial
  | call op k ih => exact ⟨trivial, ih⟩

end Prog

/-! ## Threads whose calls descend -/

namespace Pool

/-- The thread can take its next step. -/
def CanMove (P : Pool F ε α) [DecidableEq P.Ctx] (cfg : P.Config) (c : P.Ctx) : Prop :=
  (∃ ch, (P.next cfg (.op c ch)).isSome) ∨ (P.next cfg (.finish c)).isSome

/-- What the programs of all calls perform is all that is ever performed. -/
theorem uses_of_reachable {P : Pool F ε α} [DecidableEq P.Ctx] {A : F.Op → Prop}
    (hcalls : ∀ s c call p s', P.start s c call = some (p, s') → p.Uses A) {cfg : P.Config}
    (h : P.system.Reachable cfg) : ∀ c p, cfg.threads c = some p → p.Uses A := by
  refine h.invariant (I := fun cfg : P.Config => ∀ c p, cfg.threads c = some p → p.Uses A) ?_ ?_
  · rintro ⟨s, th⟩ ⟨_, rfl⟩ c p hp
    cases hp
  · intro cfg l cfg' hi _ hst
    -- every step leaves at most one thread another program
    have updated (c : P.Ctx) (q : Option (Prog F ε α)) (hq : ∀ p, q = some p → p.Uses A) :
        ∀ d p, Function.update cfg.threads c q d = some p → p.Uses A := by
      intro d p hp
      by_cases hd : d = c
      · subst hd
        rw [Function.update_self] at hp
        exact hq p hp
      · rw [Function.update_of_ne hd] at hp
        exact hi d p hp
    cases l with
    | start c call =>
      obtain ⟨-, p, s₁, hp, rfl⟩ := next_start.1 hst
      exact updated c _ fun q hq => Option.some.inj hq ▸ hcalls _ _ _ _ _ hp
    | op c ch =>
      obtain ⟨op, k, x, s₁, hc, -, rfl⟩ := next_op.1 hst
      exact updated c _ fun q hq => Option.some.inj hq ▸ (hi c _ hc).2 x
    | finish c =>
      obtain ⟨r, -, rfl⟩ := next_finish.1 hst
      exact updated c none fun q hq => by cases hq
    | env e =>
      obtain ⟨s₁, -, rfl⟩ := next_env.1 hst
      exact hi

variable [DecidableEq L] {P : Pool F ε α} {use : F.Op → LockUse L} {level : L → ℕ}

/-- `c` waits for a mutex that `d` holds. -/
def WaitsFor (cfg : (P.locking use).Config) (c d : P.Ctx) : Prop :=
  ∃ op k l, cfg.threads c = some (.call op k) ∧ (use op).awaited = some l ∧ cfg.state.2 l = some d

/-- A thread that holds `held`, with what it has left to run. -/
structure LockView (use : F.Op → LockUse L) (level : L → ℕ) (owners : L → Option P.Ctx) (c : P.Ctx)
    (thread : Option (Prog F ε α)) (held : List L) : Prop where
  owns : ∀ l, owners l = some c ↔ l ∈ held
  sorted : held.Pairwise fun l m => level l < level m
  running : ∀ p, thread = some p → p.Descends use level [] held
  idle : thread = none → held = []

/-- Every thread goes down from what it holds. -/
def LocksInOrder (level : L → ℕ) (cfg : (P.locking use).Config) : Prop :=
  ∀ c, ∃ held, LockView use level cfg.state.2 c (cfg.threads c) held

namespace LockView

variable {owners : L → Option P.Ctx} {c d : P.Ctx} {thread : Option (Prog F ε α)} {held : List L}

/-- A mutex that was free is another thread's now. -/
theorem acquired (h : LockView use level owners d thread held) {l : L} (hfree : owners l = none)
    (hd : d ≠ c) : LockView use level (Function.update owners l (some c)) d thread held where
  owns m := by
    rw [← h.owns m]
    by_cases hm : m = l
    · subst hm
      simp [hfree, Ne.symm hd]
    · rw [Function.update_of_ne hm]
  sorted := h.sorted
  running := h.running
  idle := h.idle

/-- A mutex that was another thread's is free. -/
theorem released (h : LockView use level owners d thread held) {l : L} (howner : owners l = some c)
    (hd : d ≠ c) : LockView use level (Function.update owners l none) d thread held where
  owns m := by
    rw [← h.owns m]
    by_cases hm : m = l
    · subst hm
      simp [howner, Ne.symm hd]
    · rw [Function.update_of_ne hm]
  sorted := h.sorted
  running := h.running
  idle := h.idle

/-- What the thread itself has left after an operation. -/
theorem performed {op : F.Op} {k : Except ε (F.Ans op) → Prog F ε α}
    (h : LockView use level owners c (some (.call op k)) held)
    (hfree : ∀ l, (use op).awaited = some l → owners l = none) (x : Except ε (F.Ans op)) :
    ∃ held', LockView use level (ownersAfter c owners (use op) x) c (some (k x)) held' := by
  have hp := h.running _ rfl
  simp only [Prog.Descends] at hp
  -- a program that goes on holding what it held
  have same (hk : (k x).Descends use level [] held) :
      ∃ held', LockView use level owners c (some (k x)) held' :=
    ⟨held, h.owns, h.sorted, fun p hp => Option.some.inj hp ▸ hk, fun h => by cases h⟩
  cases huse : use op with
  | none =>
    rw [huse] at hp
    exact same (hp x)
  | visit l =>
    rw [huse] at hp
    exact same (hp.2 x)
  | acquire l =>
    rw [huse] at hp
    cases x with
    | error e => exact same (hp.2.2 e)
    | ok a =>
      have hl : owners l = none := hfree l (by rw [huse]; rfl)
      refine ⟨l :: held, fun m => ?_, List.pairwise_cons.2 ⟨hp.1, h.sorted⟩, ?_, fun h =>
        by cases h⟩
      · rw [List.mem_cons, ← h.owns m]
        by_cases hm : m = l
        · subst hm
          simp [ownersAfter]
        · simp [ownersAfter, hm]
      · exact fun p hp' => Option.some.inj hp' ▸ hp.2.1 a
  | release l =>
    rw [huse] at hp
    obtain ⟨below, rfl, hk⟩ := hp
    obtain ⟨hlt, hsorted⟩ := List.pairwise_cons.1 h.sorted
    refine ⟨below, fun m => ?_, hsorted, ?_, fun h => by cases h⟩
    · by_cases hm : m = l
      · subst hm
        have : m ∉ below := fun hmem => lt_irrefl _ (hlt m hmem)
        cases x <;> simp [ownersAfter, this]
      · have := h.owns m
        cases x <;> simpa [ownersAfter, Function.update_of_ne hm, hm] using this
    · exact fun p hp' => Option.some.inj hp' ▸ hk x

end LockView

/-- What an operation does to the owners leaves the other threads' views alone. -/
theorem LockView.others {owners : L → Option P.Ctx} {c d : P.Ctx} {thread : Option (Prog F ε α)}
    {op : F.Op} {k : Except ε (F.Ans op) → Prog F ε α} {held mine : List L}
    (h : LockView use level owners d thread held)
    (hc : LockView use level owners c (some (.call op k)) mine)
    (hfree : ∀ l, (use op).awaited = some l → owners l = none) (x : Except ε (F.Ans op))
    (hd : d ≠ c) : LockView use level (ownersAfter c owners (use op) x) d thread held := by
  have hp := hc.running _ rfl
  simp only [Prog.Descends] at hp
  cases huse : use op with
  | none => exact h
  | visit l => exact h
  | acquire l =>
    cases x with
    | error e => exact h
    | ok a => exact h.acquired (hfree l (by rw [huse]; rfl)) hd
  | release l =>
    rw [huse] at hp
    obtain ⟨below, rfl, _⟩ := hp
    have howner : owners l = some c := (hc.owns l).2 List.mem_cons_self
    cases x <;> exact h.released howner hd

/-- An operation that is answered waits for no mutex that is held. -/
theorem answer_locking {c : P.Ctx} {s s' : (P.locking use).State} {op : F.Op} {ch : P.Choice}
    {x : Except ε (F.Ans op)} (h : (P.locking use).answer c s op ch = some (x, s')) :
    (∀ l, (use op).awaited = some l → s.2 l = none) ∧
      P.answer c s.1 op ch = some (x, s'.1) ∧ s'.2 = ownersAfter c s.2 (use op) x := by
  simp only [Pool.locking] at h
  split at h
  · cases h
  · rename_i hfree
    obtain ⟨y, hy, he⟩ := Option.map_eq_some_iff.1 h
    cases he
    refine ⟨fun l hl => ?_, hy, rfl⟩
    rw [hl] at hfree
    simpa using hfree

variable [DecidableEq P.Ctx]

namespace LocksInOrder

variable {cfg : (P.locking use).Config}

/-- The order is kept where one thread's view changes and the others' views stay. -/
theorem update (hi : LocksInOrder level cfg) {s : (P.locking use).State} {c : P.Ctx}
    {thread : Option (Prog F ε α)} (hc : ∃ held, LockView use level s.2 c thread held)
    (hothers : ∀ d held, d ≠ c → LockView use level cfg.state.2 d (cfg.threads d) held →
      LockView use level s.2 d (cfg.threads d) held) :
    LocksInOrder level (⟨s, Function.update cfg.threads c thread⟩ : (P.locking use).Config) := by
  intro d
  by_cases hd : d = c
  · subst hd
    simpa only [Function.update_self] using hc
  · obtain ⟨held, hv⟩ := hi d
    simp only [Function.update_of_ne hd]
    exact ⟨held, hothers d held hd hv⟩

/-- A call starts with nothing held. -/
theorem started (hi : LocksInOrder level cfg) {s : (P.locking use).State} {c : P.Ctx}
    {p : Prog F ε α} (hidle : cfg.threads c = none) (hs : s.2 = cfg.state.2)
    (hp : p.Descends use level [] []) :
    LocksInOrder level (⟨s, Function.update cfg.threads c (some p)⟩ : (P.locking use).Config) := by
  obtain ⟨held, hv⟩ := hi c
  obtain rfl := hv.idle hidle
  refine hi.update ⟨[], ?_, hv.sorted, fun q hq => ?_, fun _ => rfl⟩ ?_
  · rw [hs]
    exact hv.owns
  · exact Option.some.inj hq ▸ hp
  · rw [hs]
    exact fun _ _ _ h => h

/-- A program that has ended has given everything back. -/
theorem ended (hi : LocksInOrder level cfg) {s : (P.locking use).State} {c : P.Ctx}
    {r : Except ε α} (hc : cfg.threads c = some (Prog.ofExcept r)) (hs : s.2 = cfg.state.2) :
    LocksInOrder level (⟨s, Function.update cfg.threads c none⟩ : (P.locking use).Config) := by
  obtain ⟨held, hv⟩ := hi c
  have hheld : held = [] := by
    have hended := hv.running _ hc
    cases r <;> exact hended
  refine hi.update ⟨held, ?_, hv.sorted, (fun q hq => by cases hq), fun _ => hheld⟩ ?_
  · rw [hs]
    exact hv.owns
  · rw [hs]
    exact fun _ _ _ h => h

/-- Every step keeps the order. -/
theorem step {cfg' : (P.locking use).Config} {l : (P.locking use).Label}
    (hcalls : ∀ s c call p s', P.start s c call = some (p, s') → p.Descends use level [] [])
    (hi : LocksInOrder level cfg) (hst : (P.locking use).next cfg l = some cfg') :
    LocksInOrder level cfg' := by
  cases l with
  | start c call =>
    obtain ⟨hidle, p, s₁, hp, rfl⟩ := next_start.1 hst
    obtain ⟨y, hy, he⟩ := Option.map_eq_some_iff.1 hp
    cases he
    exact hi.started hidle rfl (hcalls _ _ _ _ _ hy)
  | op c ch =>
    obtain ⟨op, k, x, s₁, hc, ha, rfl⟩ := next_op.1 hst
    obtain ⟨hfree, -, howners⟩ := answer_locking ha
    obtain ⟨mine, hmine⟩ := hi c
    rw [hc] at hmine
    refine hi.update ?_ fun d held hd hv => ?_
    · rw [howners]
      exact hmine.performed hfree x
    · rw [howners]
      exact hv.others hmine hfree x hd
  | finish c =>
    obtain ⟨r, hc, rfl⟩ := next_finish.1 hst
    exact hi.ended hc rfl
  | env e =>
    obtain ⟨s₁, he, rfl⟩ := next_env.1 hst
    obtain ⟨s', -, he'⟩ := Option.map_eq_some_iff.1 he
    cases he'
    exact hi

omit [DecidableEq P.Ctx] in
/-- A mutex is held only by a program that is still running. -/
theorem running_of_owner (hi : LocksInOrder level cfg) {l : L} {c : P.Ctx}
    (hl : cfg.state.2 l = some c) : cfg.threads c ≠ none := by
  intro hc
  obtain ⟨held, hv⟩ := hi c
  have hmem := (hv.owns l).1 hl
  rw [hv.idle hc] at hmem
  cases hmem

omit [DecidableEq P.Ctx] in
/-- The holder of a mutex is at an operation; and if that waits, it is for a mutex further down. -/
theorem of_owner (hi : LocksInOrder level cfg) {l : L} {d : P.Ctx}
    (hown : cfg.state.2 l = some d) :
    ∃ op k, cfg.threads d = some (.call op k) ∧
      ∀ m, (use op).awaited = some m → level m < level l := by
  obtain ⟨held, hv⟩ := hi d
  have hmem := (hv.owns l).1 hown
  obtain ⟨p, hd⟩ := Option.ne_none_iff_exists'.1 (hi.running_of_owner hown)
  have hp := hv.running p hd
  cases p with
  | ret a =>
    rw [show held = [] from hp] at hmem
    cases hmem
  | throw e =>
    rw [show held = [] from hp] at hmem
    cases hmem
  | call op k => exact ⟨op, k, hd, fun m hm => hp.awaited_lt hm l hmem⟩

end LocksInOrder

/-- In every interleaving the order is kept. -/
theorem locksInOrder_of_reachable
    (hcalls : ∀ s c call p s', P.start s c call = some (p, s') → p.Descends use level [] [])
    {cfg : (P.locking use).Config} (h : (P.locking use).system.Reachable cfg) :
    LocksInOrder level cfg := by
  refine h.invariant (I := LocksInOrder level) ?_ fun s l s' hi _ hst => hi.step hcalls hst
  rintro ⟨s, th⟩ ⟨⟨_, howners⟩, rfl⟩ c
  refine ⟨[], fun l => ?_, List.Pairwise.nil, (fun p hp => by cases hp), fun _ => rfl⟩
  have hfree : s.2 l = none := congrFun howners l
  simp [hfree]

/-- An operation that finds no mutex held is answered. -/
theorem canMove_of_free (hresponds : ∀ c s op, ∃ ch, (P.answer c s op ch).isSome)
    {cfg : (P.locking use).Config} {c : P.Ctx} {op : F.Op} {k : Except ε (F.Ans op) → Prog F ε α}
    (hc : cfg.threads c = some (.call op k))
    (hfree : ∀ l, (use op).awaited = some l → cfg.state.2 l = none) :
    (P.locking use).CanMove cfg c := by
  obtain ⟨ch, hch⟩ := hresponds c cfg.state.1 op
  obtain ⟨y, hy⟩ := Option.isSome_iff_exists.1 hch
  have ha : (P.locking use).answer c cfg.state op ch =
      some (y.1, y.2, ownersAfter c cfg.state.2 (use op) y.1) := by
    simp only [Pool.locking]
    rw [if_neg, hy]
    · rfl
    · cases hl : (use op).awaited with
      | none => simp
      | some l => simp [hfree l hl]
  exact .inl ⟨ch, Option.isSome_iff_exists.2 ⟨_, next_op.2 ⟨_, _, _, _, hc, ha, rfl⟩⟩⟩

/-- A thread that waits for a mutex waits, at the end of the chain, for one that can move. The
induction is on the level of the mutex, which goes down along the chain. -/
theorem LocksInOrder.exists_canMove {cfg : (P.locking use).Config}
    (hi : LocksInOrder level cfg) (hresponds : ∀ c s op, ∃ ch, (P.answer c s op ch).isSome)
    (n : ℕ) : ∀ c op k l, cfg.threads c = some (.call op k) → (use op).awaited = some l →
      level l = n →
      ∃ d, Relation.ReflTransGen (WaitsFor cfg) c d ∧ (P.locking use).CanMove cfg d := by
  induction n using Nat.strong_induction_on with
  | _ n ih =>
    intro c op k l hc hl hn
    cases hown : cfg.state.2 l with
    | none =>
      refine ⟨c, .refl, canMove_of_free hresponds hc fun l' hl' => ?_⟩
      obtain rfl := Option.some.inj (hl.symm.trans hl')
      exact hown
    | some d =>
      have hwait : WaitsFor cfg c d := ⟨op, k, l, hc, hl, hown⟩
      obtain ⟨op', k', hd, hbelow⟩ := hi.of_owner hown
      cases hl' : (use op').awaited with
      | none =>
        refine ⟨d, .single hwait, canMove_of_free hresponds hd fun m hm => ?_⟩
        rw [hl'] at hm
        cases hm
      | some l' =>
        obtain ⟨d', hreach, hmove⟩ := ih (level l') (hn ▸ hbelow l' hl') d op' k' l' hd hl' rfl
        exact ⟨d', .head hwait hreach, hmove⟩

variable (level) in
/-- **No deadlock.** Where everything but a mutex is answered sooner or later and every call's
program descends, every running thread waits, at the end of the chain, for a thread that can take a
step; and a mutex is held only by a program that is still running. -/
theorem waits_for_one_that_moves (hresponds : ∀ c s op, ∃ ch, (P.answer c s op ch).isSome)
    (hcalls : ∀ s c call p s', P.start s c call = some (p, s') → p.Descends use level [] [])
    {cfg : (P.locking use).Config} (h : (P.locking use).system.Reachable cfg) :
    (∀ c, cfg.threads c ≠ none → ∃ d,
      Relation.ReflTransGen (WaitsFor cfg) c d ∧ (P.locking use).CanMove cfg d) ∧
    ∀ l c, cfg.state.2 l = some c → cfg.threads c ≠ none := by
  have hi := locksInOrder_of_reachable hcalls h
  refine ⟨fun c hc => ?_, fun l c => hi.running_of_owner⟩
  -- one that has ended can be retired
  have retires (r : Except ε α) (hr : cfg.threads c = some (Prog.ofExcept r)) :
      (P.locking use).CanMove cfg c :=
    .inr (Option.isSome_iff_exists.2 ⟨_, next_finish.2 ⟨r, hr, rfl⟩⟩)
  obtain ⟨p, hp⟩ := Option.ne_none_iff_exists'.1 hc
  cases p with
  | ret a => exact ⟨c, .refl, retires (.ok a) hp⟩
  | throw e => exact ⟨c, .refl, retires (.error e) hp⟩
  | call op k =>
    cases hl : (use op).awaited with
    | none =>
      refine ⟨c, .refl, canMove_of_free hresponds hp fun m hm => ?_⟩
      rw [hl] at hm
      cases hm
    | some l => exact hi.exists_canMove hresponds (level l) c op k l hp hl rfl

end Pool

end Effectful
