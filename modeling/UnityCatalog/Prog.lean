import Mathlib.Data.List.Basic

/-!
# Effectful programs

A library module: nothing here names the system it is used for.

* `Prog F ε α` — **program syntax**: a free monad over the operations of a signature `F`. An
  operation either answers with a value of its type or throws an `ε`, and a program may throw and
  catch, so that C++ code with `try`/`catch` reads off line by line.
* `World F ε` — what answers the operations: a state, and for each operation the answers the
  environment may pick, one `Choice` at a time. A `Ctx` says who is asking.
* `Prog.Exec` — the **sequential semantics**: a whole run of a program by one context, with every
  pick of the environment allowed. `exec_bind` and `exec_tryCatch` are the inversion lemmas the
  step lemmas of a model are proved with.
* `Prog.Uses` — which operations a program can perform at all, and `Exec.frame`: a part of the
  state none of these operations touch is unchanged by the run.
* `Prog.Returns` — what every value a program can return satisfies, in any world; `Prog.EndsWithin`
  — how many operations it performs at most.
* `World.traced` — a world with the operations performed so far as part of its state.
* `Signature.indexed` — the operations of a family of components; `Prog.on` runs the program of one.
-/

namespace Effectful

/-- The operations a program may perform and the type of each one's answer. -/
structure Signature where
  /-- the operations -/
  Op : Type
  /-- what an operation answers when it does not throw -/
  Ans : Op → Type

/-- Programs over `F` that may throw `ε` and return `α`. -/
inductive Prog (F : Signature) (ε α : Type) : Type where
  /-- return a value -/
  | ret : α → Prog F ε α
  /-- throw -/
  | throw : ε → Prog F ε α
  /-- perform an operation and go on with its answer, or with what it threw -/
  | call : (op : F.Op) → (Except ε (F.Ans op) → Prog F ε α) → Prog F ε α

namespace Prog

variable {F : Signature} {ε α β γ : Type}

/-- Sequencing: what the first program throws skips the second. -/
protected def bind : Prog F ε α → (α → Prog F ε β) → Prog F ε β
  | ret a, f => f a
  | throw e, _ => throw e
  | call op k, f => call op fun x => (k x).bind f

/-- Handlers: only what the program throws reaches `h`. -/
protected def tryCatch : Prog F ε α → (ε → Prog F ε α) → Prog F ε α
  | ret a, _ => ret a
  | throw e, h => h e
  | call op k, h => call op fun x => (k x).tryCatch h

instance : Monad (Prog F ε) where
  pure := ret
  bind := Prog.bind

instance : MonadExceptOf ε (Prog F ε) where
  throw := throw
  tryCatch := Prog.tryCatch

/-- A pure computation that may throw. -/
def ofExcept : Except ε α → Prog F ε α
  | .ok a => ret a
  | .error e => throw e

/-- One operation; what it throws is thrown. -/
def perform (op : F.Op) : Prog F ε (F.Ans op) :=
  call op fun
    | .ok a => ret a
    | .error e => throw e

@[simp] theorem pure_eq (a : α) : (pure a : Prog F ε α) = ret a := rfl

@[simp] theorem throw_eq (e : ε) : (MonadExceptOf.throw e : Prog F ε α) = throw e := rfl

@[simp] theorem throw_eq' (e : ε) : (MonadExcept.throw e : Prog F ε α) = throw e := rfl

@[simp] theorem bind_eq (p : Prog F ε α) (f : α → Prog F ε β) : p >>= f = p.bind f := rfl

@[simp] theorem tryCatch_eq (p : Prog F ε α) (h : ε → Prog F ε α) :
    (tryCatchThe ε p h : Prog F ε α) = p.tryCatch h := rfl

@[simp] theorem tryCatch_eq' (p : Prog F ε α) (h : ε → Prog F ε α) :
    (MonadExcept.tryCatch p h : Prog F ε α) = p.tryCatch h := rfl

@[simp] theorem ret_bind (a : α) (f : α → Prog F ε β) : (ret a : Prog F ε α).bind f = f a := rfl

@[simp] theorem throw_bind (e : ε) (f : α → Prog F ε β) :
    (throw e : Prog F ε α).bind f = throw e := rfl

@[simp] theorem call_bind (op : F.Op) (k : Except ε (F.Ans op) → Prog F ε α)
    (f : α → Prog F ε β) : (call op k).bind f = call op fun x => (k x).bind f := rfl

/-- Going on with nothing changes nothing. The induction is on the program: an answer's rest is a
smaller one. -/
theorem bind_ret (p : Prog F ε α) : (p.bind fun a => .ret a) = p := by
  induction p with
  | ret a => rfl
  | throw e => rfl
  | call op k ih => exact congrArg (call op) (funext ih)

/-- Programs put one after the other may be grouped either way, which is what lets a long one be cut
at any of its calls. -/
theorem bind_assoc (p : Prog F ε α) (f : α → Prog F ε β) (g : β → Prog F ε γ) :
    (p.bind f).bind g = p.bind fun a => (f a).bind g := by
  induction p with
  | ret a => rfl
  | throw e => rfl
  | call op k ih => exact congrArg (call op) (funext ih)

/-- A program that hands a constant on, or what its handler returns, and then drops it. -/
theorem tryCatch_discard (p : Prog F ε Unit) (b : β) (h : ε → Prog F ε β) :
    ((p.bind fun _ => ret b).tryCatch h).bind (fun _ => ret ()) =
      p.tryCatch fun e => (h e).bind fun _ => ret () := by
  induction p with
  | ret a => rfl
  | throw e => rfl
  | call op k ih => exact congrArg (call op) (funext ih)

end Prog

/-! ## Worlds -/

/-- What answers the operations of `F`: `answer c s op ch` is what context `c`, asking `op` in
state `s`, is told and leaves behind when the environment picks `ch`; `none` where `ch` is no
possible pick. -/
structure World (F : Signature) (ε : Type) where
  /-- who asks -/
  Ctx : Type
  /-- what the operations read and write -/
  State : Type
  /-- the environment's picks -/
  Choice : Type
  /-- the answer and the next state -/
  answer : Ctx → State → (op : F.Op) → Choice → Option (Except ε (F.Ans op) × State)

namespace Prog

variable {F : Signature} {ε α β γ : Type} {W : World F ε}

/-! ## Sequential runs -/

/-- `p.Exec c s r s'`: context `c` can run `p` to its end from `s`, with result `r`, in `s'`. -/
def Exec (c : W.Ctx) : Prog F ε α → W.State → Except ε α → W.State → Prop
  | ret a, s, r, s' => r = .ok a ∧ s' = s
  | throw e, s, r, s' => r = .error e ∧ s' = s
  | call op k, s, r, s' =>
    ∃ ch x s₁, W.answer c s op ch = some (x, s₁) ∧ (k x).Exec c s₁ r s'

variable {c : W.Ctx} {s s' : W.State}

@[simp] theorem exec_ret {a : α} {r : Except ε α} :
    (ret a : Prog F ε α).Exec c s r s' ↔ r = .ok a ∧ s' = s := Iff.rfl

@[simp] theorem exec_throw {e : ε} {r : Except ε α} :
    (throw e : Prog F ε α).Exec c s r s' ↔ r = .error e ∧ s' = s := Iff.rfl

@[simp] theorem exec_ofExcept {x r : Except ε α} :
    (ofExcept x : Prog F ε α).Exec c s r s' ↔ r = x ∧ s' = s := by
  cases x <;> exact Iff.rfl

theorem exec_call {op : F.Op} {k : Except ε (F.Ans op) → Prog F ε α} {r : Except ε α} :
    (call op k).Exec c s r s' ↔
      ∃ ch x s₁, W.answer c s op ch = some (x, s₁) ∧ (k x).Exec c s₁ r s' := Iff.rfl

/-- An operation performed alone gives what the world answers it, an error included. -/
theorem exec_perform {op : F.Op} {r : Except ε (F.Ans op)} :
    (perform op).Exec c s r s' ↔ ∃ ch, W.answer c s op ch = some (r, s') := by
  constructor
  · rintro ⟨ch, x, s₁, ha, hk⟩
    cases x with
    | ok a =>
      obtain ⟨rfl, rfl⟩ := hk
      exact ⟨ch, ha⟩
    | error e =>
      obtain ⟨rfl, rfl⟩ := hk
      exact ⟨ch, ha⟩
  · rintro ⟨ch, ha⟩
    refine ⟨ch, r, s', ha, ?_⟩
    cases r <;> exact ⟨rfl, rfl⟩

/-- The run that answers an operation after the other by the given picks. -/
def follow (c : W.Ctx) : Prog F ε α → List W.Choice → W.State → Option (Except ε α × W.State)
  | ret a, _, s => some (.ok a, s)
  | throw e, _, s => some (.error e, s)
  | call _ _, [], _ => none
  | call op k, ch :: chs, s =>
    match W.answer c s op ch with
    | some (x, s₁) => (k x).follow c chs s₁
    | none => none

/-- A run along a list of the world's choices is a run: with it an execution of a fixed program is
exhibited by evaluating it. -/
theorem exec_of_follow {p : Prog F ε α} (chs : List W.Choice) {r : Except ε α}
    (h : p.follow c chs s = some (r, s')) : p.Exec c s r s' := by
  induction p generalizing s chs with
  | ret a =>
    obtain ⟨rfl, rfl⟩ := Prod.mk.inj (Option.some.inj h)
    exact ⟨rfl, rfl⟩
  | throw e =>
    obtain ⟨rfl, rfl⟩ := Prod.mk.inj (Option.some.inj h)
    exact ⟨rfl, rfl⟩
  | call op k ih =>
    cases chs with
    | nil => cases h
    | cons ch chs =>
      rw [follow] at h
      rcases ha : W.answer c s op ch with _ | ⟨x, s₁⟩
      · rw [ha] at h
        cases h
      · rw [ha] at h
        exact ⟨ch, x, s₁, ha, ih x chs h⟩

/-- Inversion for sequencing: the first program returns and the second runs on, or the first
throws. -/
theorem exec_bind {p : Prog F ε α} {f : α → Prog F ε β} {r : Except ε β} :
    (p.bind f).Exec c s r s' ↔
      (∃ a s₁, p.Exec c s (.ok a) s₁ ∧ (f a).Exec c s₁ r s') ∨
        ∃ e, p.Exec c s (.error e) s' ∧ r = .error e := by
  induction p generalizing s with
  | ret a => simp
  | throw e => simp [and_comm]
  | call op k ih =>
    simp only [call_bind, exec_call, ih]
    constructor
    · rintro ⟨ch, x, s₁, ha, ⟨a, s₂, hk, hf⟩ | ⟨e, hk, hr⟩⟩
      · exact .inl ⟨a, s₂, ⟨ch, x, s₁, ha, hk⟩, hf⟩
      · exact .inr ⟨e, ⟨ch, x, s₁, ha, hk⟩, hr⟩
    · rintro (⟨a, s₂, ⟨ch, x, s₁, ha, hk⟩, hf⟩ | ⟨e, ⟨ch, x, s₁, ha, hk⟩, hr⟩)
      · exact ⟨ch, x, s₁, ha, .inl ⟨a, s₂, hk, hf⟩⟩
      · exact ⟨ch, x, s₁, ha, .inr ⟨e, hk, hr⟩⟩

/-- Inversion for handlers: the program returns, or it throws and the handler runs on. -/
theorem exec_tryCatch {p : Prog F ε α} {h : ε → Prog F ε α} {r : Except ε α} :
    (p.tryCatch h).Exec c s r s' ↔
      (∃ a, p.Exec c s (.ok a) s' ∧ r = .ok a) ∨
        ∃ e s₁, p.Exec c s (.error e) s₁ ∧ (h e).Exec c s₁ r s' := by
  induction p generalizing s with
  | ret a => simp [Prog.tryCatch, and_comm]
  | throw e => simp [Prog.tryCatch]
  | call op k ih =>
    simp only [Prog.tryCatch, exec_call, ih]
    constructor
    · rintro ⟨ch, x, s₁, ha, ⟨a, hk, hr⟩ | ⟨e, s₂, hk, hh⟩⟩
      · exact .inl ⟨a, ⟨ch, x, s₁, ha, hk⟩, hr⟩
      · exact .inr ⟨e, s₂, ⟨ch, x, s₁, ha, hk⟩, hh⟩
    · rintro (⟨a, ⟨ch, x, s₁, ha, hk⟩, hr⟩ | ⟨e, s₂, ⟨ch, x, s₁, ha, hk⟩, hh⟩)
      · exact ⟨ch, x, s₁, ha, .inl ⟨a, hk, hr⟩⟩
      · exact ⟨ch, x, s₁, ha, .inr ⟨e, s₂, hk, hh⟩⟩

/-- A program with its outcome as a value: nothing is thrown. -/
def attempt (p : Prog F ε α) : Prog F ε (Except ε α) :=
  (p.bind fun a => ret (.ok a)).tryCatch fun e => ret (.error e)

/-- What is attempted does not throw: its outcome, of either kind, is handed on as a value. -/
theorem exec_attempt {p : Prog F ε α} {r : Except ε (Except ε α)} :
    p.attempt.Exec c s r s' ↔ ∃ x, r = .ok x ∧ p.Exec c s x s' := by
  simp only [attempt, exec_tryCatch, exec_bind, exec_ret]
  constructor
  · rintro (⟨x, ⟨a, s₁, hp, hx, rfl⟩ | ⟨e, -, hx⟩, rfl⟩ | ⟨e, s₁, h, rfl, rfl⟩)
    · cases hx
      exact ⟨.ok a, rfl, hp⟩
    · cases hx
    · rcases h with ⟨a, s₂, -, he, -⟩ | ⟨e', hp, he⟩
      · cases he
      · cases he
        exact ⟨.error e, rfl, hp⟩
  · rintro ⟨x, rfl, hp⟩
    cases x with
    | ok a => exact .inl ⟨.ok a, .inl ⟨a, s', hp, rfl, rfl⟩, rfl⟩
    | error e => exact .inr ⟨e, s', .inr ⟨e, hp, rfl⟩, rfl, rfl⟩

/-- A value of what the program returned, or of what it threw. -/
theorem bind_ret_tryCatch (p : Prog F ε α) (f : α → β) (g : ε → β) :
    ((p.bind fun a => ret (f a)).tryCatch fun e => ret (g e)) = p.attempt.bind fun x =>
      ret (match x with
        | .ok a => f a
        | .error e => g e) := by
  induction p with
  | ret a => rfl
  | throw e => rfl
  | call op k ih => exact congrArg (call op) (funext ih)

/-- The one run of a program whose operations are answered by a function. -/
def eval {σ : Type} (f : σ → (op : F.Op) → Except ε (F.Ans op) × σ) :
    Prog F ε α → σ → Except ε α × σ
  | ret a, s => (.ok a, s)
  | throw e, s => (.error e, s)
  | call op k, s => (k (f s op).1).eval f (f s op).2

/-- A world that answers by a function. -/
abbrev det {σ : Type} (f : σ → (op : F.Op) → Except ε (F.Ans op) × σ) : World F ε where
  Ctx := Unit
  State := σ
  Choice := Unit
  answer _ s op _ := some (f s op)

/-- **There every program has one run.** -/
theorem exec_det {σ : Type} {f : σ → (op : F.Op) → Except ε (F.Ans op) × σ} {p : Prog F ε α}
    {s s' : σ} {r : Except ε α} :
    p.Exec (W := det f) () s r s' ↔ p.eval f s = (r, s') := by
  induction p generalizing s with
  | ret a =>
    rw [exec_ret, eval, Prod.mk.injEq]
    exact and_congr eq_comm eq_comm
  | throw e =>
    rw [exec_throw, eval, Prod.mk.injEq]
    exact and_congr eq_comm eq_comm
  | call op k ih =>
    rw [eval, ← ih]
    constructor
    · rintro ⟨_, x, s₁, ha, hk⟩
      have hans : f s op = (x, s₁) := Option.some.inj ha
      rw [hans]
      exact hk
    · intro hk
      exact ⟨(), _, _, rfl, hk⟩

/-- What a program returns where each operation is always answered alike. -/
def given (f : (op : F.Op) → Except ε (F.Ans op)) (p : Prog F ε α) : Except ε α :=
  (p.eval (fun (_ : Unit) op => (f op, ())) ()).1

section

variable (f : (op : F.Op) → Except ε (F.Ans op))

@[simp] theorem given_ret (a : α) : (ret a : Prog F ε α).given f = .ok a := rfl

@[simp] theorem given_throw (e : ε) : (throw e : Prog F ε α).given f = .error e := rfl

/-- Under fixed answers the first program's value decides what is asked next, and its error ends
it. -/
theorem given_bind (p : Prog F ε α) (g : α → Prog F ε β) :
    (p.bind g).given f = (p.given f).bind fun a => (g a).given f := by
  induction p with
  | ret a => rfl
  | throw e => rfl
  | call op k ih => exact ih (f op)

@[simp] theorem given_perform (op : F.Op) : (perform op : Prog F ε _).given f = f op := by
  simp only [given, perform, eval]
  cases f op <;> rfl

@[simp] theorem given_ofExcept (x : Except ε α) : (ofExcept x : Prog F ε α).given f = x := by
  cases x <;> rfl

/-- A loop over a list is a loop over what its steps give under the answers. -/
theorem given_foldlM (step : β → α → Prog F ε β) (as : List α) (b : β) :
    (as.foldlM step b).given f = as.foldlM (fun b a => (step b a).given f) b := by
  induction as generalizing b with
  | nil => rfl
  | cons a as ih =>
    rw [List.foldlM_cons, List.foldlM_cons, bind_eq, given_bind]
    exact congrArg _ (funext ih)

/-- The operations it performs there. -/
def performed : Prog F ε α → List F.Op
  | ret _ => []
  | throw _ => []
  | call op k => op :: (k (f op)).performed

/-- What is performed is what the first program performs, and after it what the second does, if the
first returns. -/
theorem performed_bind (p : Prog F ε α) (g : α → Prog F ε β) :
    (p.bind g).performed f =
      p.performed f ++ (p.given f).toOption.elim [] fun a => (g a).performed f := by
  induction p with
  | ret a => rfl
  | throw e => rfl
  | call op k ih => exact congrArg (op :: ·) (ih (f op))

theorem performed_perform (op : F.Op) : (perform op : Prog F ε _).performed f = [op] := by
  simp only [performed, perform]
  cases f op <;> rfl

end

/-! ## The operations a program can perform -/

/-- Every operation the program can come to, whatever it is answered, satisfies `P`. -/
def Uses (P : F.Op → Prop) : Prog F ε α → Prop
  | ret _ => True
  | throw _ => True
  | call op k => P op ∧ ∀ x, (k x).Uses P

variable {P : F.Op → Prop}

@[simp] theorem uses_ret (a : α) : (ret a : Prog F ε α).Uses P := trivial

@[simp] theorem uses_throw (e : ε) : (throw e : Prog F ε α).Uses P := trivial

/-- One operation performed alone asks for itself only. -/
theorem uses_perform {op : F.Op} (h : P op) : (perform op : Prog F ε _).Uses P :=
  ⟨h, fun x => by cases x <;> trivial⟩

/-- A sequence asks for what its parts ask, the second with whatever the first may return. -/
theorem Uses.bind {p : Prog F ε α} {f : α → Prog F ε β} (hp : p.Uses P)
    (hf : ∀ a, (f a).Uses P) : (p.bind f).Uses P := by
  induction p with
  | ret a => exact hf a
  | throw e => trivial
  | call op k ih => exact ⟨hp.1, fun x => ih x (hp.2 x)⟩

/-- A program with a handler asks for what it asks and what the handler does, after any error. -/
theorem Uses.tryCatch {p : Prog F ε α} {h : ε → Prog F ε α} (hp : p.Uses P)
    (hh : ∀ e, (h e).Uses P) : (p.tryCatch h).Uses P := by
  induction p with
  | ret a => trivial
  | throw e => exact hh e
  | call op k ih => exact ⟨hp.1, fun x => ih x (hp.2 x)⟩

/-- What is allowed may be widened: a program that keeps to less keeps to more. -/
theorem Uses.mono {Q : F.Op → Prop} {p : Prog F ε α} (hp : p.Uses P) (h : ∀ op, P op → Q op) :
    p.Uses Q := by
  induction p with
  | ret a => trivial
  | throw e => trivial
  | call op k ih => exact ⟨h op hp.1, fun x => ih x (hp.2 x)⟩

/-- A pure computation asks for nothing. -/
theorem uses_ofExcept (x : Except ε α) : (ofExcept x : Prog F ε α).Uses P := by
  cases x <;> trivial

/-- What a program performs where operations are always answered alike. -/
theorem Uses.performed {p : Prog F ε α} (hp : p.Uses P) (f : (op : F.Op) → Except ε (F.Ans op)) :
    ∀ op ∈ p.performed f, P op := by
  induction p with
  | ret a => simp [Prog.performed]
  | throw e => simp [Prog.performed]
  | call op k ih => exact List.forall_mem_cons.2 ⟨hp.1, ih (f op) (hp.2 (f op))⟩

/-- **Frame rule.** What every operation of the program preserves, the run preserves. -/
theorem Exec.frame {I : W.State → Prop} {p : Prog F ε α} {r : Except ε α} (hp : p.Uses P)
    (hI : ∀ s op ch x s₁, P op → I s → W.answer c s op ch = some (x, s₁) → I s₁)
    (he : p.Exec c s r s') (hs : I s) : I s' := by
  induction p generalizing s with
  | ret a =>
    obtain ⟨-, rfl⟩ := he
    exact hs
  | throw e =>
    obtain ⟨-, rfl⟩ := he
    exact hs
  | call op k ih =>
    obtain ⟨ch, x, s₁, ha, hk⟩ := he
    exact ih x (hp.2 x) hk (hI s op ch x s₁ hp.1 hs ha)

/-! ## The values a program can return -/

/-- Every value the program can return satisfies `P`, whatever its operations are answered. -/
def Returns (P : α → Prop) : Prog F ε α → Prop
  | ret a => P a
  | throw _ => True
  | call _ k => ∀ x, (k x).Returns P

/-- Of any program it can be said that it returns something, if it does. -/
theorem returns_trivial (p : Prog F ε α) : p.Returns fun _ => True := by
  induction p with
  | ret a => trivial
  | throw e => trivial
  | call op k ih => exact ih

/-- What holds of all values returned is passed on through a sequence, by a fact about the first
part's. -/
theorem Returns.bind {A : α → Prop} {B : β → Prop} {p : Prog F ε α} {f : α → Prog F ε β}
    (hp : p.Returns A) (hf : ∀ a, A a → (f a).Returns B) : (p.bind f).Returns B := by
  induction p with
  | ret a => exact hf a hp
  | throw e => trivial
  | call op k ih => exact fun x => ih x (hp x)

/-- A handler returns in the place of what threw, and has to give the same. -/
theorem Returns.tryCatch {A : α → Prop} {p : Prog F ε α} {h : ε → Prog F ε α} (hp : p.Returns A)
    (hh : ∀ e, (h e).Returns A) : (p.tryCatch h).Returns A := by
  induction p with
  | ret a => exact hp
  | throw e => exact hh e
  | call op k ih => exact fun x => ih x (hp x)

/-- A fact about what is returned may be weakened to one that follows from it. -/
theorem Returns.mono {A B : α → Prop} {p : Prog F ε α} (hp : p.Returns A) (h : ∀ a, A a → B a) :
    p.Returns B := by
  induction p with
  | ret a => exact h a hp
  | throw e => trivial
  | call op k ih => exact fun x => ih x (hp x)

/-- A pure computation returns what it is, or throws. -/
theorem returns_ofExcept {A : α → Prop} {x : Except ε α} (h : ∀ a, x = .ok a → A a) :
    (ofExcept x : Prog F ε α).Returns A := by
  cases x with
  | ok a => exact h a rfl
  | error e => trivial

/-- A program run under fixed answers returns one of the values it may return. -/
theorem Returns.given {A : α → Prop} {p : Prog F ε α} (hp : p.Returns A)
    {f : (op : F.Op) → Except ε (F.Ans op)} {a : α} (h : p.given f = .ok a) : A a := by
  induction p with
  | ret b =>
    obtain rfl := Except.ok.inj h
    exact hp
  | throw e => cases h
  | call op k ih => exact ih (f op) (hp (f op)) h

/-- Sequencing, with what the first program returns. -/
theorem Uses.bind_returns {A : α → Prop} {p : Prog F ε α} {f : α → Prog F ε β} (hp : p.Uses P)
    (hA : p.Returns A) (hf : ∀ a, A a → (f a).Uses P) : (p.bind f).Uses P := by
  induction p with
  | ret a => exact hf a hA
  | throw e => trivial
  | call op k ih => exact ⟨hp.1, fun x => ih x (hp.2 x) (hA x)⟩

/-- Whatever its operations are answered, the program performs at most so many. -/
def EndsWithin : ℕ → Prog F ε α → Prop
  | _, ret _ => True
  | _, throw _ => True
  | 0, call _ _ => False
  | n + 1, call _ k => ∀ x, (k x).EndsWithin n

theorem endsWithin_ret (n : ℕ) (a : α) : (ret a : Prog F ε α).EndsWithin n := by
  cases n <;> trivial

theorem endsWithin_throw (n : ℕ) (e : ε) : (throw e : Prog F ε α).EndsWithin n := by
  cases n <;> trivial

/-- One operation needs one step, so a program's measure counts the operations on its longest
path. -/
theorem endsWithin_perform (n : ℕ) (op : F.Op) : (perform op : Prog F ε _).EndsWithin (n + 1) := by
  intro x
  cases x with
  | ok a => exact endsWithin_ret n a
  | error e => exact endsWithin_throw n e

/-- A bound on the operations may be raised, as for the two branches of a choice. -/
theorem EndsWithin.mono {p : Prog F ε α} {m n : ℕ} (h : p.EndsWithin m) (hmn : m ≤ n) :
    p.EndsWithin n := by
  induction p generalizing m n with
  | ret a => exact endsWithin_ret n a
  | throw e => exact endsWithin_throw n e
  | call op k ih =>
    cases m with
    | zero => exact h.elim
    | succ m =>
      obtain ⟨n, rfl⟩ := Nat.exists_eq_add_of_lt hmn
      exact fun x => ih x (h x) (Nat.le_add_right m n)

/-- The counts of two programs add up. -/
theorem EndsWithin.bind {A : α → Prop} {p : Prog F ε α} {f : α → Prog F ε β} {m n : ℕ}
    (hp : p.EndsWithin m) (hA : p.Returns A) (hf : ∀ a, A a → (f a).EndsWithin n) :
    (p.bind f).EndsWithin (m + n) := by
  induction p generalizing m with
  | ret a => exact (hf a hA).mono (Nat.le_add_left n m)
  | throw e => exact endsWithin_throw _ e
  | call op k ih =>
    cases m with
    | zero => exact hp.elim
    | succ m =>
      rw [Nat.succ_add]
      exact fun x => ih x (hp x) (hA x)

/-- An execution in any world returns one of the values that the program may return. -/
theorem Exec.returns {A : α → Prop} {p : Prog F ε α} {a : α} (he : p.Exec c s (.ok a) s')
    (hp : p.Returns A) : A a := by
  induction p generalizing s with
  | ret b =>
    obtain rfl := Except.ok.inj he.1
    exact hp
  | throw e => cases he.1
  | call op k ih =>
    obtain ⟨ch, x, s₁, -, hk⟩ := he
    exact ih x hk (hp x)

end Prog

/-! ## Traces -/

/-- `W` with the operations performed, the latest last. -/
abbrev World.traced {F : Signature} {ε : Type} (W : World F ε) : World F ε where
  Ctx := W.Ctx
  State := W.State × List F.Op
  Choice := W.Choice
  answer c s op ch := (W.answer c s.1 op ch).map fun x => (x.1, x.2, s.2 ++ [op])

namespace Prog

variable {F : Signature} {ε α : Type} {W : World F ε} {c : W.Ctx} {s s' : W.State}
variable {ops ops' : List F.Op}

/-- A traced world answers as the world does, and notes the operation behind those before. -/
theorem answer_traced {op : F.Op} {ch : W.Choice} {x : Except ε (F.Ans op)}
    (h : W.traced.answer c (s, ops) op ch = some (x, (s', ops'))) :
    W.answer c s op ch = some (x, s') ∧ ops' = ops ++ [op] := by
  obtain ⟨⟨y, t⟩, ha, hy⟩ := Option.map_eq_some_iff.1 h
  obtain ⟨rfl, hs⟩ := Prod.mk.inj hy
  obtain ⟨rfl, rfl⟩ := Prod.mk.inj hs
  exact ⟨ha, rfl⟩

/-- A traced run is a run, and what it adds to the trace are operations the program can perform. -/
theorem Exec.traced {P : F.Op → Prop} {p : Prog F ε α} {r : Except ε α} (hp : p.Uses P)
    (h : p.Exec (W := W.traced) c (s, ops) r (s', ops')) :
    p.Exec (W := W) c s r s' ∧ ∃ new, ops' = ops ++ new ∧ ∀ op ∈ new, P op := by
  induction p generalizing s ops with
  | ret a =>
    obtain ⟨rfl, hs⟩ := h
    obtain ⟨rfl, rfl⟩ := Prod.mk.inj hs
    exact ⟨⟨rfl, rfl⟩, [], (List.append_nil _).symm, nofun⟩
  | throw e =>
    obtain ⟨rfl, hs⟩ := h
    obtain ⟨rfl, rfl⟩ := Prod.mk.inj hs
    exact ⟨⟨rfl, rfl⟩, [], (List.append_nil _).symm, nofun⟩
  | call op k ih =>
    obtain ⟨ch, x, ⟨s₁, ops₁⟩, ha, hk⟩ := h
    obtain ⟨hans, rfl⟩ := answer_traced ha
    obtain ⟨hexec, new, rfl, hnew⟩ := ih x (hp.2 x) hk
    refine ⟨⟨ch, x, s₁, hans, hexec⟩, op :: new, ?_, ?_⟩
    · rw [List.append_assoc, List.singleton_append]
    · simpa using ⟨hp.1, hnew⟩

end Prog

/-! ## Several components -/

/-- The operations of a family of components, each with the same signature. -/
abbrev Signature.indexed (ι : Type) (F : Signature) : Signature := ⟨ι × F.Op, fun op => F.Ans op.2⟩

namespace Prog

variable {F : Signature} {ε α β ι : Type}

/-- A program of component `i`. -/
def on (i : ι) : Prog F ε α → Prog (F.indexed ι) ε α
  | ret a => ret a
  | throw e => throw e
  | call op k => call (F := F.indexed ι) (i, op) fun x => (k x).on i

/-- A program put at one of several objects uses there what it used. -/
theorem Uses.on {i : ι} {P : (F.indexed ι).Op → Prop} {p : Prog F ε α}
    (hp : p.Uses fun op => P (i, op)) : (p.on i).Uses P := by
  induction p with
  | ret a => trivial
  | throw e => trivial
  | call op k ih => exact ⟨hp.1, fun x => ih x (hp.2 x)⟩

end Prog

/-- The operations of two components. -/
abbrev Signature.sum (F G : Signature) : Signature := ⟨F.Op ⊕ G.Op, Sum.elim F.Ans G.Ans⟩

namespace Prog

variable {F G : Signature} {ε α β : Type}

/-- A program of the first of two components. -/
def left : Prog F ε α → Prog (F.sum G) ε α
  | ret a => ret a
  | throw e => throw e
  | call op k => call (F := F.sum G) (.inl op) fun x => (k x).left

/-- A program over one kind of operation is one over two kinds that leaves the other alone. -/
theorem Uses.left {P : (F.sum G).Op → Prop} {p : Prog F ε α} (hp : p.Uses fun op => P (.inl op)) :
    (p.left : Prog (F.sum G) ε α).Uses P := by
  induction p with
  | ret a => trivial
  | throw e => trivial
  | call op k ih => exact ⟨hp.1, fun x => ih x (hp.2 x)⟩

end Prog

end Effectful
