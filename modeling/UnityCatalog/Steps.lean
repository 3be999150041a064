import Mathlib.Logic.Relation

/-!
# Step systems and runs under a condition

A library module. A `StepSystem` is a set of initial states and a labelled step relation. What is
proved about it is proved about **runs under a condition**: `S.Run ok s t` says that `S` can go from
`s` to `t` by steps each of which meets `ok` in the state it is taken from. With `ok` everywhere
true these are all runs; with a smaller `ok` they are the runs a conditional theorem speaks of, and
`Run.invariant` is the one induction both kinds need.
-/

namespace Effectful

/-- A labelled step system. -/
structure StepSystem where
  /-- the states -/
  State : Type
  /-- what a step is taken by -/
  Label : Type
  /-- where runs start -/
  init : State → Prop
  /-- `step s l t`: from `s` the step `l` can lead to `t` -/
  step : State → Label → State → Prop

namespace StepSystem

variable {S : StepSystem} {ok : S.State → S.Label → Prop} {s t u : S.State}

/-- `S.Run ok s t`: finitely many steps lead from `s` to `t`, each meeting `ok` where it starts. -/
inductive Run (S : StepSystem) (ok : S.State → S.Label → Prop) (s : S.State) : S.State → Prop where
  /-- the empty run -/
  | refl : Run S ok s s
  /-- one more step at the end -/
  | tail {t u : S.State} (l : S.Label) : Run S ok s t → ok t l → S.step t l u → Run S ok s u

/-- The states of the runs from an initial state whose steps all meet `ok`. -/
def ReachableWhile (S : StepSystem) (ok : S.State → S.Label → Prop) (t : S.State) : Prop :=
  ∃ s, S.init s ∧ S.Run ok s t

/-- The states of all runs from an initial state. -/
abbrev Reachable (S : StepSystem) (t : S.State) : Prop := S.ReachableWhile (fun _ _ => True) t

/-- What every step meeting the condition preserves, every run under the condition preserves. -/
theorem Run.invariant {I : S.State → Prop} (h : S.Run ok s t) (hs : I s)
    (hstep : ∀ t l u, I t → ok t l → S.step t l u → I u) : I t := by
  induction h with
  | refl => exact hs
  | tail l _ hok hst ih => exact hstep _ l _ ih hok hst

theorem Run.trans (h₁ : S.Run ok s t) (h₂ : S.Run ok t u) : S.Run ok s u := by
  induction h₂ with
  | refl => exact h₁
  | tail l _ hok hst ih => exact ih.tail l hok hst

theorem Run.mono {ok' : S.State → S.Label → Prop} (h : S.Run ok s t)
    (hle : ∀ s l, ok s l → ok' s l) : S.Run ok' s t := by
  induction h with
  | refl => exact .refl
  | tail l _ hok hst ih => exact ih.tail l (hle _ l hok) hst

theorem ReachableWhile.run (h : S.ReachableWhile ok s) (hr : S.Run ok s t) :
    S.ReachableWhile ok t := by
  obtain ⟨s₀, h₀, hs⟩ := h
  exact ⟨s₀, h₀, hs.trans hr⟩

/-- An invariant: what holds initially and is preserved by every step meeting the condition. -/
theorem ReachableWhile.invariant {I : S.State → Prop} (h : S.ReachableWhile ok t)
    (hinit : ∀ s, S.init s → I s)
    (hstep : ∀ t l u, I t → ok t l → S.step t l u → I u) : I t := by
  obtain ⟨s, h₀, hr⟩ := h
  exact hr.invariant (hinit s h₀) hstep

end StepSystem

end Effectful
