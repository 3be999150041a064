import Mathlib.Data.List.Forall2

/-!
# What a decoder makes of its input

A library module. A decoder refuses some inputs and returns a value on the others, and the value may
be right or not. `Reads x refused sound exact` says all of it of one run `x`: it throws just where
`refused` holds, and a value it returns is `exact` just where `sound` holds. The two conditions are
about the input only, so the fields of a record and the items of an array can be described one by
one, and `Reads.bind` and `Reads.mapM` put the descriptions together. `Throws P x` is about the
error alone, put together the same way.
-/

namespace Decoding

/-- The run throws just where `refused` holds, and what it returns is `exact` just where `sound`
holds. -/
def Reads {ε α : Type} (x : Except ε α) (refused sound : Prop) (exact : α → Prop) : Prop :=
  match x with
  | .ok a => ¬ refused ∧ (exact a ↔ sound)
  | .error _ => refused

section

variable {ε α β : Type} {x : Except ε α} {refused sound : Prop} {exact : α → Prop}

/-- Every value the run returns is exact just where it refuses the input or the input is sound. -/
theorem Reads.exact_iff (h : Reads x refused sound exact) :
    (∀ a, x = .ok a → exact a) ↔ refused ∨ sound := by
  cases x with
  | ok a =>
    obtain ⟨hr, he⟩ := h
    refine ⟨fun hx => .inr (he.1 (hx a rfl)), ?_⟩
    rintro (hr' | hs) _ ⟨⟩
    · exact absurd hr' hr
    · exact he.2 hs
  | error e => exact ⟨fun _ => .inl h, fun _ _ => nofun⟩

/-- One part of a decoder: where it refuses the whole refuses, and what follows knows of its value
whether it is exact. -/
theorem Reads.bind {f : α → Except ε β} {R S : Prop} {E : β → Prop}
    (hx : Reads x refused sound exact) (hR : refused → R)
    (hf : ∀ a, ¬ refused → (exact a ↔ sound) → Reads (f a) R S E) : Reads (x >>= f) R S E := by
  cases x with
  | ok a => exact hf a hx.1 hx.2
  | error e => exact hR hx

theorem Reads.pure {a : α} (hr : ¬ refused) (he : exact a ↔ sound) :
    Reads (.ok a : Except ε α) refused sound exact := ⟨hr, he⟩

/-- A decoder along an array refuses it for one item it refuses. -/
theorem Reads.mapM {f : α → Except ε β} {refused sound : α → Prop} {exact : α → β → Prop}
    (hf : ∀ a, Reads (f a) (refused a) (sound a) (exact a)) (xs : List α) :
    Reads (xs.mapM f) (∃ a ∈ xs, refused a) (∀ a ∈ xs, sound a) (List.Forall₂ exact xs) := by
  induction xs with
  | nil => exact ⟨by simp, by simp⟩
  | cons a xs ih =>
    rw [List.mapM_cons]
    refine (hf a).bind (fun h => ⟨a, List.mem_cons_self, h⟩) fun b hr he => ?_
    refine ih.bind (fun ⟨a', hm, h⟩ => ⟨a', List.mem_cons_of_mem _ hm, h⟩) fun bs hrs hes => ?_
    refine Reads.pure ?_ ?_
    · rintro ⟨a', hm, h⟩
      rcases List.mem_cons.1 hm with rfl | hm
      · exact hr h
      · exact hrs ⟨a', hm, h⟩
    · rw [List.forall₂_cons, List.forall_mem_cons, he, hes]

end

/-! ## Errors -/

/-- What the run throws satisfies `P`. -/
def Throws {ε α : Type} (P : ε → Prop) (x : Except ε α) : Prop := ∀ e, x = .error e → P e

section

variable {ε α β : Type} {P : ε → Prop} {x : Except ε α}

theorem throws_ok (a : α) : Throws P (.ok a : Except ε α) := nofun

theorem throws_error {e : ε} (h : P e) : Throws P (.error e : Except ε α) := by
  rintro _ ⟨⟩
  exact h

theorem Throws.bind {f : α → Except ε β} (hx : Throws P x) (hf : ∀ a, Throws P (f a)) :
    Throws P (x >>= f) := by
  cases x with
  | ok a => exact hf a
  | error e => exact throws_error (hx e rfl)

theorem Throws.mapM {f : α → Except ε β} (hf : ∀ a, Throws P (f a)) (xs : List α) :
    Throws P (xs.mapM f) := by
  induction xs with
  | nil => exact throws_ok []
  | cons a xs ih =>
    rw [List.mapM_cons]
    exact (hf a).bind fun b => ih.bind fun bs => throws_ok (b :: bs)

end

end Decoding
