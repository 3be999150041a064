import Mathlib.Data.List.Basic

/-!
# Texts joined by a separator

A library module. A name made of two parts with a separator between them determines its parts only
where they cannot straddle: where neither part runs over the separator into the other.
-/

namespace Joined

variable {α : Type}

/-- The parts `a, b` and `c, d` are cut from one text at two different separators. -/
def Straddle (sep : α) (a b c d : List α) : Prop :=
  (∃ w, c = a ++ sep :: w ∧ b = w ++ sep :: d) ∨ ∃ w, a = c ++ sep :: w ∧ d = w ++ sep :: b

theorem Straddle.symm {sep : α} {a b c d : List α} (h : Straddle sep a b c d) :
    Straddle sep c d a b :=
  Or.symm h

/-- Two joined texts are one exactly where their parts are, or straddle. -/
theorem append_cons_eq_iff {sep : α} {a b c d : List α} :
    a ++ sep :: b = c ++ sep :: d ↔ (a = c ∧ b = d) ∨ Straddle sep a b c d := by
  constructor
  · intro h
    rcases List.append_eq_append_iff.1 h with ⟨as, rfl, hb⟩ | ⟨bs, rfl, hd⟩
    · cases as with
      | nil => exact .inl ⟨(List.append_nil a).symm, (List.cons.inj hb).2⟩
      | cons x w =>
        obtain ⟨rfl, hb'⟩ := List.cons.inj hb
        exact .inr (.inl ⟨w, rfl, hb'⟩)
    · cases bs with
      | nil => exact .inl ⟨List.append_nil c, (List.cons.inj hd).2.symm⟩
      | cons x w =>
        obtain ⟨rfl, hd'⟩ := List.cons.inj hd
        exact .inr (.inr ⟨w, rfl, hd'⟩)
  · rintro (⟨rfl, rfl⟩ | ⟨w, rfl, rfl⟩ | ⟨w, rfl, rfl⟩)
    · rfl
    · rw [List.append_assoc, List.cons_append]
    · rw [List.append_assoc, List.cons_append]

/-- What has no separator in it stands in one of the parts. -/
theorem infix_append_cons_iff {sep : α} {word a b : List α} (h : sep ∉ word) :
    word <:+: a ++ sep :: b ↔ word <:+: a ∨ word <:+: b := by
  constructor
  · intro hword
    obtain ha | hb | ⟨l₁, l₂, rfl, h₁, h₂⟩ := List.infix_append_iff.1 hword
    · exact .inl ha
    · rcases List.infix_cons_iff.1 hb with hpre | hb
      · cases word with
        | nil => exact .inl List.nil_infix
        | cons x word =>
          obtain ⟨rfl, -⟩ := List.cons_prefix_cons.1 hpre
          exact absurd List.mem_cons_self h
      · exact .inr hb
    · cases l₂ with
      | nil =>
        rw [List.append_nil]
        exact .inl h₁.isInfix
      | cons x l₂ =>
        obtain ⟨rfl, -⟩ := List.cons_prefix_cons.1 h₂
        exact absurd (List.mem_append_right l₁ List.mem_cons_self) h
  · rintro (ha | hb)
    · exact ha.trans List.infix_append_left
    · exact (List.infix_cons hb).trans List.infix_append_right

/-- Last parts without the separator do not straddle. -/
theorem not_straddle_of_notMem_right {sep : α} {a b c d : List α} (hb : sep ∉ b) (hd : sep ∉ d) :
    ¬ Straddle sep a b c d := by
  rintro (⟨w, -, rfl⟩ | ⟨w, -, rfl⟩)
  · exact hb (List.mem_append_right w List.mem_cons_self)
  · exact hd (List.mem_append_right w List.mem_cons_self)

end Joined
