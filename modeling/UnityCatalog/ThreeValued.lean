import Mathlib.Data.List.Basic

/-!
# Three truth values

A library module: SQL's logic, where a truth value is an `Option Bool` and `none` is UNKNOWN. What a
filter keeps are the rows it is **TRUE** on, so the rules are about being TRUE: a conjunction is
TRUE when every part is, a disjunction when some part is, and UNKNOWN helps neither.
-/

namespace ThreeValued

/-- AND: FALSE wins, then UNKNOWN. -/
def and : Option Bool → Option Bool → Option Bool
  | some false, _ => some false
  | _, some false => some false
  | some true, some true => some true
  | _, _ => none

/-- OR: TRUE wins, then UNKNOWN. -/
def or : Option Bool → Option Bool → Option Bool
  | some true, _ => some true
  | _, some true => some true
  | some false, some false => some false
  | _, _ => none

/-- AND of any number of values. -/
def all (ts : List (Option Bool)) : Option Bool := ts.foldr and (some true)

/-- OR of any number of values. -/
def any (ts : List (Option Bool)) : Option Bool := ts.foldr or (some false)

variable {a b : Option Bool} {ts : List (Option Bool)}

/-- A conjunction is true only of two truths: unknown makes it unknown or false. -/
@[simp] theorem and_eq_true : and a b = some true ↔ a = some true ∧ b = some true := by
  rcases a with _ | _ | _ <;> rcases b with _ | _ | _ <;> simp [and]

/-- A disjunction is true as soon as one side is, whatever the other. -/
@[simp] theorem or_eq_true : or a b = some true ↔ a = some true ∨ b = some true := by
  rcases a with _ | _ | _ <;> rcases b with _ | _ | _ <;> simp [or]

/-- All of a list are true together only if each is. The induction is on the list. -/
@[simp] theorem all_eq_true : all ts = some true ↔ ∀ t ∈ ts, t = some true := by
  induction ts with
  | nil => simp [all]
  | cons t ts ih =>
    simp only [all, List.foldr_cons, and_eq_true, List.forall_mem_cons] at ih ⊢
    rw [ih]

/-- Some of a list is true exactly if truth is in the list. -/
@[simp] theorem any_eq_true : any ts = some true ↔ some true ∈ ts := by
  induction ts with
  | nil => simp [any]
  | cons t ts ih =>
    simp only [any, List.foldr_cons, or_eq_true, List.mem_cons] at ih ⊢
    rw [ih, eq_comm]

end ThreeValued
