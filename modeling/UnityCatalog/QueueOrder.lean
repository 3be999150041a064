import Mathlib.Data.Set.Finite.Basic
import Mathlib.Data.Finset.Card

/-!
# Working through a tree in queue order

A library module. A queue starts with some roots; taking its front element puts the element's
children at its back. On a finite tree every element is taken exactly once, and the order in which
they are taken is the one list that the queue discipline produces.
-/

namespace QueueOrder

variable {α : Type} (children : α → List α) (roots : List α)

/-- Elements a queue can come to hold. -/
inductive Reach : α → Prop where
  /-- it starts there -/
  | root {a : α} : a ∈ roots → Reach a
  /-- it is a child -/
  | child {a b : α} : Reach a → b ∈ children a → Reach b

/-- The elements form a finite tree, below an imagined root above `roots`: nothing is named
twice. -/
structure FiniteTree : Prop where
  finite : {a | Reach children roots a}.Finite
  roots_nodup : roots.Nodup
  children_nodup : ∀ a, Reach children roots a → (children a).Nodup
  /-- a child is no root -/
  child_not_root : ∀ a, Reach children roots a → ∀ b ∈ children a, b ∉ roots
  /-- a child has one parent -/
  parent_unique : ∀ a a', Reach children roots a → Reach children roots a' →
    ∀ b ∈ children a, b ∈ children a' → a = a'

/-- `Taken done queue`: the queue discipline takes the elements `done`, in this order, and leaves
`queue`. -/
inductive Taken : List α → List α → Prop where
  /-- nothing is taken yet -/
  | start : Taken [] roots
  /-- the front is taken -/
  | take {done queue : List α} {a : α} :
      Taken done (a :: queue) → Taken (done ++ [a]) (queue ++ children a)

/-- `Order queue order`: starting with `queue`, the elements are taken in this order, and none is
left. -/
inductive Order : List α → List α → Prop where
  /-- the queue is empty -/
  | nil : Order [] []
  /-- the front is taken -/
  | take {queue order : List α} {a : α} :
      Order (queue ++ children a) order → Order (a :: queue) (a :: order)

variable {children roots} {done queue : List α} {a : α}

/-- What was taken and what waits is the roots and the children of what was taken. -/
theorem Taken.eq (h : Taken children roots done queue) :
    done ++ queue = roots ++ done.flatMap children := by
  induction h with
  | start => simp
  | @take done queue a _ ih =>
    calc done ++ [a] ++ (queue ++ children a)
        = (done ++ a :: queue) ++ children a := by simp
      _ = roots ++ (done ++ [a]).flatMap children := by rw [ih]; simp

theorem Taken.reach (h : Taken children roots done queue) :
    ∀ a ∈ done ++ queue, Reach children roots a := by
  induction h with
  | start =>
    intro a ha
    exact .root (by simpa using ha)
  | @take done queue b _ ih =>
    intro a ha
    have hb : Reach children roots b := ih b (by simp)
    simp only [List.append_assoc, List.mem_append, List.mem_singleton] at ha
    rcases ha with ha | rfl | ha | ha
    · exact ih a (by simp [ha])
    · exact hb
    · exact ih a (by simp [ha])
    · exact .child hb ha

/-- On a tree nothing is taken twice, or waits twice. -/
theorem Taken.nodup (htree : FiniteTree children roots) (h : Taken children roots done queue) :
    (done ++ queue).Nodup := by
  induction h with
  | start => simpa using htree.roots_nodup
  | @take done queue a hprev ih =>
    have ha : Reach children roots a := hprev.reach a (by simp)
    have hadone : a ∉ done := by
      intro hmem
      rw [List.nodup_append] at ih
      exact ih.2.2 a hmem a List.mem_cons_self rfl
    have hsplit : done ++ [a] ++ (queue ++ children a) = (done ++ a :: queue) ++ children a := by
      simp
    rw [hsplit, List.nodup_append]
    refine ⟨ih, htree.children_nodup a ha, ?_⟩
    -- a child of `a` is new: a root it is not, and its one parent `a` was not taken before
    rintro b hb _ hba rfl
    rw [hprev.eq, List.mem_append, List.mem_flatMap] at hb
    rcases hb with hroot | ⟨a', ha', hba'⟩
    · exact htree.child_not_root a ha b hba hroot
    · have hreach : Reach children roots a' := hprev.reach a' (List.mem_append_left _ ha')
      obtain rfl := htree.parent_unique a a' ha hreach b hba hba'
      exact hadone ha'

/-- No more is taken than the tree holds. -/
theorem Taken.length_le (htree : FiniteTree children roots) (h : Taken children roots done queue) :
    (done ++ queue).length ≤ htree.finite.toFinset.card := by
  classical
  rw [← List.toFinset_card_of_nodup (h.nodup htree)]
  apply Finset.card_le_card
  intro a ha
  simpa using h.reach a (by simpa using ha)

/-- When the queue is empty, everything was taken. -/
theorem Taken.mem_iff (h : Taken children roots done []) : a ∈ done ↔ Reach children roots a := by
  have heq := h.eq
  rw [List.append_nil] at heq
  constructor
  · intro ha
    exact h.reach a (by simpa using ha)
  · intro ha
    induction ha with
    | root hr =>
      rw [heq]
      exact List.mem_append_left _ hr
    | child _ hb ih =>
      rw [heq]
      exact List.mem_append_right _ (List.mem_flatMap.2 ⟨_, ih, hb⟩)

/-- What is taken from a queue until it is empty. -/
theorem Taken.append (h : Taken children roots done queue) {rest : List α}
    (ho : Order children queue rest) : Taken children roots (done ++ rest) [] := by
  induction ho generalizing done with
  | nil => simpa using h
  | @take a queue rest _ ih =>
    have hnext := ih h.take
    rwa [List.append_assoc] at hnext

/-- **A finite tree has a queue order.** -/
theorem FiniteTree.exists_order (htree : FiniteTree children roots) :
    ∃ order, Order children roots order := by
  suffices h : ∀ n done queue, Taken children roots done queue →
      htree.finite.toFinset.card - done.length = n → ∃ order, Order children queue order from
    h _ [] roots .start rfl
  intro n
  induction n with
  | zero =>
    intro done queue h hn
    have hle := h.length_le htree
    rw [List.length_append] at hle
    obtain rfl : queue = [] := List.length_eq_zero_iff.1 (by omega)
    exact ⟨[], .nil⟩
  | succ n ih =>
    intro done queue h hn
    cases queue with
    | nil => exact ⟨[], .nil⟩
    | cons a queue =>
      obtain ⟨rest, hrest⟩ := ih _ _ h.take (by simp; omega)
      exact ⟨a :: rest, .take hrest⟩

/-- It takes every element of the tree, -/
theorem Order.mem_iff {order : List α} (ho : Order children roots order) :
    a ∈ order ↔ Reach children roots a :=
  (Taken.start.append ho).mem_iff

/-- and takes it once. -/
theorem Order.nodup {order : List α} (htree : FiniteTree children roots)
    (ho : Order children roots order) : order.Nodup := by
  have h := (Taken.start.append ho).nodup htree
  simpa using h

end QueueOrder
