import Mathlib.Data.Finset.Card
import Mathlib.Data.Set.Finite.Basic

/-!
# A queue that is refilled by answers

A library module. A queue starts with some roots; taking its front element is answered, and the
answer names elements that go to the back. What the answer names is up to everything that was taken
before, so that the answers may go on for ever, or name an element again. The elements are taken
once each, and the queue runs empty, exactly where no element is named twice and no more than
finitely many are.
-/

namespace AnsweredQueue

variable {α : Type} (names : List α → α → List α) (roots : List α)

/-- `Taken done queue`: the elements `done` are taken, in this order, and `queue` waits. -/
inductive Taken : List α → List α → Prop where
  /-- nothing is taken yet -/
  | start : Taken [] roots
  /-- the front is taken, and answered -/
  | take {done queue : List α} {a : α} :
    Taken done (a :: queue) → Taken (done ++ [a]) (queue ++ names done a)

/-- What the answers name, along the elements that are taken after `before`. -/
def namedAlong (before : List α) : List α → List α
  | [] => []
  | a :: done => names before a ++ namedAlong (before ++ [a]) done

/-- No element is named twice, be it by the roots or by an answer. -/
def NamesOnce : Prop :=
  ∀ done queue, Taken names roots done queue → (roots ++ namedAlong names [] done).Nodup

/-- Everything that comes to be named. -/
def named : Set α := {a | ∃ done queue, Taken names roots done queue ∧ a ∈ done ++ queue}

variable {names roots} {done done' queue queue' : List α} {a : α}

theorem namedAlong_append (before done done' : List α) : namedAlong names before (done ++ done') =
    namedAlong names before done ++ namedAlong names (before ++ done) done' := by
  induction done generalizing before with
  | nil => simp [namedAlong]
  | cons a done ih => simp [namedAlong, ih]

/-- What was taken and what waits is what was named, in order. -/
theorem Taken.eq (h : Taken names roots done queue) :
    done ++ queue = roots ++ namedAlong names [] done := by
  induction h with
  | start => simp [namedAlong]
  | @take done queue a _ ih =>
    calc done ++ [a] ++ (queue ++ names done a)
        = (done ++ a :: queue) ++ names done a := by simp
      _ = roots ++ namedAlong names [] (done ++ [a]) := by
        rw [ih, namedAlong_append]
        simp [namedAlong]

/-- After as many elements, the queue is the same. -/
theorem Taken.unique (h : Taken names roots done queue) (h' : Taken names roots done' queue')
    (hlen : done.length = done'.length) : done = done' ∧ queue = queue' := by
  induction h generalizing done' queue' with
  | start =>
    cases h' with
    | start => exact ⟨rfl, rfl⟩
    | take h' => simp at hlen
  | take h ih =>
    cases h' with
    | start => simp at hlen
    | take h' =>
      obtain ⟨rfl, hqueue⟩ := ih h' (by simpa using hlen)
      obtain ⟨rfl, rfl⟩ := List.cons.inj hqueue
      exact ⟨rfl, rfl⟩

/-- What is named stays where it is in the order. -/
theorem Taken.extends (h : Taken names roots done queue) (h' : Taken names roots done' queue')
    (hlen : done.length ≤ done'.length) : done ++ queue <+: done' ++ queue' := by
  induction h' generalizing done queue with
  | start =>
    obtain rfl := List.length_eq_zero_iff.1 (Nat.le_zero.1 hlen)
    rw [(h.unique .start rfl).2]
  | @take done' queue' a h' ih =>
    rcases Nat.lt_or_ge done'.length done.length with hlt | hle
    · rw [List.length_append, List.length_singleton] at hlen
      obtain ⟨rfl, rfl⟩ :=
        h.unique h'.take (by rw [List.length_append, List.length_singleton]; omega)
      exact List.prefix_rfl
    · refine (ih h hle).trans ⟨names done' a, ?_⟩
      simp

/-- An empty queue is the end. -/
theorem Taken.length_le_of_empty (h : Taken names roots done queue)
    (h' : Taken names roots done' []) :
    done.length ≤ done'.length := by
  induction h with
  | start => exact Nat.zero_le _
  | @take done queue a h ih =>
    have hne : done.length ≠ done'.length := by
      intro hlen
      cases (h.unique h' hlen).2
    rw [List.length_append, List.length_singleton]
    omega

/-- Where the elements stand for others, by which they are named, so do those that are taken. -/
theorem Taken.of_map {β : Type} {f : β → α} {names' : List β → β → List β} {roots' : List β}
    (hroots : roots = roots'.map f)
    (hnames : ∀ before b, names (before.map f) (f b) = (names' before b).map f)
    (h : Taken names roots done queue) :
    ∃ done' queue', Taken names' roots' done' queue' ∧ done = done'.map f ∧
      queue = queue'.map f := by
  induction h with
  | start => exact ⟨[], roots', .start, rfl, hroots⟩
  | @take done queue a _ ih =>
    obtain ⟨done', waiting, h', rfl, hwaiting⟩ := ih
    obtain ⟨b, queue', rfl, rfl, rfl⟩ := List.map_eq_cons_iff.1 hwaiting.symm
    refine ⟨done' ++ [b], queue' ++ names' done' b, h'.take, ?_, ?_⟩
    · rw [List.map_append, List.map_singleton]
    · rw [List.map_append, hnames]

/-- A run that ends without taking an element twice has met no name twice. -/
theorem namesOnce_of_end (h : Taken names roots done []) (hnodup : done.Nodup) :
    NamesOnce names roots := by
  intro done' queue' h'
  have hext := h'.extends h (h'.length_le_of_empty h)
  rw [List.append_nil] at hext
  rw [← h'.eq]
  exact hnodup.sublist hext.sublist

theorem NamesOnce.nodup (h : NamesOnce names roots) (ht : Taken names roots done queue) :
    done.Nodup := by
  have hall := h done queue ht
  rw [← ht.eq] at hall
  exact (List.nodup_append.1 hall).1

/-- Where no element is named twice, no more are taken than there are. -/
theorem NamesOnce.length_le (h : NamesOnce names roots) (hfinite : (named names roots).Finite)
    (ht : Taken names roots done queue) : done.length ≤ hfinite.toFinset.card := by
  classical
  rw [← List.toFinset_card_of_nodup (h.nodup ht)]
  apply Finset.card_le_card
  intro a ha
  rw [Set.Finite.mem_toFinset]
  exact ⟨done, queue, ht, List.mem_append_left _ (List.mem_toFinset.1 ha)⟩

end AnsweredQueue
