import Mathlib.Data.List.Infix
import Mathlib.Data.Set.Basic

/-!
# Longest prefixes

A library module. Values filed under keys that are prefixes: what is filed for a text is what stands
under the longest key the text begins with. `agrees_iff` says what must not be filed besides a set
of values for every text under one of them to be answered from that set.
-/

namespace LongestPrefix

variable {α κ : Type*} {E F : Set (List α × κ)} {text : List α} {e : List α × κ}

/-- Some key is a prefix of the text. -/
def Covered (E : Set (List α × κ)) (text : List α) : Prop := ∃ e ∈ E, e.1 <+: text

/-- The entry is filed under a longest key the text begins with. -/
structure Best (E : Set (List α × κ)) (text : List α) (e : List α × κ) : Prop where
  mem : e ∈ E
  isPrefix : e.1 <+: text
  longest : ∀ e' ∈ E, e'.1 <+: text → e'.1.length ≤ e.1.length

/-- `v` is filed under a longest key the text begins with. -/
def Filed (E : Set (List α × κ)) (text : List α) (v : κ) : Prop := ∃ e, Best E text e ∧ e.2 = v

/-- Every entry that may be taken for a text under `E`, be it of `E` or of `F`, has a value that `E`
files for the text. -/
def Agrees (E F : Set (List α × κ)) : Prop :=
  ∀ text, Covered E text → ∀ e, Best (E ∪ F) text e → Filed E text e.2

/-- A key is the longest for itself. -/
theorem best_self (h : e ∈ E) : Best E e.1 e := ⟨h, List.prefix_rfl, fun _ _ hp => hp.length_le⟩

/-- A best entry for a text with a longest key in between is one for the key. -/
theorem Best.extend {key : List α} (h : Best E key e) (hkey : key <+: text)
    (hlong : ∀ e' ∈ E, e'.1 <+: text → e'.1.length ≤ key.length) : Best E text e := by
  refine ⟨h.mem, h.isPrefix.trans hkey, fun e' he' hp => ?_⟩
  exact h.longest e' he' (List.prefix_of_prefix_length_le hp hkey (hlong e' he' hp))

/-- **Texts in a directory** are answered from the entry of one key of it, be it written with or
without the separator at its end, exactly if every entry that is closer to some of them has the same
value. -/
theorem answers_iff {key dir : List α} {v : κ} (hkey : (key, v) ∈ E) (hpre : key <+: dir)
    (hlen : dir.length ≤ key.length + 1) :
    (∀ text, dir <+: text → ∀ e, Best E text e → e.2 = v) ↔
      ∀ e ∈ E, dir <+: e.1 ∨ e.1 = key ∧ (∀ e' ∈ E, e'.1 ≠ dir) → e.2 = v := by
  constructor
  · rintro h e he (hdir | ⟨hsame, hno⟩)
    · exact h e.1 hdir e (best_self he)
    · -- the directory itself: what is filed for a part of it has at most the key's length
      refine h dir List.prefix_rfl e ⟨he, hsame ▸ hpre, fun e' he' hp => ?_⟩
      rcases Nat.lt_or_ge key.length e'.1.length with hlt | hle
      · exact absurd (hp.eq_of_length (le_antisymm hp.length_le (by omega))) (hno e' he')
      · exact hsame ▸ hle
  · intro h text hdir e hbest
    have hlong : key.length ≤ e.1.length := hbest.longest _ hkey (hpre.trans hdir)
    refine h e hbest.mem ?_
    rcases Nat.lt_or_ge e.1.length dir.length with hlt | hle
    · refine .inr ⟨(List.prefix_of_prefix_length_le hbest.isPrefix (hpre.trans hdir)
        (by omega)).eq_of_length (by omega), fun e' he' heq => ?_⟩
      have := hbest.longest e' he' (heq ▸ hdir)
      rw [heq] at this
      omega
    · exact .inl (List.prefix_of_prefix_length_le hdir hbest.isPrefix hle)

/-- **Texts under a set are answered from it** exactly if what is filed besides, under keys that the
set covers, is what the set files there. -/
theorem agrees_iff : Agrees E F ↔ ∀ f ∈ F, Covered E f.1 → Filed E f.1 f.2 := by
  constructor
  · intro h f hf hcovered
    exact h f.1 hcovered f (best_self (.inr hf))
  · intro h text hcovered e hbest
    rcases hbest.mem with he | he
    · exact ⟨e, ⟨he, hbest.isPrefix, fun e' he' => hbest.longest e' (.inl he')⟩, rfl⟩
    · -- the key is at least as long as any of `E`: those are prefixes of it
      have hlong : ∀ e' ∈ E, e'.1 <+: text → e'.1.length ≤ e.1.length := fun e' he' =>
        hbest.longest e' (.inl he')
      obtain ⟨e', he', hp⟩ := hcovered
      have hunder : Covered E e.1 :=
        ⟨e', he', List.prefix_of_prefix_length_le hp hbest.isPrefix (hlong e' he' hp)⟩
      obtain ⟨b, hb, hv⟩ := h e he hunder
      exact ⟨b, hb.extend hbest.isPrefix hlong, hv⟩

end LongestPrefix
