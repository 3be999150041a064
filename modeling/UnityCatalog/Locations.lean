import Mathlib.Data.List.TakeWhile
import Mathlib.Logic.Relation
import UnityCatalog.CreateTable

/-!
# Locations that are compared

`ComparableLocation` is what decides whether a registered table's log is the one this session wrote.
Two changes of a location are meant to make no difference to it: `file:` and slashes before a path,
and slashes behind it. `comparableLocation_iff` says for which paths they make none, and that
nothing else is lost.
-/

namespace UnityCatalog

/-! ## Slashes behind -/

/-- The text without the slashes behind it; one character is left. -/
def trimmed (cs : List Char) : List Char := (popSlashes cs.reverse).reverse

/-- The text with what `ComparableLocation` makes of a `file:` in front. -/
def rooted (cs : List Char) : List Char :=
  if "file:".toList.isPrefixOf cs then '/' :: (cs.drop 5).dropWhile (· = '/') else cs

/-- What locations are compared by: the text with a root, and the slashes at its end taken off. -/
theorem comparableLocation_eq (location : String) :
    comparableLocation location = String.ofList (trimmed (rooted location.toList)) := rfl

/-- Slashes in front of the reversed text are taken off, however many. -/
theorem popSlashes_replicate (k : ℕ) {cs : List Char} (h : cs ≠ []) :
    popSlashes (List.replicate k '/' ++ cs) = popSlashes cs := by
  induction k with
  | zero => rfl
  | succ k ih =>
    obtain ⟨c, rest, hcs⟩ :=
      List.exists_cons_of_ne_nil (List.append_ne_nil_of_right_ne_nil (List.replicate k '/') h)
    rw [List.replicate_succ, List.cons_append, hcs, popSlashes, if_pos rfl, ← hcs, ih]

/-- The taking off stops at any other character. -/
theorem popSlashes_of_ne {c : Char} (h : c ≠ '/') (rest : List Char) : popSlashes (c :: rest) =
    c :: rest := by
  cases rest with
  | nil => rfl
  | cons d rest => rw [popSlashes, if_neg h]

/-- What is popped is slashes. -/
theorem exists_eq_popSlashes (cs : List Char) :
    ∃ k, cs = List.replicate k '/' ++ popSlashes cs := by
  induction cs with
  | nil => exact ⟨0, rfl⟩
  | cons c rest ih =>
    by_cases hc : c = '/'
    · subst hc
      cases rest with
      | nil => exact ⟨0, rfl⟩
      | cons d rest =>
        obtain ⟨k, hk⟩ := ih
        refine ⟨k + 1, ?_⟩
        rw [popSlashes, if_pos rfl, List.replicate_succ, List.cons_append, ← hk]
    · exact ⟨0, (popSlashes_of_ne hc rest).symm⟩

/-- One character is kept, so a text of slashes only is read as the root. -/
theorem popSlashes_ne_nil {cs : List Char} (h : cs ≠ []) : popSlashes cs ≠ [] := by
  induction cs with
  | nil => exact absurd rfl h
  | cons c rest ih =>
    cases rest with
    | nil => exact List.cons_ne_nil _ _
    | cons d rest =>
      rw [popSlashes]
      split
      · exact ih (List.cons_ne_nil _ _)
      · exact List.cons_ne_nil _ _

/-- Slashes at the end count for nothing. -/
theorem trimmed_append_slashes {cs : List Char} (h : cs ≠ []) (k : ℕ) :
    trimmed (cs ++ List.replicate k '/') = trimmed cs := by
  rw [trimmed, List.reverse_append, List.reverse_replicate,
    popSlashes_replicate k (by simpa using h), trimmed]

/-- A text is what is left of it with slashes behind, which is the other direction: nothing else is
taken off. -/
theorem exists_eq_trimmed (cs : List Char) : ∃ k, cs = trimmed cs ++ List.replicate k '/' := by
  obtain ⟨k, hk⟩ := exists_eq_popSlashes cs.reverse
  refine ⟨k, ?_⟩
  have h := congrArg List.reverse hk
  rwa [List.reverse_reverse, List.reverse_append, List.reverse_replicate] at h

/-- Nothing but the empty text is trimmed to the empty text. -/
theorem trimmed_ne_nil {cs : List Char} (h : cs ≠ []) : trimmed cs ≠ [] := by
  rw [trimmed, List.reverse_ne_nil_iff]
  exact popSlashes_ne_nil (List.reverse_ne_nil_iff.2 h)

/-- Trimmed twice is trimmed once. -/
theorem trimmed_trimmed (cs : List Char) : trimmed (trimmed cs) = trimmed cs := by
  by_cases h : cs = []
  · subst h
    rfl
  · obtain ⟨k, hk⟩ := exists_eq_trimmed cs
    have hagain := trimmed_append_slashes (trimmed_ne_nil h) k
    rwa [← hk, eq_comm] at hagain

/-- What stands before the last other character is kept as it is, slashes included. -/
theorem popSlashes_append_cons {c : Char} (hc : c ≠ '/') (cs rest : List Char) :
    popSlashes (cs ++ c :: rest) = popSlashes (cs ++ [c]) ++ rest := by
  induction cs with
  | nil => exact popSlashes_of_ne hc rest
  | cons d cs ih =>
    by_cases hd : d = '/'
    · subst hd
      have hne : ∀ rest, cs ++ c :: rest ≠ [] :=
        fun rest => List.append_ne_nil_of_right_ne_nil _ (List.cons_ne_nil _ _)
      exact (popSlashes_replicate 1 (hne rest)).trans
        (ih.trans (congrArg (· ++ rest) (popSlashes_replicate 1 (hne [])).symm))
    · rw [List.cons_append, popSlashes_of_ne hd, List.cons_append, popSlashes_of_ne hd,
        List.cons_append, List.append_assoc, List.singleton_append]

/-- Up to the last character that is no slash, nothing is trimmed. -/
theorem trimmed_append_cons {c : Char} (hc : c ≠ '/') (cs rest : List Char) :
    trimmed (cs ++ c :: rest) = cs ++ trimmed (c :: rest) := by
  have hpop := popSlashes_append_cons hc rest.reverse cs.reverse
  simp only [trimmed, List.reverse_append, List.reverse_cons, List.append_assoc,
    List.singleton_append, hpop, List.reverse_reverse]

/-- The first character is kept: a root stays a root. -/
theorem trimmed_cons (c : Char) (rest : List Char) :
    ∃ rest', trimmed (c :: rest) = c :: rest' := by
  obtain ⟨k, hk⟩ := exists_eq_trimmed (c :: rest)
  obtain ⟨d, rest', hd⟩ := List.exists_cons_of_ne_nil (trimmed_ne_nil (List.cons_ne_nil c rest))
  rw [hd, List.cons_append] at hk
  rw [hd, ← (List.cons.inj hk).1]
  exact ⟨rest', rfl⟩

/-- Nothing but slashes is one slash. -/
theorem trimmed_replicate (k : ℕ) : trimmed (List.replicate (k + 1) '/') = ['/'] := by
  have h := trimmed_append_slashes (List.cons_ne_nil '/' []) k
  rwa [List.singleton_append, ← List.replicate_succ] at h

/-! ## The two changes -/

/-- So many slashes. -/
def slashes (n : ℕ) : String := String.ofList (List.replicate n '/')

/-- The path, from the root. -/
def absolutePath (path : String) : String :=
  if "/".toList.isPrefixOf path.toList then path else "/" ++ path

/-- What is meant to make no difference. -/
inductive LocationChange : String → String → Prop where
  /-- `file:` and any number of slashes before a path -/
  | file (n : ℕ) (path : String) : LocationChange ("file:" ++ slashes n ++ path) (absolutePath path)
  /-- a slash behind -/
  | slash {location : String} : location ≠ "" → LocationChange location (location ++ "/")

/-- Locations these changes lead from one to the other. -/
def SameLocation : String → String → Prop := Relation.EqvGen LocationChange

/-- A path that begins with two slashes, and is not made of slashes only. -/
def LeadsTwice (path : String) : Prop :=
  "//".toList <+: path.toList ∧ ∃ c ∈ path.toList, c ≠ '/'

/-! ## What they leave -/

/-- A `file:` URL with any number of slashes behind the scheme has the path with one slash. -/
theorem rooted_file (n : ℕ) (path : String) :
    rooted ("file:" ++ slashes n ++ path).toList = '/' :: path.toList.dropWhile (· = '/') := by
  have htext : ("file:" ++ slashes n ++ path).toList =
      "file:".toList ++ (List.replicate n '/' ++ path.toList) := by
    simp [slashes]
  have hslashes : (List.replicate n '/' ++ path.toList).dropWhile (· = '/') =
      path.toList.dropWhile (· = '/') := by
    rw [List.dropWhile_append_of_pos]
    simp
  rw [rooted, htext, if_pos (List.isPrefixOf_iff_prefix.2 (List.prefix_append _ _))]
  exact congrArg _ hslashes

/-- A plain path keeps all the slashes it begins with, as nothing is done to it. -/
theorem rooted_of_slash {cs : List Char} (h : cs.head? = some '/') : rooted cs = cs := by
  cases cs with
  | nil => rfl
  | cons c rest =>
    obtain rfl := Option.some.inj h
    rfl

/-- A text is slashes, or slashes before another character. -/
theorem slashes_or (cs : List Char) : (∃ n, cs = List.replicate n '/') ∨
    ∃ n c rest, cs = List.replicate n '/' ++ c :: rest ∧ c ≠ '/' := by
  induction cs with
  | nil => exact .inl ⟨0, rfl⟩
  | cons d cs ih =>
    by_cases hd : d = '/'
    · subst hd
      obtain ⟨n, rfl⟩ | ⟨n, c, rest, rfl, hc⟩ := ih
      · exact .inl ⟨n + 1, rfl⟩
      · exact .inr ⟨n + 1, c, rest, rfl, hc⟩
    · exact .inr ⟨0, d, cs, rfl, hd⟩

/-- A text starts with a slash if its first character is one. -/
theorem slash_isPrefixOf_iff {cs : List Char} :
    "/".toList.isPrefixOf cs = true ↔ cs.head? = some '/' := by
  cases cs with
  | nil => exact iff_of_false (by decide) (by decide)
  | cons c rest =>
    rw [List.isPrefixOf_iff_prefix, List.head?_cons, Option.some.injEq, eq_comm]
    exact List.cons_prefix_cons.trans (and_iff_left List.nil_prefix)

/-- A path that has a slash in front is absolute as it is. -/
theorem absolutePath_of_slash {path : String} (h : path.toList.head? = some '/') :
    absolutePath path = path :=
  if_pos (slash_isPrefixOf_iff.2 h)

/-- Any other path is made absolute by one. -/
theorem absolutePath_of_not {path : String} (h : path.toList.head? ≠ some '/') :
    (absolutePath path).toList = '/' :: path.toList := by
  rw [absolutePath, if_neg fun hslash => h (slash_isPrefixOf_iff.1 hslash), String.toList_append]
  rfl

/-- An absolute path has a slash in front. -/
theorem head?_absolutePath (path : String) : (absolutePath path).toList.head? = some '/' := by
  by_cases h : path.toList.head? = some '/'
  · rw [absolutePath_of_slash h, h]
  · rw [absolutePath_of_not h]
    rfl

/-- A `file:` URL is compared by its path with one slash in front and none behind, however many
there were. -/
theorem comparableLocation_file (n k : ℕ) (path : String) :
    comparableLocation ("file:" ++ slashes n ++ path ++ slashes k) =
      String.ofList (trimmed ('/' :: path.toList.dropWhile (· = '/'))) := by
  have hpath : "file:" ++ slashes n ++ path ++ slashes k =
      "file:" ++ slashes n ++ (path ++ slashes k) :=
    String.append_assoc ..
  have htail : (path ++ slashes k).toList = path.toList ++ List.replicate k '/' := by simp [slashes]
  rw [comparableLocation_eq, hpath, rooted_file, htail]
  obtain ⟨m, hm⟩ | ⟨m, c, rest, hm, hc⟩ := slashes_or path.toList
  · rw [hm, List.replicate_append_replicate]
    simp
  · have hdrop : ∀ cs : List Char, (List.replicate m '/' ++ c :: cs).dropWhile (· = '/') =
        c :: cs := by
      intro cs
      rw [List.dropWhile_append_of_pos (by simp), List.dropWhile_cons_of_neg (by simpa using hc)]
    rw [hm, List.append_assoc, List.cons_append, hdrop, hdrop]
    exact congrArg String.ofList (trimmed_append_slashes (List.cons_ne_nil '/' (c :: rest)) k)

/-- An absolute path is compared by itself without the slashes behind it. -/
theorem comparableLocation_absolute (j : ℕ) (path : String) :
    comparableLocation (absolutePath path ++ slashes j) =
      String.ofList (trimmed (absolutePath path).toList) := by
  have hhead := head?_absolutePath path
  have htail : (absolutePath path ++ slashes j).toList =
      (absolutePath path).toList ++ List.replicate j '/' := by
    simp [slashes]
  have hne : (absolutePath path).toList ≠ [] := by
    intro h
    rw [h] at hhead
    cases hhead
  rw [comparableLocation_eq, rooted_of_slash, htail, trimmed_append_slashes hne]
  rw [htail, List.head?_append, hhead]
  rfl

/-- A `file:` location and its path compare equal exactly where the path does not lead with two
slashes. -/
theorem comparableLocation_file_eq_iff (n k j : ℕ) (path : String) :
    comparableLocation ("file:" ++ slashes n ++ path ++ slashes k) =
      comparableLocation (absolutePath path ++ slashes j) ↔ ¬ LeadsTwice path := by
  rw [comparableLocation_file, comparableLocation_absolute, String.ofList_inj, LeadsTwice]
  obtain ⟨m, hm⟩ | ⟨m, c, rest, hm, hc⟩ := slashes_or path.toList
  · -- nothing but slashes: one slash on either side
    have hdrop : (List.replicate m '/').dropWhile (· = '/') = [] := by simp
    have hnot : ¬ ∃ c ∈ List.replicate m '/', c ≠ '/' := by simp
    have habsolute : ∃ i, (absolutePath path).toList = List.replicate (i + 1) '/' := by
      cases m with
      | zero =>
        rw [absolutePath_of_not (by rw [hm]; decide), hm]
        exact ⟨0, rfl⟩
      | succ m =>
        rw [absolutePath_of_slash (by rw [hm]; rfl), hm]
        exact ⟨m, rfl⟩
    obtain ⟨i, hi⟩ := habsolute
    rw [hi, hm, hdrop, trimmed_replicate]
    exact iff_of_true rfl fun h => hnot h.2
  · have hdrop : (List.replicate m '/' ++ c :: rest).dropWhile (· = '/') = c :: rest := by
      rw [List.dropWhile_append_of_pos (by simp), List.dropWhile_cons_of_neg (by simpa using hc)]
    have hother : ∃ d ∈ List.replicate m '/' ++ c :: rest, d ≠ '/' := ⟨c, by simp, hc⟩
    -- what decides is whether two slashes lead the path
    have htwice : "//".toList <+: List.replicate m '/' ++ c :: rest ↔ 2 ≤ m := by
      rcases m with _ | _ | m
      · exact iff_of_false (fun h => hc (List.cons_prefix_cons.1 h).1.symm) (by omega)
      · refine iff_of_false (fun h => ?_) (by omega)
        exact hc (List.cons_prefix_cons.1 (List.cons_prefix_cons.1 h).2).1.symm
      · exact iff_of_true (List.prefix_append ['/', '/'] (List.replicate m '/' ++ c :: rest))
          (by omega)
    rw [hm, hdrop, and_iff_left hother, htwice]
    have hone : trimmed ('/' :: c :: rest) = '/' :: trimmed (c :: rest) :=
      trimmed_append_cons hc ['/'] rest
    rw [hone]
    -- an absolute path keeps its slashes, a `file:` URL has one
    have habsolute : ∃ i, (absolutePath path).toList = List.replicate (i + 1) '/' ++ c :: rest ∧
        (i = 0 ↔ m < 2) := by
      cases m with
      | zero =>
        rw [List.replicate_zero, List.nil_append] at hm
        have hhead : path.toList.head? ≠ some '/' := by
          rw [hm]
          exact fun h => hc (Option.some.inj h)
        rw [absolutePath_of_not hhead, hm]
        exact ⟨0, rfl, by omega⟩
      | succ m =>
        rw [absolutePath_of_slash (by rw [hm]; rfl), hm]
        exact ⟨m, rfl, by omega⟩
    obtain ⟨i, hi, hlead⟩ := habsolute
    rw [hi, trimmed_append_cons hc, not_le, ← hlead]
    constructor
    · intro h
      have hlen := congrArg List.length h
      rw [List.length_cons, List.length_append, List.length_replicate] at hlen
      omega
    · rintro rfl
      rfl

/-! ## A normal form -/

/-- A location and the same with slashes behind it are one. -/
theorem sameLocation_slashes {location : String} (h : location ≠ "") (k : ℕ) :
    SameLocation location (location ++ slashes k) := by
  induction k with
  | zero =>
    rw [show location ++ slashes 0 = location from String.append_empty]
    exact .refl _
  | succ k ih =>
    have hnext : location ++ slashes (k + 1) = location ++ slashes k ++ "/" := by
      rw [slashes, List.replicate_succ', String.ofList_append, ← String.append_assoc]
      rfl
    have hne : location ++ slashes k ≠ "" := fun heq => h (String.append_eq_empty_iff.1 heq).1
    rw [hnext]
    exact ih.trans _ _ _ (.rel _ _ (.slash hne))

/-- A location and its trimmed form are one. -/
theorem sameLocation_trimmed (cs : List Char) :
    SameLocation (String.ofList cs) (String.ofList (trimmed cs)) := by
  by_cases h : cs = []
  · subst h
    exact .refl _
  · obtain ⟨k, hk⟩ := exists_eq_trimmed cs
    have hne : String.ofList (trimmed cs) ≠ "" := by
      intro heq
      exact trimmed_ne_nil h (String.ofList_inj.1 heq)
    have hsame := sameLocation_slashes hne k
    rw [slashes, ← String.ofList_append, ← hk] at hsame
    exact hsame.symm

/-- A location and its rooted form are one. -/
theorem sameLocation_rooted (location : String) :
    SameLocation location (String.ofList (rooted location.toList)) := by
  rw [rooted]
  split
  · rename_i hfile
    obtain ⟨cs, hcs⟩ := List.isPrefixOf_iff_prefix.1 hfile
    have hdrop : location.toList.drop 5 = cs := by
      rw [← hcs]
      rfl
    -- the slashes, and the path behind them
    have hsplit : cs =
        List.replicate (cs.takeWhile (· = '/')).length '/' ++ cs.dropWhile (· = '/') := by
      have hslash : cs.takeWhile (· = '/') = List.replicate (cs.takeWhile (· = '/')).length '/' :=
        List.eq_replicate_of_mem fun c hc => by simpa using List.mem_takeWhile_imp hc
      rw [← hslash, List.takeWhile_append_dropWhile]
    have hlocation : location = "file:" ++ slashes (cs.takeWhile (· = '/')).length ++
        String.ofList (cs.dropWhile (· = '/')) := by
      have htext : (String.ofList cs).toList = cs := String.toList_ofList
      apply String.toList_inj.1
      rw [String.append_assoc, String.toList_append, slashes, ← String.ofList_append, ← hsplit,
        htext, hcs]
    have hhead : (String.ofList (cs.dropWhile (· = '/'))).toList.head? ≠ some '/' := by
      intro h
      rw [String.toList_ofList] at h
      have hnot := List.head?_dropWhile_not (p := (· = '/')) cs
      rw [h] at hnot
      exact absurd hnot (by decide)
    have hpath : absolutePath (String.ofList (cs.dropWhile (· = '/'))) =
        String.ofList ('/' :: cs.dropWhile (· = '/')) := by
      apply String.toList_inj.1
      rw [absolutePath_of_not hhead, String.toList_ofList, String.toList_ofList]
    have hchange :=
      LocationChange.file (cs.takeWhile (· = '/')).length (String.ofList (cs.dropWhile (· = '/')))
    rw [← hlocation, hpath] at hchange
    rw [hdrop]
    exact .rel _ _ hchange
  · rw [String.ofList_toList]
    exact .refl _

/-- Each location is the same as what `ComparableLocation` makes of it. -/
theorem sameLocation_comparableLocation (location : String) :
    SameLocation location (comparableLocation location) :=
  (sameLocation_rooted location).trans _ _ _ (sameLocation_trimmed _)

/-- What is compared is compared as itself: to normalize twice is to normalize once. -/
theorem comparableLocation_idem (location : String) :
    comparableLocation (comparableLocation location) = comparableLocation location := by
  have hrooted : rooted (trimmed (rooted location.toList)) = trimmed (rooted location.toList) := by
    by_cases hfile : "file:".toList.isPrefixOf location.toList
    · have hslash : rooted location.toList = '/' :: (location.toList.drop 5).dropWhile (· = '/') :=
        if_pos hfile
      obtain ⟨rest, hrest⟩ := trimmed_cons '/' ((location.toList.drop 5).dropWhile (· = '/'))
      rw [hslash, hrest]
      exact rooted_of_slash rfl
    · have hself : rooted location.toList = location.toList := if_neg hfile
      obtain ⟨k, hk⟩ := exists_eq_trimmed location.toList
      rw [hself]
      refine if_neg fun hprefixed => hfile ?_
      rw [List.isPrefixOf_iff_prefix] at hprefixed ⊢
      rw [hk]
      exact hprefixed.trans (List.prefix_append _ _)
  rw [comparableLocation_eq location, comparableLocation_eq, String.toList_ofList, hrooted,
    trimmed_trimmed]

/-- Normalizing keeps the first character of a plain path. -/
theorem comparableLocation_head (location : String) (h : ¬ "file:".toList <+: location.toList) :
    (comparableLocation location).toList.head? = location.toList.head? := by
  have hself : rooted location.toList = location.toList :=
    if_neg fun hfile => h (List.isPrefixOf_iff_prefix.1 hfile)
  rw [comparableLocation_eq, String.toList_ofList, hself]
  cases location.toList with
  | nil => rfl
  | cons c rest =>
    obtain ⟨rest', hrest⟩ := trimmed_cons c rest
    rw [hrest, List.head?_cons, List.head?_cons]

/-- An absolute path is its result, and slashes. -/
theorem exists_eq_comparableLocation {path : String} (h : path.toList.head? = some '/') :
    ∃ k, path = comparableLocation path ++ slashes k := by
  obtain ⟨k, hk⟩ := exists_eq_trimmed path.toList
  refine ⟨k, String.toList_inj.1 ?_⟩
  rw [comparableLocation_eq, rooted_of_slash h, slashes, ← String.ofList_append, ← hk,
    String.ofList_toList]

/-- **Location comparison is a normal form**, but for the slashes a path begins with: it makes
`file:` and slashes before a path, and slashes behind, equal to the path exactly where that does not
begin with two slashes. It is idempotent, and what it makes equal is one location: paths it makes
equal differ by slashes behind them, and no other URI equals a path. -/
theorem comparableLocation_iff (path : String) :
    ((∀ n k j, comparableLocation ("file:" ++ slashes n ++ path ++ slashes k) =
      comparableLocation (absolutePath path ++ slashes j)) ↔ ¬ LeadsTwice path) ∧
    (∀ location, comparableLocation (comparableLocation location) = comparableLocation location) ∧
    (∀ location location', comparableLocation location = comparableLocation location' →
      SameLocation location location') ∧
    (∀ path' path'' : String, path'.toList.head? = some '/' → path''.toList.head? = some '/' →
      comparableLocation path' = comparableLocation path'' →
        ∃ stem n k, path' = stem ++ slashes n ∧ path'' = stem ++ slashes k) ∧
    ∀ location, location.toList.head? ≠ some '/' → ¬ "file:".toList <+: location.toList →
      comparableLocation location ≠ comparableLocation (absolutePath path) := by
  refine ⟨?_, comparableLocation_idem, ?_, ?_, ?_⟩
  · exact ⟨fun h => (comparableLocation_file_eq_iff 0 0 0 path).1 (h 0 0 0),
      fun h n k j => (comparableLocation_file_eq_iff n k j path).2 h⟩
  · intro location location' h
    have hsame := sameLocation_comparableLocation location
    rw [h] at hsame
    exact hsame.trans _ _ _ (sameLocation_comparableLocation location').symm
  · intro path' path'' h' h'' heq
    obtain ⟨n, hn⟩ := exists_eq_comparableLocation h'
    obtain ⟨k, hk⟩ := exists_eq_comparableLocation h''
    rw [heq] at hn
    exact ⟨_, n, k, hn, hk⟩
  · intro location hhead hfile heq
    have hpath : ¬ "file:".toList <+: (absolutePath path).toList := by
      intro hprefixed
      obtain ⟨rest, hrest⟩ := hprefixed
      have hslash := head?_absolutePath path
      rw [← hrest] at hslash
      exact absurd (Option.some.inj hslash) (by decide)
    apply hhead
    rw [← comparableLocation_head location hfile, heq, comparableLocation_head _ hpath,
      head?_absolutePath]

/-- The two slashes a path begins with are kept, and collapsed where `file:` stands before them. -/
theorem two_slashes_are_kept :
    comparableLocation "file:////t" = "/t" ∧ comparableLocation "//t" = "//t" ∧
      ¬ ∀ n k j, comparableLocation ("file:" ++ slashes n ++ "//t" ++ slashes k) =
        comparableLocation (absolutePath "//t" ++ slashes j) := by
  refine ⟨by decide +kernel, by decide +kernel, fun h => ?_⟩
  have hne : comparableLocation ("file:" ++ slashes 2 ++ "//t" ++ slashes 0) ≠
      comparableLocation (absolutePath "//t" ++ slashes 0) := by
    decide +kernel
  exact hne (h 2 0 0)

end UnityCatalog
