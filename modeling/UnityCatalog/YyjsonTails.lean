import UnityCatalog.YyjsonText

/-!
# yyjson: a text with more behind it

A library module. What the reader makes of the front of a text rests on that front alone: it reads
the same with more behind it, and no NUL stands in what it reads. So white space may follow a
document, and a text with a NUL in it is none.

Proof shape: `Reading` is shown of each part of the reader, from the parts it calls; the values then
go by one induction on the fuel.
-/

namespace Yyjson

/-- The text `rest` is what is left of `cs`, and no NUL stands before it. -/
def Leaves (cs rest : List Char) : Prop := ∃ front, cs = front ++ rest ∧ '\x00' ∉ front

/-- A reader that reads nothing leaves all. -/
theorem Leaves.refl (cs : List Char) : Leaves cs cs := ⟨[], rfl, List.not_mem_nil⟩

/-- Readers one after the other leave what the last one leaves. -/
theorem Leaves.trans {cs middle rest : List Char} (h : Leaves cs middle) (h' : Leaves middle rest) :
    Leaves cs rest := by
  obtain ⟨front, rfl, hfront⟩ := h
  obtain ⟨back, rfl, hback⟩ := h'
  exact ⟨front ++ back, (List.append_assoc _ _ _).symm, by simp [hfront, hback]⟩

/-- One character may be read off, if it is no NUL. -/
theorem Leaves.cons {c : Char} (hc : c ≠ '\x00') {cs rest : List Char} (h : Leaves cs rest) :
    Leaves (c :: cs) rest := by
  obtain ⟨front, rfl, hfront⟩ := h
  exact ⟨c :: front, rfl, by simp [hfront, hc.symm]⟩

/-- A number is not read on into the text. -/
def Stops (tail : List Char) : Prop :=
  ∀ c ∈ tail.head?, c.isDigit = false ∧ c ≠ '.' ∧ c ≠ 'e' ∧ c ≠ 'E'

/-- What `rd` reads has no NUL, and `rd'` reads the same with more behind it. -/
def Reading {α : Type} (rd rd' : List Char → Option (α × List Char)) : Prop :=
  ∀ ⦃cs a rest⦄, rd cs = some (a, rest) →
    Leaves cs rest ∧ ∀ tail, Stops tail → rd' (cs ++ tail) = some (a, rest ++ tail)

/-! ## Strings -/

/-- NUL is no hexadecimal digit. -/
theorem hexDigit_ne_nul {c : Char} {n : ℕ} (h : hexDigit c = some n) : c ≠ '\x00' := by
  rintro rfl
  cases h

/-- The four digits of an escape are read from the front alone. -/
theorem reading_readHex4 : Reading readHex4 readHex4 := by
  intro cs v rest h
  obtain - | ⟨a, - | ⟨b, - | ⟨c, - | ⟨d, cs⟩⟩⟩⟩ := cs
  all_goals try cases h
  simp only [readHex4, Option.bind_eq_bind, Option.bind_eq_some_iff] at h
  obtain ⟨x, ha, y, hb, z, hc, w, hd, h⟩ := h
  obtain ⟨rfl, rfl⟩ := Prod.ext_iff.1 (Option.some.inj h)
  constructor
  · exact (((Leaves.refl _).cons (hexDigit_ne_nul hd)).cons (hexDigit_ne_nul hc)).cons
      (hexDigit_ne_nul hb) |>.cons (hexDigit_ne_nul ha)
  · intro tail _
    simp [readHex4, ha, hb, hc, hd]

/-- An escape by code points reads one group of digits or, for a surrogate, two. -/
theorem reading_readUnicode : Reading readUnicode readUnicode := by
  intro cs c rest h
  rw [readUnicode, Option.bind_eq_bind, Option.bind_eq_some_iff] at h
  obtain ⟨⟨hi, middle⟩, hhi, h⟩ := h
  obtain ⟨hleaves, htail⟩ := reading_readHex4 hhi
  simp only at h
  split at h
  · -- a surrogate pair
    rename_i hpair
    split at h
    · rename_i middle'
      rw [Option.bind_eq_some_iff] at h
      obtain ⟨⟨lo, rest'⟩, hlo, h⟩ := h
      obtain ⟨hleaves', htail'⟩ := reading_readHex4 hlo
      simp only at h
      split at h
      · rename_i hlow
        obtain ⟨rfl, rfl⟩ := Prod.ext_iff.1 (Option.some.inj h)
        refine ⟨hleaves.trans ((hleaves'.cons (by decide)).cons (by decide)), fun tail hstops => ?_⟩
        simp [readUnicode, htail tail hstops, hpair, htail' tail hstops, hlow]
      · cases h
    · cases h
  · rename_i hpair
    split at h
    · cases h
    · rename_i hlow
      obtain ⟨rfl, rfl⟩ := Prod.ext_iff.1 (Option.some.inj h)
      refine ⟨hleaves, fun tail hstops => ?_⟩
      simp only [readUnicode, htail tail hstops, Option.bind_eq_bind, Option.bind_some]
      rw [if_neg hpair, if_neg hlow]
      rfl

/-- An escape is told by the character behind its backslash. -/
theorem reading_readEscape : Reading readEscape readEscape := by
  intro cs c rest h
  unfold readEscape at h
  split at h
  case h_9 cs =>
    obtain ⟨hleaves, htail⟩ := reading_readUnicode h
    exact ⟨hleaves.cons (by decide), htail⟩
  case h_10 => cases h
  all_goals
    obtain ⟨rfl, rfl⟩ := Prod.ext_iff.1 (Option.some.inj h)
    exact ⟨(Leaves.refl _).cons (by decide), fun tail _ => rfl⟩

/-- A string is read with the fuel there is, and with more. -/
theorem reading_readChars {fuel fuel' : ℕ} (hfuel : fuel ≤ fuel') :
    Reading (readChars fuel) (readChars fuel') := by
  induction fuel generalizing fuel' with
  | zero =>
    intro cs a rest h
    cases h
  | succ fuel ih =>
    obtain ⟨fuel', rfl⟩ := Nat.exists_eq_succ_of_ne_zero (by omega : fuel' ≠ 0)
    have ih := ih (Nat.le_of_succ_le_succ hfuel)
    intro cs a rest h
    cases cs with
    | nil => cases h
    | cons c cs =>
      rw [readChars] at h
      by_cases hquote : c = '"'
      · rw [if_pos hquote] at h
        obtain ⟨rfl, rfl⟩ := Prod.ext_iff.1 (Option.some.inj h)
        subst hquote
        exact ⟨(Leaves.refl _).cons (by decide), fun tail _ => rfl⟩
      rw [if_neg hquote] at h
      by_cases hback : c = '\\'
      · rw [if_pos hback, Option.bind_eq_bind, Option.bind_eq_some_iff] at h
        obtain ⟨⟨e, middle⟩, hescape, h⟩ := h
        rw [Option.bind_eq_bind, Option.bind_eq_some_iff] at h
        obtain ⟨⟨es, rest'⟩, hchars, h⟩ := h
        obtain ⟨rfl, rfl⟩ := Prod.ext_iff.1 (Option.some.inj h)
        obtain ⟨hleaves, htail⟩ := reading_readEscape hescape
        obtain ⟨hleaves', htail'⟩ := ih hchars
        subst hback
        refine ⟨(hleaves.trans hleaves').cons (by decide), fun tail hstops => ?_⟩
        rw [List.cons_append, readChars, if_neg hquote, if_pos rfl]
        simp [htail tail hstops, htail' tail hstops]
      rw [if_neg hback] at h
      by_cases hctl : c.toNat < 0x20
      · rw [if_pos hctl] at h
        cases h
      rw [if_neg hctl, Option.bind_eq_bind, Option.bind_eq_some_iff] at h
      obtain ⟨⟨es, rest'⟩, hchars, h⟩ := h
      obtain ⟨rfl, rfl⟩ := Prod.ext_iff.1 (Option.some.inj h)
      obtain ⟨hleaves, htail⟩ := ih hchars
      constructor
      · refine hleaves.cons ?_
        rintro rfl
        exact hctl (by decide)
      · intro tail hstops
        rw [List.cons_append, readChars, if_neg hquote, if_neg hback, if_neg hctl]
        simp [htail tail hstops]

/-! ## Numbers -/

/-- Digits, with more behind them. -/
theorem readDigits_tail (cs : List Char) {tail : List Char} (hstops : Stops tail) :
    readDigits (cs ++ tail) = ((readDigits cs).1, (readDigits cs).2 ++ tail) := by
  simp only [readDigits, List.span_eq_takeWhile_dropWhile]
  induction cs with
  | nil =>
    cases tail with
    | nil => rfl
    | cons c tail => simp [(hstops c rfl).1]
  | cons c cs ih =>
    by_cases hc : c.isDigit = true
    · simpa [hc] using ih
    · simp [hc]

/-- The digits are taken off the front, and none of them is a NUL. -/
theorem leaves_readDigits (cs : List Char) : Leaves cs (readDigits cs).2 := by
  rw [readDigits, List.span_eq_takeWhile_dropWhile]
  refine ⟨cs.takeWhile Char.isDigit, List.takeWhile_append_dropWhile.symm, fun h => ?_⟩
  exact absurd (List.mem_takeWhile_imp h) (by decide)

/-- A fraction is read by its point; behind a text that stops a number there is none. -/
theorem reading_readFraction : Reading readFraction readFraction := by
  intro cs a rest h
  by_cases hdot : ∃ digits, cs = '.' :: digits
  · obtain ⟨digits, rfl⟩ := hdot
    have hread : ∀ cs, readFraction ('.' :: cs) =
        if (readDigits cs).1 =
          [] then none else some (some (readDigits cs).1, (readDigits cs).2) := by
      intro cs
      rw [readFraction]
      cases (readDigits cs) with
      | mk ds rest => cases ds <;> rfl
    rw [hread] at h
    split at h
    · cases h
    · rename_i hne
      obtain ⟨rfl, rfl⟩ := Prod.ext_iff.1 (Option.some.inj h)
      refine ⟨(leaves_readDigits _).cons (by decide), fun tail hstops => ?_⟩
      rw [List.cons_append, hread, readDigits_tail _ hstops]
      exact if_neg hne
  · have hread : ∀ cs : List Char, (∀ digits, cs ≠ '.' :: digits) →
        readFraction cs = some (none, cs) := by
      intro cs hcs
      rw [readFraction]
      exact hcs
    have hno : ∀ digits, cs ≠ '.' :: digits := fun digits hcs => hdot ⟨digits, hcs⟩
    rw [hread cs hno] at h
    obtain ⟨rfl, rfl⟩ := Prod.ext_iff.1 (Option.some.inj h)
    refine ⟨Leaves.refl _, fun tail hstops => hread _ fun digits hcs => ?_⟩
    cases cs with
    | nil =>
      have hhead : '.' ∈ tail.head? := by
        rw [List.nil_append] at hcs
        rw [hcs]
        rfl
      exact (hstops _ hhead).2.1 rfl
    | cons c cs => exact hno cs (by rw [(List.cons.inj hcs).1])

/-- The sign of an exponent, and what is behind it. -/
def expSign : List Char → Bool × List Char
  | '-' :: rest => (true, rest)
  | '+' :: rest => (false, rest)
  | rest => (false, rest)

/-- The sign of an exponent is one character or none. -/
theorem leaves_expSign (cs : List Char) : Leaves cs (expSign cs).2 := by
  unfold expSign
  split
  · exact (Leaves.refl _).cons (by decide)
  · exact (Leaves.refl _).cons (by decide)
  · exact Leaves.refl _

/-- The sign is in front of a digit, so it is not the tail's. -/
theorem expSign_tail {cs : List Char} (h : (readDigits (expSign cs).2).1 ≠ []) (tail : List Char) :
    expSign (cs ++ tail) = ((expSign cs).1, (expSign cs).2 ++ tail) := by
  cases cs with
  | nil => exact absurd rfl h
  | cons c cs =>
    by_cases hminus : c = '-'
    · rw [hminus]
      rfl
    by_cases hplus : c = '+'
    · rw [hplus]
      rfl
    have hnone : ∀ cs, expSign (c :: cs) = (false, c :: cs) := by
      intro cs
      rw [expSign]
      · exact fun rest hcs => hminus (List.cons.inj hcs).1
      · exact fun rest hcs => hplus (List.cons.inj hcs).1
    rw [List.cons_append, hnone, hnone]
    rfl

/-- An exponent of these digits: there has to be one. -/
def exponentOf (neg : Bool) : List Char × List Char → Option (Option (Bool × List Char) × List Char)
  | ([], _) => none
  | (ds, rest) => some (some (neg, ds), rest)

/-- Where an exponent starts, there must be digits behind its sign. -/
theorem readExponent_cons {c : Char} (hc : c = 'e' ∨ c = 'E') (cs : List Char) :
    readExponent (c :: cs) =
      if (readDigits (expSign cs).2).1 = [] then none
      else some (some ((expSign cs).1, (readDigits (expSign cs).2).1),
        (readDigits (expSign cs).2).2) := by
  have hread : readExponent (c :: cs) = if c = 'e' ∨ c = 'E' then
      exponentOf (expSign cs).1 (readDigits (expSign cs).2)
      else some (none, c :: cs) := rfl
  rw [hread, if_pos hc]
  cases readDigits (expSign cs).2 with
  | mk ds rest => cases ds <;> rfl

/-- Where none starts, nothing is read. -/
theorem readExponent_other {c : Char} (hc : ¬ (c = 'e' ∨ c = 'E')) (cs : List Char) :
    readExponent (c :: cs) = some (none, c :: cs) := by
  unfold readExponent
  exact if_neg hc

/-- An exponent is read to the end of its digits, which more text does not move if it stops a
number. -/
theorem reading_readExponent : Reading readExponent readExponent := by
  intro cs a rest h
  cases cs with
  | nil =>
    obtain ⟨rfl, rfl⟩ := Prod.ext_iff.1 (Option.some.inj h)
    refine ⟨Leaves.refl _, fun tail hstops => ?_⟩
    cases tail with
    | nil => rfl
    | cons c tail =>
      obtain ⟨-, -, hlower, hupper⟩ := hstops c rfl
      exact readExponent_other (not_or.2 ⟨hlower, hupper⟩) tail
  | cons c cs =>
    by_cases hc : c = 'e' ∨ c = 'E'
    · rw [readExponent_cons hc] at h
      split at h
      · cases h
      · rename_i hne
        obtain ⟨rfl, rfl⟩ := Prod.ext_iff.1 (Option.some.inj h)
        have hnul : c ≠ '\x00' := by
          obtain rfl | rfl := hc <;> decide
        refine ⟨((leaves_expSign cs).trans (leaves_readDigits _)).cons hnul, fun tail hstops => ?_⟩
        rw [List.cons_append, readExponent_cons hc, expSign_tail hne, readDigits_tail _ hstops]
        exact if_neg hne
    · rw [readExponent_other hc] at h
      obtain ⟨rfl, rfl⟩ := Prod.ext_iff.1 (Option.some.inj h)
      exact ⟨Leaves.refl _, fun tail _ => readExponent_other hc (cs ++ tail)⟩

/-- A number behind its sign. -/
def readUnsigned (neg : Bool) (cs : List Char) : Option (Num × List Char) := do
  let (int, cs) := readDigits cs
  if int = [] ∨ (int.head? = some '0' ∧ int.length ≠ 1) then none
  else
    let (frac, cs) ← readFraction cs
    let (exp, cs) ← readExponent cs
    let n ← if frac.isNone ∧ exp.isNone then intNum neg int
      else realNum neg int (frac.getD []) exp
    return (n, cs)

/-- A number without its sign, in the order the reader goes: digits, fraction, exponent, and what
they make. -/
theorem readUnsigned_eq (neg : Bool) (cs : List Char) :
    readUnsigned neg cs =
      if (readDigits cs).1 = [] ∨
        ((readDigits cs).1.head? = some '0' ∧ (readDigits cs).1.length ≠ 1) then none
      else (readFraction (readDigits cs).2).bind fun p => (readExponent p.2).bind fun q =>
        (if p.1.isNone ∧ q.1.isNone then intNum neg (readDigits cs).1
          else realNum neg (readDigits cs).1 (p.1.getD []) q.1).map (·, q.2) := by
  rw [readUnsigned]
  refine if_congr Iff.rfl rfl ?_
  refine congrArg (readFraction _).bind (funext fun p =>
    congrArg (readExponent _).bind (funext fun q => ?_))
  obtain ⟨exp, rest⟩ := q
  rw [Option.map_eq_bind]
  by_cases hint : p.1.isNone = true ∧ exp.isNone = true
  · rw [if_pos hint]
    exact if_pos hint
  · rw [if_neg hint]
    exact if_neg hint

/-- A sign is taken off in front. -/
theorem readNumber_minus (cs : List Char) : readNumber ('-' :: cs) = readUnsigned true cs := by
  rw [readNumber]
  rfl

/-- Without a sign the digits are read at once. -/
theorem readNumber_digits {cs : List Char} (h : ∀ rest, cs ≠ '-' :: rest) :
    readNumber cs = readUnsigned false cs := by
  rw [readNumber]
  · rfl
  · exact h

/-- A number is read up to where its last part ends, whatever stops it there. -/
theorem reading_readUnsigned (neg : Bool) : Reading (readUnsigned neg) (readUnsigned neg) := by
  intro cs n rest h
  rw [readUnsigned_eq] at h
  split at h
  · cases h
  · rename_i hdigits
    rw [Option.bind_eq_some_iff] at h
    obtain ⟨⟨frac, middle⟩, hfrac, h⟩ := h
    rw [Option.bind_eq_some_iff] at h
    obtain ⟨⟨exp, rest'⟩, hexp, h⟩ := h
    rw [Option.map_eq_some_iff] at h
    obtain ⟨n', hn, h⟩ := h
    obtain ⟨rfl, rfl⟩ := Prod.ext_iff.1 h
    obtain ⟨hleaves, htail⟩ := reading_readFraction hfrac
    obtain ⟨hleaves', htail'⟩ := reading_readExponent hexp
    refine ⟨((leaves_readDigits cs).trans hleaves).trans hleaves', fun tail hstops => ?_⟩
    rw [readUnsigned_eq, readDigits_tail _ hstops, if_neg hdigits]
    simp only [htail tail hstops, htail' tail hstops, Option.bind_some, hn, Option.map_some]

/-- The same with a sign. -/
theorem reading_readNumber : Reading readNumber readNumber := by
  intro cs n rest h
  by_cases hminus : ∃ digits, cs = '-' :: digits
  · obtain ⟨digits, rfl⟩ := hminus
    rw [readNumber_minus] at h
    obtain ⟨hleaves, htail⟩ := reading_readUnsigned true h
    refine ⟨hleaves.cons (by decide), fun tail hstops => ?_⟩
    rw [List.cons_append, readNumber_minus]
    exact htail tail hstops
  · have hno : ∀ digits, cs ≠ '-' :: digits := fun digits hcs => hminus ⟨digits, hcs⟩
    rw [readNumber_digits hno] at h
    obtain ⟨hleaves, htail⟩ := reading_readUnsigned false h
    refine ⟨hleaves, fun tail hstops => ?_⟩
    rw [readNumber_digits, htail tail hstops]
    intro digits hcs
    cases cs with
    | nil => cases h
    | cons c cs => exact hno cs (by rw [(List.cons.inj hcs).1])

/-! ## Values -/

/-- White space, with more behind it: it ends where it did. -/
theorem skipSpace_tail {cs rest : List Char} {c : Char} (h : skipSpace cs = c :: rest)
    (tail : List Char) :
    skipSpace (cs ++ tail) = c :: (rest ++ tail) := by
  rw [skipSpace, List.dropWhile_append, ← skipSpace, h]
  rfl

/-- Space is skipped, and NUL is no space. -/
theorem leaves_skipSpace (cs : List Char) : Leaves cs (skipSpace cs) := by
  refine ⟨cs.takeWhile isSpace, List.takeWhile_append_dropWhile.symm, fun h => ?_⟩
  exact absurd (List.mem_takeWhile_imp h) (by decide)

/-- White space that does not end the text. -/
theorem skipSpace_tail_of_ne_nil {cs : List Char} (h : skipSpace cs ≠ []) (tail : List Char) :
    skipSpace (cs ++ tail) = skipSpace cs ++ tail := by
  cases hskip : skipSpace cs with
  | nil => exact absurd hskip h
  | cons c rest => exact skipSpace_tail hskip tail

/-- What is left behind a word that stands behind white space. -/
theorem leaves_of_skipSpace (word : List Char) {cs rest : List Char}
    (h : skipSpace cs = word ++ rest) (hword : '\x00' ∉ word) : Leaves cs rest := by
  have hskip := leaves_skipSpace cs
  rw [h] at hskip
  exact hskip.trans ⟨word, rfl, hword⟩

/-- A bracket is not closed at once, and not with more behind it. -/
theorem skipSpace_tail_ne {c : Char} {cs : List Char} (hne : skipSpace cs ≠ [])
    (h : ∀ rest, skipSpace cs ≠ c :: rest) (tail rest : List Char) :
      skipSpace (cs ++ tail) ≠ c :: rest := by
  cases hskip : skipSpace cs with
  | nil => exact absurd hskip hne
  | cons d middle =>
    rw [skipSpace_tail hskip]
    intro heq
    exact h middle (by rw [hskip, (List.cons.inj heq).1])

/-- An array that ends in the middle is no array. -/
theorem readItems_nil (fuel : ℕ) : readItems fuel [] = none := by
  cases fuel with
  | zero => rfl
  | succ fuel => cases fuel <;> rfl

/-- An object that ends in the middle is no object. -/
theorem readMembers_nil (fuel : ℕ) : readMembers fuel [] = none := by
  cases fuel <;> rfl

section

variable {fuel fuel' : ℕ}

section

variable {cs middle rest : List Char}

/-- A string is read from its opening quote to its closing one. -/
theorem reading_string (hfuel : fuel ≤ fuel') (hskip : skipSpace cs = '"' :: middle)
    {es : List Char} (hchars : readChars (fuel + 1) middle = some (es, rest)) :
    Leaves cs rest ∧ ∀ tail, Stops tail →
      readValue (fuel' + 1) (cs ++ tail) = some (.str (String.ofList es), rest ++ tail) := by
  obtain ⟨hleaves, htail⟩ := reading_readChars (Nat.succ_le_succ hfuel) hchars
  refine ⟨(leaves_of_skipSpace ['"'] hskip (by decide)).trans hleaves, fun tail hstops => ?_⟩
  rw [readValue, skipSpace_tail hskip]
  simp only [htail tail hstops]
  rfl

/-- An array without items ends at its second bracket. -/
theorem reading_emptyArray (hskip : skipSpace cs = '[' :: middle)
    (hclose : skipSpace middle = ']' :: rest) :
    Leaves cs rest ∧ ∀ tail, Stops tail →
      readValue (fuel' + 1) (cs ++ tail) = some (.arr [], rest ++ tail) := by
  refine ⟨(leaves_of_skipSpace ['['] hskip (by decide)).trans
    (leaves_of_skipSpace [']'] hclose (by decide)), fun tail _ => ?_⟩
  rw [readValue, skipSpace_tail hskip]
  simp only [skipSpace_tail hclose]

/-- An array with items is read up to where its items end: what comes behind its first bracket is
no closing one, and more text behind it does not make it one. -/
theorem reading_array (hitems : Reading (readItems fuel) (readItems fuel'))
    (hskip : skipSpace cs = '[' :: middle) (hopen : ∀ tail, skipSpace middle = ']' :: tail → False)
    {vs : List Val} (hread : readItems fuel (skipSpace middle) = some (vs, rest)) :
    Leaves cs rest ∧ ∀ tail, Stops tail →
      readValue (fuel' + 1) (cs ++ tail) = some (.arr vs, rest ++ tail) := by
  obtain ⟨hleaves, htail⟩ := hitems hread
  have hne : skipSpace middle ≠ [] := by
    intro hnil
    rw [hnil, readItems_nil] at hread
    cases hread
  have hbracket : Leaves cs middle := leaves_of_skipSpace ['['] hskip (by decide)
  refine ⟨(hbracket.trans (leaves_skipSpace middle)).trans hleaves, fun tail hstops => ?_⟩
  rw [← readValue_skipSpace, skipSpace_tail hskip,
    readValue_array (skipSpace_tail_ne hne hopen tail), ← readItems_skipSpace,
    skipSpace_tail_of_ne_nil hne, htail tail hstops]
  rfl

/-- An object without members ends at its second brace. -/
theorem reading_emptyObject (hskip : skipSpace cs = '{' :: middle)
    (hclose : skipSpace middle = '}' :: rest) :
    Leaves cs rest ∧ ∀ tail, Stops tail →
      readValue (fuel' + 1) (cs ++ tail) = some (.obj [], rest ++ tail) := by
  refine ⟨(leaves_of_skipSpace ['{'] hskip (by decide)).trans
    (leaves_of_skipSpace ['}'] hclose (by decide)), fun tail _ => ?_⟩
  rw [readValue, skipSpace_tail hskip]
  simp only [skipSpace_tail hclose]

/-- An object with members is read up to where its members end. -/
theorem reading_object (hmembers : Reading (readMembers fuel) (readMembers fuel'))
    (hskip : skipSpace cs = '{' :: middle) (hopen : ∀ tail, skipSpace middle = '}' :: tail → False)
    {ms : List (String × Val)} (hread : readMembers fuel (skipSpace middle) = some (ms, rest)) :
    Leaves cs rest ∧ ∀ tail, Stops tail →
      readValue (fuel' + 1) (cs ++ tail) = some (.obj ms, rest ++ tail) := by
  obtain ⟨hleaves, htail⟩ := hmembers hread
  have hne : skipSpace middle ≠ [] := by
    intro hnil
    rw [hnil, readMembers_nil] at hread
    cases hread
  have hbrace : Leaves cs middle := leaves_of_skipSpace ['{'] hskip (by decide)
  refine ⟨(hbrace.trans (leaves_skipSpace middle)).trans hleaves, fun tail hstops => ?_⟩
  rw [← readValue_skipSpace, skipSpace_tail hskip,
    readValue_object (skipSpace_tail_ne hne hopen tail), ← readMembers_skipSpace,
    skipSpace_tail_of_ne_nil hne, htail tail hstops]
  rfl

/-- A number is read up to what stops it. -/
theorem reading_number {n : Num} (hnum : readNumber (skipSpace cs) = some (n, rest)) :
    Leaves cs rest ∧ ∀ tail, Stops tail →
      readValue (fuel' + 1) (cs ++ tail) = some (.num n, rest ++ tail) := by
  obtain ⟨c, middle, hskip, hc⟩ := head_of_readNumber hnum
  obtain ⟨hleaves, htail⟩ := reading_readNumber hnum
  refine ⟨(leaves_skipSpace cs).trans hleaves, fun tail hstops => ?_⟩
  rw [readValue_number (skipSpace_tail hskip tail) hc, ← List.cons_append, ← hskip,
    htail tail hstops]
  rfl

end

/-- A value is read from the front alone if its parts are, with fuel for one more level. -/
theorem reading_readValue_succ (hfuel : fuel ≤ fuel')
    (hitems : Reading (readItems fuel) (readItems fuel'))
    (hmembers : Reading (readMembers fuel) (readMembers fuel')) :
    Reading (readValue (fuel + 1)) (readValue (fuel' + 1)) := by
  intro cs v rest h
  rw [readValue] at h
  split at h
  case h_1 hskip =>
    obtain ⟨rfl, rfl⟩ := Prod.ext_iff.1 (Option.some.inj h)
    refine ⟨leaves_of_skipSpace "null".toList hskip (by decide), fun tail _ => ?_⟩
    rw [readValue, skipSpace_tail hskip]
    rfl
  case h_2 hskip =>
    obtain ⟨rfl, rfl⟩ := Prod.ext_iff.1 (Option.some.inj h)
    refine ⟨leaves_of_skipSpace "true".toList hskip (by decide), fun tail _ => ?_⟩
    rw [readValue, skipSpace_tail hskip]
    rfl
  case h_3 hskip =>
    obtain ⟨rfl, rfl⟩ := Prod.ext_iff.1 (Option.some.inj h)
    refine ⟨leaves_of_skipSpace "false".toList hskip (by decide), fun tail _ => ?_⟩
    rw [readValue, skipSpace_tail hskip]
    rfl
  case h_4 middle hskip =>
    rw [Option.bind_eq_bind, Option.bind_eq_some_iff] at h
    obtain ⟨⟨es, rest'⟩, hchars, h⟩ := h
    obtain ⟨rfl, rfl⟩ := Prod.ext_iff.1 (Option.some.inj h)
    exact reading_string hfuel hskip hchars
  case h_5 middle hskip =>
    split at h
    · rename_i hclose
      obtain ⟨rfl, rfl⟩ := Prod.ext_iff.1 (Option.some.inj h)
      exact reading_emptyArray hskip hclose
    · rename_i hopen
      rw [Option.bind_eq_bind, Option.bind_eq_some_iff] at h
      obtain ⟨⟨vs, rest'⟩, hread, h⟩ := h
      obtain ⟨rfl, rfl⟩ := Prod.ext_iff.1 (Option.some.inj h)
      exact reading_array hitems hskip hopen hread
  case h_6 middle hskip =>
    split at h
    · rename_i hclose
      obtain ⟨rfl, rfl⟩ := Prod.ext_iff.1 (Option.some.inj h)
      exact reading_emptyObject hskip hclose
    · rename_i hopen
      rw [Option.bind_eq_bind, Option.bind_eq_some_iff] at h
      obtain ⟨⟨ms, rest'⟩, hread, h⟩ := h
      obtain ⟨rfl, rfl⟩ := Prod.ext_iff.1 (Option.some.inj h)
      exact reading_object hmembers hskip hopen hread
  case h_7 =>
    rw [Option.bind_eq_bind, Option.bind_eq_some_iff] at h
    obtain ⟨⟨n, rest'⟩, hnum, h⟩ := h
    obtain ⟨rfl, rfl⟩ := Prod.ext_iff.1 (Option.some.inj h)
    exact reading_number hnum

/-- Items are read one by one, each up to its comma or the closing bracket. -/
theorem reading_readItems_succ (hvalue : Reading (readValue fuel) (readValue fuel'))
    (hitems : Reading (readItems fuel) (readItems fuel')) :
    Reading (readItems (fuel + 1)) (readItems (fuel' + 1)) := by
  intro cs vs rest h
  rw [readItems, Option.bind_eq_bind, Option.bind_eq_some_iff] at h
  obtain ⟨⟨v, middle⟩, hread, h⟩ := h
  obtain ⟨hleaves, htail⟩ := hvalue hread
  simp only at h
  split at h
  · rename_i hcomma
    rw [Option.bind_eq_bind, Option.bind_eq_some_iff] at h
    obtain ⟨⟨ws, rest'⟩, hrest, h⟩ := h
    obtain ⟨rfl, rfl⟩ := Prod.ext_iff.1 (Option.some.inj h)
    obtain ⟨hleaves', htail'⟩ := hitems hrest
    refine ⟨(hleaves.trans (leaves_of_skipSpace [','] hcomma (by decide))).trans hleaves',
      fun tail hstops => ?_⟩
    rw [readItems, htail tail hstops, Option.bind_eq_bind, Option.bind_some]
    simp only [skipSpace_tail hcomma, htail' tail hstops]
    rfl
  · rename_i hclose
    obtain ⟨rfl, rfl⟩ := Prod.ext_iff.1 (Option.some.inj h)
    refine ⟨hleaves.trans (leaves_of_skipSpace [']'] hclose (by decide)), fun tail hstops => ?_⟩
    rw [readItems, htail tail hstops, Option.bind_eq_bind, Option.bind_some]
    simp only [skipSpace_tail hclose]
    rfl
  · cases h

/-- Members are read one by one, each by its key, its colon and its value. -/
theorem reading_readMembers_succ (hfuel : fuel ≤ fuel')
    (hvalue : Reading (readValue fuel) (readValue fuel'))
    (hmembers : Reading (readMembers fuel) (readMembers fuel')) :
    Reading (readMembers (fuel + 1)) (readMembers (fuel' + 1)) := by
  intro cs ms rest h
  rw [readMembers] at h
  split at h
  · rename_i key hquote
    rw [Option.bind_eq_bind, Option.bind_eq_some_iff] at h
    obtain ⟨⟨k, colon⟩, hchars, h⟩ := h
    obtain ⟨hleaves, htail⟩ := reading_readChars (Nat.succ_le_succ hfuel) hchars
    simp only at h
    split at h
    · rename_i val hcolon
      rw [Option.bind_eq_bind, Option.bind_eq_some_iff] at h
      obtain ⟨⟨v, middle⟩, hread, h⟩ := h
      obtain ⟨hleaves', htail'⟩ := hvalue hread
      have hfront : Leaves cs middle :=
        (((leaves_of_skipSpace ['"'] hquote (by decide)).trans hleaves).trans
          (leaves_of_skipSpace [':'] hcolon (by decide))).trans hleaves'
      simp only at h
      split at h
      · rename_i hcomma
        rw [Option.bind_eq_bind, Option.bind_eq_some_iff] at h
        obtain ⟨⟨ns, rest'⟩, hrest, h⟩ := h
        obtain ⟨rfl, rfl⟩ := Prod.ext_iff.1 (Option.some.inj h)
        obtain ⟨hleaves'', htail''⟩ := hmembers hrest
        refine ⟨(hfront.trans (leaves_of_skipSpace [','] hcomma (by decide))).trans hleaves'',
          fun tail hstops => ?_⟩
        rw [readMembers, skipSpace_tail hquote]
        simp only [htail tail hstops, skipSpace_tail hcolon, htail' tail hstops,
          skipSpace_tail hcomma, htail'' tail hstops, Option.bind_eq_bind, Option.bind_some]
        rfl
      · rename_i hclose
        obtain ⟨rfl, rfl⟩ := Prod.ext_iff.1 (Option.some.inj h)
        refine ⟨hfront.trans (leaves_of_skipSpace ['}'] hclose (by decide)), fun tail hstops => ?_⟩
        rw [readMembers, skipSpace_tail hquote]
        simp only [htail tail hstops, skipSpace_tail hcolon, htail' tail hstops,
          skipSpace_tail hclose, Option.bind_eq_bind, Option.bind_some]
        rfl
      · cases h
    · cases h
  · cases h

end

/-- With at least the fuel, the reader reads the same. -/
theorem reading_values {fuel fuel' : ℕ} (hfuel : fuel ≤ fuel') :
    Reading (readValue fuel) (readValue fuel') ∧ Reading (readItems fuel) (readItems fuel') ∧
      Reading (readMembers fuel) (readMembers fuel') := by
  induction fuel generalizing fuel' with
  | zero =>
    -- without fuel nothing is read
    refine ⟨?_, ?_, ?_⟩ <;> intro cs a rest h <;> cases h
  | succ fuel ih =>
    obtain ⟨fuel', rfl⟩ := Nat.exists_eq_succ_of_ne_zero (by omega : fuel' ≠ 0)
    have hle := Nat.le_of_succ_le_succ hfuel
    obtain ⟨hvalue, hitems, hmembers⟩ := ih hle
    exact ⟨reading_readValue_succ hle hitems hmembers, reading_readItems_succ hvalue hitems,
      reading_readMembers_succ hle hvalue hmembers⟩

/-! ## Documents -/

/-- What is read of a text, up to what is left of it. -/
theorem read_eq_some {text : String} {v : Val} (h : read text = some v) :
    ∃ rest, readValue (2 * text.toList.length + 2) text.toList = some (v, rest) ∧
      skipSpace rest = [] := by
  rw [read] at h
  split at h
  · rename_i hread
    split at h
    · rename_i hrest
      obtain rfl := Option.some.inj h
      exact ⟨_, hread, hrest⟩
    · cases h
  · cases h

/-- No NUL stands in a document. -/
theorem nul_notMem_of_read {text : String} {v : Val} (h : read text = some v) :
    '\x00' ∉ text.toList := by
  obtain ⟨rest, hread, hrest⟩ := read_eq_some h
  obtain ⟨⟨front, htext, hfront⟩, -⟩ := (reading_values (le_refl _)).1 hread
  obtain ⟨gap, hgap, hspace⟩ := eq_append_skipSpace rest
  rw [hrest, List.append_nil] at hspace
  rw [htext, List.mem_append, not_or]
  refine ⟨hfront, fun hmem => ?_⟩
  rw [hspace] at hmem
  exact absurd (hgap _ hmem) (by decide)

/-- White space may follow a document. -/
theorem read_append_space {text : List Char} {v : Val} (h : read (String.ofList text) = some v)
    {gap : List Char} (hgap : ∀ c ∈ gap, isSpace c = true) :
    read (String.ofList (text ++ gap)) = some v := by
  obtain ⟨rest, hread, hrest⟩ := read_eq_some h
  rw [String.toList_ofList] at hread
  have hstops : Stops gap := by
    intro c hc
    have hspace := hgap c (List.mem_of_mem_head? hc)
    simp only [isSpace, Bool.or_eq_true, beq_iff_eq] at hspace
    obtain ((rfl | rfl) | rfl) | rfl := hspace <;> decide
  have hfuel : 2 * text.length + 2 ≤ 2 * (text ++ gap).length + 2 := by
    rw [List.length_append]
    omega
  have htail := ((reading_values hfuel).1 hread).2 gap hstops
  have hend : skipSpace (rest ++ gap) = [] := by
    obtain ⟨front, hfront, hspace⟩ := eq_append_skipSpace rest
    rw [hrest, List.append_nil] at hspace
    rw [skipSpace, List.dropWhile_eq_nil_iff]
    intro c hc
    rw [hspace] at hc
    exact (List.mem_append.1 hc).elim (hfront c) (hgap c)
  rw [read]
  simp only [String.toList_ofList, htail, hend, if_true]

end Yyjson
