import UnityCatalog.Yyjson
import Mathlib.Data.List.TakeWhile

/-!
# yyjson: what the reader makes of a text

A library module: the strict reader on texts that are put together from parts. `Reads text o` says
what is read of a text wherever it stands in a larger one, and the rules below give it for strings,
numbers and objects from their parts; where a part is refused, so is the whole.
-/

namespace Yyjson

/-- Where a value may end: a number is not read on past these. -/
def Ends : List Char → Prop
  | [] => True
  | c :: _ => c = ',' ∨ c = '}' ∨ c = ']'

/-- What the reader makes of a text at the front of another, none if it refuses it. -/
def Reads (text : List Char) (o : Option Val) : Prop :=
  ∀ fuel rest, text.length < fuel → Ends rest → readValue fuel (text ++ rest) = o.map (·, rest)

/-- A text that is read is a document. -/
theorem Reads.read {text : List Char} {o : Option Val} (h : Reads text o) :
    read (String.ofList text) = o := by
  have hvalue := h (2 * text.length + 2) [] (by omega) trivial
  rw [List.append_nil] at hvalue
  rw [Yyjson.read, String.toList_ofList]
  simp only [hvalue]
  cases o with
  | none => rfl
  | some v => rfl

/-! ## White space in front -/

section

variable {gap : List Char} (hgap : ∀ c ∈ gap, isSpace c = true)
include hgap

/-- A gap in front of a text is skipped with the space of the text. -/
theorem skipSpace_append (cs : List Char) : skipSpace (gap ++ cs) = skipSpace cs := by
  rw [skipSpace, List.dropWhile_append_of_pos hgap]
  rfl

/-- A gap in front of a value changes nothing. -/
theorem readValue_append (fuel : ℕ) (cs : List Char) : readValue fuel (gap ++ cs) =
    readValue fuel cs := by
  cases fuel with
  | zero => rfl
  | succ fuel => rw [readValue, skipSpace_append hgap, readValue]

/-- A gap in front of items changes nothing. -/
theorem readItems_append (fuel : ℕ) (cs : List Char) : readItems fuel (gap ++ cs) =
    readItems fuel cs := by
  cases fuel with
  | zero => rfl
  | succ fuel => rw [readItems, readValue_append hgap, readItems]

/-- A gap in front of members changes nothing. -/
theorem readMembers_append (fuel : ℕ) (cs : List Char) :
    readMembers fuel (gap ++ cs) = readMembers fuel cs := by
  cases fuel with
  | zero => rfl
  | succ fuel => rw [readMembers, skipSpace_append hgap, readMembers]

end

/-- A text, without the white space in front of it. -/
theorem eq_append_skipSpace (cs : List Char) :
    ∃ gap, (∀ c ∈ gap, isSpace c = true) ∧ cs = gap ++ skipSpace cs :=
  ⟨cs.takeWhile isSpace, fun _ => List.mem_takeWhile_imp, List.takeWhile_append_dropWhile.symm⟩

/-- A value is read behind its space, with or without it. -/
theorem readValue_skipSpace (fuel : ℕ) (cs : List Char) :
    readValue fuel (skipSpace cs) = readValue fuel cs := by
  obtain ⟨gap, hgap, hcs⟩ := eq_append_skipSpace cs
  rw [← readValue_append hgap, ← hcs]

/-- Items are read behind their space. -/
theorem readItems_skipSpace (fuel : ℕ) (cs : List Char) :
    readItems fuel (skipSpace cs) = readItems fuel cs := by
  obtain ⟨gap, hgap, hcs⟩ := eq_append_skipSpace cs
  rw [← readItems_append hgap, ← hcs]

/-- Members are read behind their space. -/
theorem readMembers_skipSpace (fuel : ℕ) (cs : List Char) :
    readMembers fuel (skipSpace cs) = readMembers fuel cs := by
  obtain ⟨gap, hgap, hcs⟩ := eq_append_skipSpace cs
  rw [← readMembers_append hgap, ← hcs]

/-- An array that has an item. -/
theorem readValue_array {cs : List Char} (h : ∀ tail, skipSpace cs ≠ ']' :: tail) (fuel : ℕ) :
    readValue (fuel + 1) ('[' :: cs) = (readItems fuel cs).map fun p => (.arr p.1, p.2) := by
  have hopen : skipSpace ('[' :: cs) = '[' :: cs := rfl
  rw [readValue, ← readItems_skipSpace]
  simp only [hopen]
  cases readItems fuel (skipSpace cs) <;> rfl

/-- An object that has a member. -/
theorem readValue_object {cs : List Char} (h : ∀ tail, skipSpace cs ≠ '}' :: tail) (fuel : ℕ) :
    readValue (fuel + 1) ('{' :: cs) = (readMembers fuel cs).map fun p => (.obj p.1, p.2) := by
  have hopen : skipSpace ('{' :: cs) = '{' :: cs := rfl
  rw [readValue, ← readMembers_skipSpace]
  simp only [hopen]
  cases readMembers fuel (skipSpace cs) <;> rfl

/-! ## Strings -/

/-- A character that may stand in a string as it is. -/
def Plain (c : Char) : Prop := c ≠ '"' ∧ c ≠ '\\' ∧ 0x20 ≤ c.toNat

/-- How a character is written in a string, if the writer can write it. -/
structure Escapes (escape : Char → List Char) (readable : Char → Prop) : Prop where
  /-- a character is written as itself, or behind a backslash -/
  short : ∀ c, readable c → (escape c = [c] ∧ Plain c) ∨
    ∃ e, escape c = ['\\', e] ∧ ∀ rest, readEscape (e :: rest) = some (c, rest)
  /-- the others are control characters, which are left as they are -/
  raw : ∀ c, ¬ readable c → escape c = [c] ∧ c.toNat < 0x20

section

variable {escape : Char → List Char} {readable : Char → Prop}

/-- A string is read as what was written, if all of it can be. -/
theorem readChars_escape (h : Escapes escape readable) (cs rest : List Char) {fuel : ℕ}
    (hfuel : cs.length < fuel) {p : Prop} [Decidable p] (hp : p ↔ ∀ c ∈ cs, readable c) :
    readChars fuel (cs.flatMap escape ++ '"' :: rest) = if p then some (cs, rest) else none := by
  induction cs generalizing fuel p with
  | nil =>
    obtain ⟨fuel, rfl⟩ := Nat.exists_eq_succ_of_ne_zero (by omega : fuel ≠ 0)
    rw [if_pos (hp.2 (List.forall_mem_nil _))]
    simp [readChars]
  | cons c cs ih =>
    obtain ⟨fuel, rfl⟩ := Nat.exists_eq_succ_of_ne_zero (by omega : fuel ≠ 0)
    rw [List.length_cons] at hfuel
    rw [List.flatMap_cons, List.append_assoc]
    rw [List.forall_mem_cons] at hp
    by_cases hc : readable c
    · have hrest := ih (show cs.length < fuel by omega) (hp.trans (and_iff_right hc))
      obtain ⟨hself, hquote, hback, hctl⟩ | ⟨e, hback, hread⟩ := h.short c hc
      · rw [hself, List.singleton_append, readChars, if_neg hquote, if_neg hback, if_neg (by omega),
          hrest]
        split <;> rfl
      · rw [hback, List.cons_append, List.singleton_append, readChars, if_neg (by decide),
          if_pos rfl, hread, Option.bind_eq_bind, Option.bind_some]
        simp only [hrest]
        split <;> rfl
    · obtain ⟨hself, hctl⟩ := h.raw c hc
      have hne : c ≠ '"' ∧ c ≠ '\\' := by
        constructor <;> rintro rfl <;> revert hctl <;> decide
      rw [hself, List.singleton_append, readChars, if_neg hne.1, if_neg hne.2, if_pos hctl, if_neg]
      exact fun hall => hc (hp.1 hall).1

/-- An escape has at least one character: no character is lost in writing. -/
theorem Escapes.length_pos (h : Escapes escape readable) (c : Char) : 1 ≤ (escape c).length := by
  by_cases hc : readable c
  · obtain ⟨hself, -⟩ | ⟨e, hback, -⟩ := h.short c hc
    · rw [hself, List.length_singleton]
    · rw [hback]
      exact Nat.le_add_left _ _
  · rw [(h.raw c hc).1, List.length_singleton]

/-- An escaped text is no shorter than the text, so fuel by its length reads it. -/
theorem Escapes.length_le (h : Escapes escape readable) (cs : List Char) :
    cs.length ≤ (cs.flatMap escape).length := by
  induction cs with
  | nil => exact Nat.zero_le _
  | cons c cs ih =>
    have hc := h.length_pos c
    rw [List.flatMap_cons, List.length_append, List.length_cons]
    omega

/-- A quoted string. -/
theorem reads_quote (h : Escapes escape readable) (s : String) {p : Prop} [Decidable p]
    (hp : p ↔ ∀ c ∈ s.toList, readable c) :
    Reads ('"' :: (s.toList.flatMap escape ++ ['"'])) (if p then some (.str s) else none) := by
  intro fuel rest hfuel _
  obtain ⟨fuel, rfl⟩ := Nat.exists_eq_succ_of_ne_zero (by omega : fuel ≠ 0)
  have hlen := h.length_le s.toList
  rw [List.length_cons, List.length_append] at hfuel
  have hchars := readChars_escape h s.toList rest (show s.toList.length < fuel + 1 by omega) hp
  rw [List.cons_append, List.append_assoc, List.singleton_append, readValue]
  simp only [skipSpace, isSpace, List.dropWhile_cons, Char.reduceBEq, Bool.or_self,
    Bool.false_eq_true, if_false, hchars]
  split
  · simp
  · rfl

end

/-- A text that is written as it is. -/
theorem readChars_plain {cs : List Char} (hplain : ∀ c ∈ cs, Plain c) (rest : List Char) {fuel : ℕ}
    (hfuel : cs.length < fuel) : readChars fuel (cs ++ '"' :: rest) = some (cs, rest) := by
  induction cs generalizing fuel with
  | nil =>
    obtain ⟨fuel, rfl⟩ := Nat.exists_eq_succ_of_ne_zero (by omega : fuel ≠ 0)
    simp [readChars]
  | cons c cs ih =>
    obtain ⟨fuel, rfl⟩ := Nat.exists_eq_succ_of_ne_zero (by omega : fuel ≠ 0)
    obtain ⟨⟨hquote, hback, hctl⟩, hrest⟩ := List.forall_mem_cons.1 hplain
    rw [List.length_cons] at hfuel
    rw [List.cons_append, readChars, if_neg hquote, if_neg hback, if_neg (by omega)]
    simp only [ih hrest (show cs.length < fuel by omega)]
    rfl

/-- A plain text between quotes is read as it is. -/
theorem reads_plain {s : String} (h : ∀ c ∈ s.toList, Plain c) :
    Reads ('"' :: (s.toList ++ ['"'])) (some (.str s)) := by
  intro fuel rest hfuel _
  obtain ⟨fuel, rfl⟩ := Nat.exists_eq_succ_of_ne_zero (by omega : fuel ≠ 0)
  rw [List.length_cons, List.length_append] at hfuel
  have hchars := readChars_plain h rest (show s.toList.length < fuel + 1 by omega)
  rw [List.cons_append, List.append_assoc, List.singleton_append, readValue]
  simp [skipSpace, isSpace, hchars]

/-! ## Literals -/

theorem reads_true : Reads "true".toList (some (.bool true)) := by
  intro fuel rest hfuel _
  obtain ⟨fuel, rfl⟩ := Nat.exists_eq_succ_of_ne_zero (by omega : fuel ≠ 0)
  simp [readValue, skipSpace, isSpace]

theorem reads_false : Reads "false".toList (some (.bool false)) := by
  intro fuel rest hfuel _
  obtain ⟨fuel, rfl⟩ := Nat.exists_eq_succ_of_ne_zero (by omega : fuel ≠ 0)
  simp [readValue, skipSpace, isSpace]

/-! ## Numbers -/

/-- What a number starts with. -/
theorem head_of_readNumber {cs : List Char} {r : Num × List Char} (h : readNumber cs = some r) :
    ∃ c rest, cs = c :: rest ∧ (c = '-' ∨ c.isDigit = true) := by
  cases cs with
  | nil => simp [readNumber, readDigits] at h
  | cons c rest =>
    refine ⟨c, rest, rfl, ?_⟩
    by_contra! hc
    have hdigits : readDigits (c :: rest) = ([], c :: rest) := by
      simp [readDigits, List.span_eq_takeWhile_dropWhile, hc.2]
    have hminus : ∀ tail, c :: rest = '-' :: tail → False := fun tail htail =>
      hc.1 (List.cons.inj htail).1
    rw [readNumber] at h
    · simp [hdigits] at h
    · exact hminus

/-- A number, by what it starts with. -/
theorem readValue_number {fuel : ℕ} {cs rest : List Char} {c : Char}
    (hskip : skipSpace cs = c :: rest) (hc : c = '-' ∨ c.isDigit = true) :
    readValue (fuel + 1) cs = (readNumber (c :: rest)).map fun p => (.num p.1, p.2) := by
  have hne : ∀ d ∈ ['n', 't', 'f', '"', '[', '{'], c ≠ d := by
    rintro d hd rfl
    obtain rfl | hdigit := hc
    · revert hd
      decide
    · simp only [List.mem_cons, List.not_mem_nil, or_false] at hd
      obtain rfl | rfl | rfl | rfl | rfl | rfl := hd <;> revert hdigit <;> decide
  simp only [List.forall_mem_cons] at hne
  rw [readValue]
  simp only [hskip]
  split
  case h_7 => cases readNumber (c :: rest) <;> rfl
  all_goals simp_all

/-- A text that is a number wherever it ends. -/
theorem reads_number {text : List Char} {n : Num}
    (h : ∀ rest, Ends rest → readNumber (text ++ rest) = some (n, rest)) :
    Reads text (some (.num n)) := by
  intro fuel rest hfuel hends
  obtain ⟨fuel, rfl⟩ := Nat.exists_eq_succ_of_ne_zero (by omega : fuel ≠ 0)
  have hread := h rest hends
  obtain ⟨c, tail, htext, hc⟩ := head_of_readNumber hread
  rw [htext] at hread ⊢
  have hspace : isSpace c = false := by
    obtain rfl | hdigit := hc
    · decide
    · rw [← Bool.not_eq_true]
      intro hs
      simp only [isSpace, Bool.or_eq_true, beq_iff_eq] at hs
      obtain ((rfl | rfl) | rfl) | rfl := hs <;> revert hdigit <;> decide
  have hskip : skipSpace (c :: tail) = c :: tail := by
    rw [skipSpace, List.dropWhile_cons, hspace]
    rfl
  rw [readValue_number hskip hc, hread]
  rfl

/-- The digits are read up to where the number ends. -/
theorem readDigits_append {ds rest : List Char} (hds : ∀ c ∈ ds, c.isDigit = true)
    (hrest : Ends rest) :
    readDigits (ds ++ rest) = (ds, rest) := by
  have hstop : rest.takeWhile Char.isDigit = [] ∧ rest.dropWhile Char.isDigit = rest := by
    cases rest with
    | nil => exact ⟨rfl, rfl⟩
    | cons c rest => obtain rfl | rfl | rfl := hrest <;> exact ⟨rfl, rfl⟩
  rw [readDigits, List.span_eq_takeWhile_dropWhile, List.takeWhile_append_of_pos hds,
    List.dropWhile_append_of_pos hds, hstop.1, hstop.2, List.append_nil]

/-- A printed number's digits are read whole. -/
theorem readDigits_toDigits (n : ℕ) {rest : List Char} (hrest : Ends rest) :
    readDigits (Nat.toDigits 10 n ++ rest) = (Nat.toDigits 10 n, rest) :=
  readDigits_append (fun _ hc => Nat.isDigit_of_mem_toDigits (by decide) (by decide) hc) hrest

/-- They have the value that was printed. -/
theorem digitsValue_toDigits (n : ℕ) : digitsValue (Nat.toDigits 10 n) = n := by
  have h := Nat.ofDigitChars_ten_toDigits (n := n)
  rw [Nat.ofDigitChars_eq_foldl] at h
  rw [digitsValue]
  simpa only [Nat.mul_comm] using h

/-- A number is written without a leading zero. -/
theorem toDigits_no_zero (n : ℕ) :
    ¬ ((Nat.toDigits 10 n).head? = some '0' ∧ (Nat.toDigits 10 n).length ≠ 1) := by
  induction n using Nat.strong_induction_on with
  | _ n ih =>
    by_cases hn : n < 10
    · rw [Nat.toDigits_of_lt_base hn]
      exact fun h => h.2 rfl
    · rw [Nat.toDigits_of_base_le (by decide) (not_lt.1 hn)]
      rintro ⟨hhead, -⟩
      rw [List.head?_append_of_ne_nil _ Nat.toDigits_ne_nil] at hhead
      have hshort := not_not.1 fun hlong => ih (n / 10) (by omega) ⟨hhead, hlong⟩
      -- of one digit, the number is that digit
      obtain ⟨c, hc⟩ := List.length_eq_one_iff.1 hshort
      rw [hc] at hhead
      have hvalue := digitsValue_toDigits (n / 10)
      rw [hc, Option.some.inj hhead] at hvalue
      have hzero : n / 10 = 0 := hvalue.symm
      omega

/-- A natural number that fits is read as unsigned. -/
theorem intNum_uint {n : ℕ} (hn : n < 2 ^ 64) :
    intNum false (Nat.toDigits 10 n) = some (.uint ⟨n, hn⟩) := by
  rw [intNum]
  simp only [digitsValue_toDigits, Bool.false_eq_true, if_false]
  rw [dif_pos hn]

/-- A number with a sign is read as signed, down to `-2 ^ 63`. -/
theorem intNum_sint {n : ℕ} (hn : n < 2 ^ 63 + 1) :
    intNum true (Nat.toDigits 10 n) = some (.sint ⟨n, hn⟩) := by
  rw [intNum]
  simp only [digitsValue_toDigits, if_true]
  rw [dif_pos hn]

section

variable {n : ℕ} {rest : List Char} (hrest : Ends rest)
include hrest

/-- Where a number ends there is no fraction. -/
theorem readFraction_ends : readFraction rest = some (none, rest) := by
  cases rest with
  | nil => rfl
  | cons c rest => obtain rfl | rfl | rfl := hrest <;> rfl

/-- Where a number ends there is no exponent. -/
theorem readExponent_ends : readExponent rest = some (none, rest) := by
  cases rest with
  | nil => rfl
  | cons c rest => obtain rfl | rfl | rfl := hrest <;> rfl

/-- A printed natural number is read back. -/
theorem readNumber_nat (hn : n < 2 ^ 64) :
    readNumber (Nat.toDigits 10 n ++ rest) = some (.uint ⟨n, hn⟩, rest) := by
  have hdigits := readDigits_toDigits n hrest
  have hminus : ∀ tail, Nat.toDigits 10 n ++ rest = '-' :: tail → False := by
    intro tail htail
    cases hd : Nat.toDigits 10 n with
    | nil => exact Nat.toDigits_ne_nil hd
    | cons d ds =>
      rw [hd] at htail
      have hdigit : d.isDigit = true :=
        Nat.isDigit_of_mem_toDigits (by decide) (by decide) (hd ▸ List.mem_cons_self)
      rw [(List.cons.inj htail).1] at hdigit
      revert hdigit
      decide
  rw [readNumber]
  · simp [hdigits, Nat.toDigits_ne_nil, toDigits_no_zero, readFraction_ends hrest,
      readExponent_ends hrest, intNum_uint hn]
  · exact hminus

/-- A printed negative number is read back. -/
theorem readNumber_neg (hn : n < 2 ^ 63 + 1) :
    readNumber ('-' :: (Nat.toDigits 10 n ++ rest)) = some (.sint ⟨n, hn⟩, rest) := by
  have hdigits := readDigits_toDigits n hrest
  rw [readNumber]
  simp [hdigits, Nat.toDigits_ne_nil, toDigits_no_zero, readFraction_ends hrest,
    readExponent_ends hrest, intNum_sint hn]

end

/-- An integer, as it is held. -/
def Num.ofInt (v : ℤ) : Num :=
  if h : 0 ≤ v ∧ v.toNat < 2 ^ 64 then .uint ⟨v.toNat, h.2⟩
  else if h : (-v).toNat < 2 ^ 63 + 1 then .sint ⟨(-v).toNat, h⟩
  else .real v

/-- An unsigned 64-bit integer. -/
theorem reads_nat {n : ℕ} (hn : n < 2 ^ 64) :
    Reads (toString n).toList (some (.num (Num.ofInt n))) := by
  have htext : (toString n).toList = Nat.toDigits 10 n := Nat.toList_repr
  rw [htext, Num.ofInt, dif_pos ⟨Int.natCast_nonneg n, hn⟩]
  exact reads_number fun rest hrest => readNumber_nat hrest hn

/-- A signed one. -/
theorem reads_int {v : ℤ} (hlow : -2 ^ 63 ≤ v) (hhigh : v < 2 ^ 63) :
    Reads (toString v).toList (some (.num (Num.ofInt v))) := by
  cases v with
  | ofNat n =>
    rw [Int.ofNat_eq_natCast] at hhigh
    exact reads_nat (show n < 2 ^ 64 by omega)
  | negSucc n =>
    have hn : n + 1 < 2 ^ 63 + 1 := by omega
    have htext : (toString (Int.negSucc n)).toList = '-' :: Nat.toDigits 10 (n + 1) := by
      show ("-" ++ (n + 1).repr).toList = _
      rw [String.toList_append, Nat.toList_repr]
      rfl
    rw [htext, Num.ofInt, dif_neg fun h => absurd h.1 (by simp),
      dif_pos (show (-Int.negSucc n).toNat < _ from hn)]
    exact reads_number fun rest hrest => readNumber_neg hrest hn

/-! ## Objects -/

/-- A member of an object: a key, the text of its value, and what is read of that. -/
structure Member where
  key : String
  text : List Char
  value : Option Val

/-- The text is read as the value, and the key is written as it is. -/
structure Member.Ok (m : Member) : Prop where
  key : ∀ c ∈ m.key.toList, Plain c
  value : Reads m.text m.value

/-- The text of a member. -/
def Member.write (m : Member) : List Char := '"' :: (m.key.toList ++ '"' :: ':' :: m.text)

/-- The text of members, with commas. -/
def membersText : List Member → List Char
  | [] => []
  | [m] => m.write
  | m :: ms => m.write ++ ',' :: membersText ms

/-- What is read of them, if every value is. -/
def membersRead (ms : List Member) : Option (List (String × Val)) :=
  ms.mapM fun m => m.value.map (m.key, ·)

/-- Members written with a raw value are read up to the first that cannot be, and otherwise as they
are. The induction is on the members. -/
theorem readMembers_text {ms : List Member} (hne : ms ≠ []) (hms : ∀ m ∈ ms, m.Ok)
    (rest : List Char) {fuel : ℕ} (hfuel : (membersText ms).length < fuel) :
    readMembers fuel (membersText ms ++ '}' :: rest) = (membersRead ms).map (·, rest) := by
  induction ms generalizing fuel with
  | nil => exact absurd rfl hne
  | cons m ms ih =>
    obtain ⟨fuel, rfl⟩ := Nat.exists_eq_succ_of_ne_zero (by omega : fuel ≠ 0)
    obtain ⟨⟨hkey, hvalue⟩, hrest⟩ := List.forall_mem_cons.1 hms
    have hmember : ∀ tail, Ends tail → m.write.length < fuel + 1 →
        readChars (fuel + 1) (m.key.toList ++ '"' :: ':' :: (m.text ++ tail)) =
          some (m.key.toList, ':' :: (m.text ++ tail)) ∧
        readValue fuel (m.text ++ tail) = m.value.map (·, tail) := by
      intro tail htail hlen
      simp only [Member.write, List.length_cons, List.length_append] at hlen
      exact ⟨readChars_plain hkey _ (by omega), hvalue fuel tail (by omega) htail⟩
    cases ms with
    | nil =>
      obtain ⟨hchars, hread⟩ := hmember ('}' :: rest) (by simp [Ends]) hfuel
      simp [membersText, Member.write, readMembers, skipSpace, isSpace, hchars, hread, membersRead]
      cases m.value <;> simp [isSpace]
    | cons m' ms =>
      have htext : membersText (m :: m' :: ms) = m.write ++ ',' :: membersText (m' :: ms) := rfl
      have hlen : m.write.length + 1 + (membersText (m' :: ms)).length < fuel + 1 := by
        rw [htext, List.length_append, List.length_cons] at hfuel
        omega
      have hnext := ih (by simp) hrest (show (membersText (m' :: ms)).length < fuel by omega)
      obtain ⟨hchars, hread⟩ :=
        hmember (',' :: (membersText (m' :: ms) ++ '}' :: rest)) (by simp [Ends])
        (by omega)
      have hall : membersRead (m :: m' :: ms) =
          m.value.bind fun v => (membersRead (m' :: ms)).map ((m.key, v) :: ·) := by
        rw [membersRead, List.mapM_cons, ← membersRead]
        cases m.value <;> cases membersRead (m' :: ms) <;> rfl
      rw [hall, htext]
      simp [Member.write, readMembers, skipSpace, isSpace, hchars, hread]
      cases m.value with
      | none => rfl
      | some v =>
        simp [isSpace, hnext]
        cases membersRead (m' :: ms) <;> rfl

/-- An object. -/
theorem reads_object {ms : List Member} (hne : ms ≠ []) (hms : ∀ m ∈ ms, m.Ok) :
    Reads ('{' :: (membersText ms ++ ['}'])) ((membersRead ms).map .obj) := by
  intro fuel rest hfuel _
  obtain ⟨fuel, rfl⟩ := Nat.exists_eq_succ_of_ne_zero (by omega : fuel ≠ 0)
  rw [List.length_cons, List.length_append] at hfuel
  have hmembers := readMembers_text hne hms rest (show (membersText ms).length < fuel by omega)
  obtain ⟨tail, htail⟩ : ∃ tail, membersText ms ++ '}' :: rest = '"' :: tail := by
    cases ms with
    | nil => exact absurd rfl hne
    | cons m ms => cases ms <;> exact ⟨_, rfl⟩
  rw [htail] at hmembers
  rw [List.cons_append, List.append_assoc, List.singleton_append, htail, readValue]
  simp [skipSpace, isSpace, hmembers]
  cases membersRead ms <;> rfl

/-! ## Comparing values -/

mutual

/-- Values are the same. -/
def Val.same : Val → Val → Bool
  | .null, .null => true
  | .bool a, .bool b => a == b
  | .num a, .num b => a == b
  | .str a, .str b => a == b
  | .arr as, .arr bs => sameItems as bs
  | .obj as, .obj bs => sameMembers as bs
  | _, _ => false

def sameItems : List Val → List Val → Bool
  | [], [] => true
  | a :: as, b :: bs => a.same b && sameItems as bs
  | _, _ => false

def sameMembers : List (String × Val) → List (String × Val) → Bool
  | [], [] => true
  | (k, a) :: as, (l, b) :: bs => k == l && (a.same b && sameMembers as bs)
  | _, _ => false

end

mutual

/-- Equality of values is decided by structure, with lists and objects compared in order. -/
theorem Val.same_iff (v w : Val) : v.same w = true ↔ v = w := by
  cases v with
  | arr as => cases w <;> simp [Val.same, sameItems_iff as]
  | obj as => cases w <;> simp [Val.same, sameMembers_iff as]
  | _ => cases w <;> simp [Val.same]

/-- Equality of lists of values, for the mutual recursion. -/
theorem sameItems_iff (as bs : List Val) : sameItems as bs = true ↔ as = bs := by
  cases as with
  | nil => cases bs <;> simp [sameItems]
  | cons a as => cases bs <;> simp [sameItems, Val.same_iff a, sameItems_iff as]

/-- Equality of lists of members, for the mutual recursion. -/
theorem sameMembers_iff (as bs : List (String × Val)) : sameMembers as bs = true ↔ as = bs := by
  cases as with
  | nil => cases bs <;> simp [sameMembers]
  | cons m as =>
    obtain ⟨k, a⟩ := m
    cases bs with
    | nil => simp [sameMembers]
    | cons m bs => simp [sameMembers, Val.same_iff a, sameMembers_iff as, Prod.ext_iff, and_assoc]

end

instance Val.decidableEq : DecidableEq Val := fun v w => decidable_of_iff _ (v.same_iff w)

/-- A text that is put together from characters is read from them, with no need to take it apart
again: what a proof about one text evaluates is the reader alone. -/
theorem read_ofList {cs : List Char} {v : Val}
    (h : readValue (2 * cs.length + 2) cs = some (v, [])) : read (String.ofList cs) = some v := by
  unfold read
  simp only [String.toList_ofList, h]
  rfl

end Yyjson
