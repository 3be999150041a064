import UnityCatalog.YyjsonWrite

/-!
# yyjson: text put between quotes as it is

A library module: a text that a format string puts between quotes without escaping it. Wherever it
stands in a document, it is read as itself only if none of its characters would have to be escaped
(`plain_of_readChars`): a quote ends the string early, an escape makes the string shorter than the
text, and a backslash at the end takes the closing quote with it.

`Frame` is the text in front of a place in a document, of which only the parts that are done are
known to be read. What is read at the place is what the document says there, `readValue_frames`.
-/

namespace Yyjson

/-! ## Strings -/

/-- What is in front of a quote is read without the quote. -/
theorem before_quote {front rest tail : List Char} (hquote : '"' ∉ front) :
    ∀ {cs : List Char}, cs ++ '"' :: tail = front ++ rest →
      ∃ cs', cs = front ++ cs' ∧ rest = cs' ++ '"' :: tail := by
  induction front with
  | nil => exact fun {cs} h => ⟨cs, rfl, h.symm⟩
  | cons f front ih =>
    obtain ⟨hf, hfront⟩ := not_or.1 fun h => hquote (List.mem_cons.2 h)
    intro cs h
    cases cs with
    | nil => exact absurd (List.cons.inj h).1 hf
    | cons c cs =>
      obtain ⟨rfl, htail⟩ := List.cons.inj h
      obtain ⟨cs', rfl, hrest⟩ := ih hfront htail
      exact ⟨cs', rfl, hrest⟩

theorem hexDigit_ne_quote {c : Char} {n : ℕ} (h : hexDigit c = some n) : '"' ≠ c := by
  rintro rfl
  cases h

theorem front_readHex4 {cs rest : List Char} {n : ℕ} (h : readHex4 cs = some (n, rest)) :
    ∃ front, cs = front ++ rest ∧ '"' ∉ front := by
  obtain - | ⟨a, - | ⟨b, - | ⟨c, - | ⟨d, cs⟩⟩⟩⟩ := cs
  all_goals try cases h
  simp only [readHex4, Option.bind_eq_bind, Option.bind_eq_some_iff] at h
  obtain ⟨x, ha, y, hb, z, hc, w, hd, h⟩ := h
  obtain ⟨-, rfl⟩ := Prod.ext_iff.1 (Option.some.inj h)
  refine ⟨[a, b, c, d], rfl, ?_⟩
  simp [hexDigit_ne_quote ha, hexDigit_ne_quote hb, hexDigit_ne_quote hc, hexDigit_ne_quote hd]

theorem front_readUnicode {cs rest : List Char} {c : Char} (h : readUnicode cs = some (c, rest)) :
    ∃ front, cs = front ++ rest ∧ '"' ∉ front := by
  rw [readUnicode, Option.bind_eq_bind, Option.bind_eq_some_iff] at h
  obtain ⟨⟨hi, middle⟩, hhi, h⟩ := h
  obtain ⟨front, rfl, hfront⟩ := front_readHex4 hhi
  simp only at h
  split at h
  · -- a surrogate pair
    split at h
    · rename_i middle'
      rw [Option.bind_eq_some_iff] at h
      obtain ⟨⟨lo, rest'⟩, hlo, h⟩ := h
      obtain ⟨front', rfl, hfront'⟩ := front_readHex4 hlo
      simp only at h
      split at h
      · obtain ⟨-, rfl⟩ := Prod.ext_iff.1 (Option.some.inj h)
        exact ⟨front ++ '\\' :: 'u' :: front', by simp, by simp [hfront, hfront']⟩
      · cases h
    · cases h
  · split at h
    · cases h
    · obtain ⟨-, rfl⟩ := Prod.ext_iff.1 (Option.some.inj h)
      exact ⟨front, rfl, hfront⟩

/-- An escape is of a quote, or there is no quote in it. -/
theorem front_readEscape {cs rest : List Char} {c : Char} (h : readEscape cs = some (c, rest)) :
    cs = '"' :: rest ∨ ∃ e front, cs = e :: (front ++ rest) ∧ '"' ∉ e :: front := by
  unfold readEscape at h
  split at h
  case h_1 =>
    obtain ⟨-, rfl⟩ := Prod.ext_iff.1 (Option.some.inj h)
    exact .inl rfl
  case h_9 cs =>
    obtain ⟨front, rfl, hfront⟩ := front_readUnicode h
    exact .inr ⟨'u', front, rfl, by simp [hfront]⟩
  case h_10 => cases h
  all_goals
    obtain ⟨-, rfl⟩ := Prod.ext_iff.1 (Option.some.inj h)
    exact .inr ⟨_, [], rfl, by decide⟩

/-- A text without quotes and backslashes is read as it is, or not at all. -/
theorem readChars_unquoted {mid : List Char} (hmid : ∀ c ∈ mid, c ≠ '"' ∧ c ≠ '\\')
    (tail : List Char) :
    ∀ {fuel : ℕ} {r : List Char × List Char}, readChars fuel (mid ++ '"' :: tail) = some r →
      r.1 = mid := by
  induction mid with
  | nil =>
    intro fuel r h
    cases fuel with
    | zero => cases h
    | succ fuel =>
      rw [List.nil_append, readChars, if_pos rfl] at h
      rw [← Option.some.inj h]
  | cons c mid ih =>
    obtain ⟨⟨hquote, hback⟩, hmid⟩ := List.forall_mem_cons.1 hmid
    intro fuel r h
    cases fuel with
    | zero => cases h
    | succ fuel =>
      rw [List.cons_append, readChars, if_neg hquote, if_neg hback] at h
      split at h
      · cases h
      · obtain ⟨r', hr', h⟩ := Option.bind_eq_some_iff.1 h
        rw [← Option.some.inj h, ← ih hmid hr']

/-- How a text is read that is not escaped: as it is, as less, or beyond its end. -/
inductive RawRead : List Char → List Char → Prop where
  | same {cs : List Char} (plain : ∀ c ∈ cs, Plain c) : RawRead cs cs
  | less {cs s : List Char} (h : s.length < cs.length) : RawRead cs s
  | beyond {cs s : List Char} {c : Char} (last : cs.getLast? = some '\\') (other : c ≠ '\\')
    (h : s.getLast? = some c) : RawRead cs s

/-- A character that is read as itself. -/
theorem RawRead.cons {cs s : List Char} {c : Char} (h : RawRead cs s) (hc : Plain c) :
    RawRead (c :: cs) (c :: s) := by
  cases h with
  | same plain => exact .same (List.forall_mem_cons.2 ⟨hc, plain⟩)
  | less h => exact .less (Nat.succ_lt_succ h)
  | beyond last other h =>
    exact .beyond (by simp [List.getLast?_cons, last]) other (by simp [List.getLast?_cons, h])

/-- Characters that are read as one. -/
theorem RawRead.escape {cs s : List Char} {c : Char} (h : RawRead cs s) (front : List Char)
    (hfront : 2 ≤ front.length) : RawRead (front ++ cs) (c :: s) := by
  cases h with
  | same plain => exact .less (by rw [List.length_append, List.length_cons]; omega)
  | less h => exact .less (by rw [List.length_append, List.length_cons]; omega)
  | beyond last other h =>
    refine .beyond ?_ other (by simp [List.getLast?_cons, h])
    rw [List.getLast?_append, last, Option.some_or]

/-- A backslash that takes the closing quote with it. -/
theorem RawRead.tooFar {mid : List Char} (hmid : ∀ c ∈ mid, c ≠ '"' ∧ c ≠ '\\') :
    RawRead ['\\'] ('"' :: mid) := by
  cases hlast : mid.getLast? with
  | none => exact .beyond rfl (show '"' ≠ '\\' by decide) (by simp [List.getLast?_cons, hlast])
  | some c =>
    exact .beyond rfl (hmid c (List.mem_of_getLast? hlast)).2 (by simp [List.getLast?_cons, hlast])

theorem readChars_raw {mid tail : List Char} (hmid : ∀ c ∈ mid, c ≠ '"' ∧ c ≠ '\\') (fuel : ℕ) :
    ∀ {cs : List Char} {r : List Char × List Char},
      readChars fuel (cs ++ '"' :: (mid ++ '"' :: tail)) = some r → RawRead cs r.1 := by
  induction fuel with
  | zero => exact fun {cs r} h => by cases h
  | succ fuel ih =>
    intro cs r h
    cases cs with
    | nil =>
      rw [List.nil_append, readChars, if_pos rfl] at h
      rw [← Option.some.inj h]
      exact .same (List.forall_mem_nil _)
    | cons c cs =>
      rw [List.cons_append, readChars] at h
      split at h
      · -- a quote ends the string
        rw [← Option.some.inj h]
        exact .less (Nat.zero_lt_succ _)
      rename_i hquote
      split at h
      · rename_i hback
        subst hback
        obtain ⟨⟨e, rest⟩, he, h⟩ := Option.bind_eq_some_iff.1 h
        obtain ⟨r', hr', h⟩ := Option.bind_eq_some_iff.1 h
        obtain rfl := Option.some.inj h
        rcases front_readEscape he with hself | ⟨e', front, hcs, hfront⟩
        · cases cs with
          | nil =>
            -- the closing quote is escaped, and what follows is read too
            obtain ⟨rfl, rfl⟩ : '"' = e ∧ mid ++ '"' :: tail = rest :=
              Prod.ext_iff.1 (Option.some.inj he)
            simp only [readChars_unquoted hmid tail hr']
            exact .tooFar hmid
          | cons d cs =>
            obtain ⟨rfl, hrest⟩ := List.cons.inj hself
            rw [← hrest] at hr'
            exact (ih hr').escape ['\\', '"'] (le_refl 2)
        · obtain ⟨cs', rfl, hrest⟩ := before_quote hfront (show cs ++ '"' :: (mid ++ '"' :: tail) =
            (e' :: front) ++ rest from hcs)
          rw [hrest] at hr'
          exact (ih hr').escape ('\\' :: e' :: front) (Nat.le_add_left 2 _)
      · rename_i hback
        split at h
        · cases h
        · rename_i hctl
          obtain ⟨r', hr', h⟩ := Option.bind_eq_some_iff.1 h
          obtain rfl := Option.some.inj h
          exact (ih hr').cons ⟨hquote, hback, Nat.not_lt.1 hctl⟩

/-- A text that is read as itself has nothing to escape. -/
theorem plain_of_readChars {cs mid tail rest : List Char} {fuel : ℕ}
    (hmid : ∀ c ∈ mid, c ≠ '"' ∧ c ≠ '\\')
    (h : readChars fuel (cs ++ '"' :: (mid ++ '"' :: tail)) = some (cs, rest)) :
      ∀ c ∈ cs, Plain c := by
  cases readChars_raw hmid fuel h with
  | same plain => exact plain
  | less h => exact absurd h (Nat.lt_irrefl _)
  | beyond last other h =>
    rw [last] at h
    exact absurd (Option.some.inj h).symm other

/-! ## Places in a document -/

/-- The text in front of a place: the members or items before it, and at a member its key. -/
inductive Frame where
  | member (before : List (String × List Char)) (key : String)
  | item (before : List (List Char))

namespace Frame

variable (gap : List Char)

/-- The frame, written. -/
def text : Frame → List Char
  | member before key =>
    '{' :: ((before.flatMap fun m => memberText gap m ++ ',' :: gap) ++
      (writeString key ++ ':' :: gap))
  | item before => '[' :: before.flatMap fun cs => cs ++ ',' :: gap

/-- What is before the place can be read. -/
def Readable : Frame → Prop
  | member before _ => ∀ m ∈ before, ∃ v, Reads m.2 (some v)
  | item before => ∀ cs ∈ before, ∃ v, Reads cs (some v)

/-- What a value has at the place. -/
def get : Frame → Val → Option Val
  | member before _, .obj ms => (ms[before.length]?).map Prod.snd
  | item before, .arr vs => vs[before.length]?
  | _, _ => none

end Frame

section

variable {gap : List Char} (hgap : ∀ c ∈ gap, isSpace c = true)
include hgap

/-- An item that is read, and more to come. -/
theorem readItems_next {text : List Char} {v : Val} (hread : Reads text (some v)) (rest : List Char)
    {fuel : ℕ} (hfuel : text.length < fuel) :
    readItems (fuel + 1) (text ++ ',' :: (gap ++ rest)) =
      (readItems fuel rest).map fun p => (v :: p.1, p.2) := by
  rw [readItems, hread fuel _ hfuel (by simp [Ends])]
  simp only [Option.bind_eq_bind, Option.map_some, Option.bind_some]
  simp only [skipSpace, isSpace, List.dropWhile_cons, Char.reduceBEq, Bool.or_self,
    Bool.false_eq_true, if_false]
  rw [readItems_append hgap]
  cases readItems fuel rest <;> rfl

/-- The member whose value is at the front. -/
theorem readMembers_first {key : String} {cs : List Char} {fuel : ℕ}
    {r : List (String × Val) × List Char} (hfuel : (writeString key).length < fuel + 1)
    (h : readMembers (fuel + 1) (writeString key ++ ':' :: (gap ++ cs)) = some r) :
    ∃ v rest ms, readValue fuel cs = some (v, rest) ∧ r.1 = (key, v) :: ms := by
  have hlen := length_lt_writeString key
  rw [writeString_append, readMembers] at h
  have hskip : ∀ tail, skipSpace ('"' :: tail) = '"' :: tail := fun _ => rfl
  simp only [hskip, readChars_write _ _ (show key.toList.length < fuel + 1 by omega),
    Option.bind_eq_bind, Option.bind_some] at h
  simp only [skipSpace, isSpace, List.dropWhile_cons, Char.reduceBEq, Bool.or_self,
    Bool.false_eq_true, if_false, readValue_append hgap] at h
  obtain ⟨⟨v, rest⟩, hv, h⟩ := Option.bind_eq_some_iff.1 h
  refine ⟨v, rest, r.1.tail, hv, ?_⟩
  simp only at h
  split at h
  · obtain ⟨q, -, h⟩ := Option.bind_eq_some_iff.1 h
    rw [← Option.some.inj h, String.ofList_toList]
    rfl
  · rw [← Option.some.inj h, String.ofList_toList]
    rfl
  · cases h

/-- A member that is read, and more to come. -/
theorem readMembers_next {m : String × List Char} {v : Val} (hread : Reads m.2 (some v))
    (rest : List Char) {fuel : ℕ} (hfuel : (memberText gap m).length < fuel + 1) :
    readMembers (fuel + 1) (memberText gap m ++ ',' :: (gap ++ rest)) =
      (readMembers fuel rest).map fun p => ((m.1, v) :: p.1, p.2) := by
  have hlen := length_lt_writeString m.1
  rw [memberText, List.length_append, List.length_cons, List.length_append] at hfuel
  rw [memberText, List.append_assoc, List.cons_append, List.append_assoc, writeString_append,
    readMembers]
  have hskip : ∀ tail, skipSpace ('"' :: tail) = '"' :: tail := fun _ => rfl
  simp only [hskip, readChars_write _ _ (show m.1.toList.length < fuel + 1 by omega),
    Option.bind_eq_bind, Option.bind_some]
  simp only [skipSpace, isSpace, List.dropWhile_cons, Char.reduceBEq, Bool.or_self,
    Bool.false_eq_true, if_false, readValue_append hgap,
    hread fuel _ (show m.2.length < fuel by omega)
      (show Ends (',' :: (gap ++ rest)) by simp [Ends]), Option.map_some, Option.bind_some,
    readMembers_append hgap, String.ofList_toList]
  cases readMembers fuel rest <;> rfl

/-- What is read of items, the first of which are known to be read. -/
theorem readItems_frame {before : List (List Char)}
    (hbefore : ∀ text ∈ before, ∃ v, Reads text (some v)) (cs : List Char) :
    ∀ {fuel : ℕ} {r : List Val × List Char},
      2 * ((before.flatMap fun text => text ++ ',' :: gap) ++ cs).length + 1 < fuel →
      readItems fuel ((before.flatMap fun text => text ++ ',' :: gap) ++ cs) = some r →
      ∃ fuel' v rest, 2 * cs.length < fuel' ∧ readValue fuel' cs = some (v, rest) ∧
        r.1[before.length]? = some v := by
  induction before with
  | nil =>
    intro fuel r hfuel h
    rw [List.flatMap_nil, List.nil_append] at hfuel h
    obtain ⟨fuel, rfl⟩ := Nat.exists_eq_succ_of_ne_zero (by omega : fuel ≠ 0)
    rw [readItems, Option.bind_eq_bind, Option.bind_eq_some_iff] at h
    obtain ⟨⟨v, rest⟩, hv, h⟩ := h
    refine ⟨fuel, v, rest, by omega, hv, ?_⟩
    simp only at h
    split at h
    · obtain ⟨q, -, h⟩ := Option.bind_eq_some_iff.1 h
      rw [← Option.some.inj h]
      rfl
    · rw [← Option.some.inj h]
      rfl
    · cases h
  | cons text before ih =>
    intro fuel r hfuel h
    obtain ⟨⟨v, hread⟩, hbefore⟩ := List.forall_mem_cons.1 hbefore
    rw [List.flatMap_cons, List.append_assoc, List.append_assoc, List.cons_append] at hfuel h
    rw [List.length_append, List.length_cons, List.length_append] at hfuel
    obtain ⟨fuel, rfl⟩ := Nat.exists_eq_succ_of_ne_zero (by omega : fuel ≠ 0)
    rw [readItems_next hgap hread _ (by omega)] at h
    obtain ⟨q, hq, rfl⟩ := Option.map_eq_some_iff.1 h
    obtain ⟨fuel', w, rest, hfuel', hw, hget⟩ := ih hbefore (show _ + 1 < fuel by omega) hq
    exact ⟨fuel', w, rest, hfuel', hw, hget⟩

theorem readMembers_frame {before : List (String × List Char)}
    (hbefore : ∀ m ∈ before, ∃ v, Reads m.2 (some v)) (key : String) (cs : List Char) :
    ∀ {fuel : ℕ} {r : List (String × Val) × List Char},
      2 * ((before.flatMap fun m => memberText gap m ++ ',' :: gap) ++
        (writeString key ++ ':' :: (gap ++ cs))).length + 1 < fuel →
      readMembers fuel ((before.flatMap fun m => memberText gap m ++ ',' :: gap) ++
        (writeString key ++ ':' :: (gap ++ cs))) = some r →
      ∃ fuel' v rest, 2 * cs.length < fuel' ∧ readValue fuel' cs = some (v, rest) ∧
        (r.1[before.length]?).map Prod.snd = some v := by
  induction before with
  | nil =>
    intro fuel r hfuel h
    rw [List.flatMap_nil, List.nil_append] at hfuel h
    rw [List.length_append, List.length_cons, List.length_append] at hfuel
    obtain ⟨fuel, rfl⟩ := Nat.exists_eq_succ_of_ne_zero (by omega : fuel ≠ 0)
    obtain ⟨v, rest, ms, hv, hr⟩ := readMembers_first hgap (by omega) h
    refine ⟨fuel, v, rest, by omega, hv, ?_⟩
    rw [hr]
    rfl
  | cons m before ih =>
    intro fuel r hfuel h
    obtain ⟨⟨v, hread⟩, hbefore⟩ := List.forall_mem_cons.1 hbefore
    rw [List.flatMap_cons, List.append_assoc, List.append_assoc, List.cons_append] at hfuel h
    rw [List.length_append, List.length_cons, List.length_append] at hfuel
    obtain ⟨fuel, rfl⟩ := Nat.exists_eq_succ_of_ne_zero (by omega : fuel ≠ 0)
    rw [readMembers_next hgap hread _ (by omega)] at h
    obtain ⟨q, hq, rfl⟩ := Option.map_eq_some_iff.1 h
    obtain ⟨fuel', w, rest, hfuel', hw, hget⟩ := ih hbefore (show _ + 1 < fuel by omega) hq
    exact ⟨fuel', w, rest, hfuel', hw, hget⟩

/-- What a value has at a place is read there. -/
theorem readValue_frame {f : Frame} (hf : f.Readable) (cs : List Char) {fuel : ℕ} {v w : Val}
    {rest : List Char}
    (hfuel : 2 * (f.text gap ++ cs).length < fuel)
    (h : readValue fuel (f.text gap ++ cs) = some (v, rest))
    (hget : f.get v = some w) :
    ∃ fuel' rest', 2 * cs.length < fuel' ∧ readValue fuel' cs = some (w, rest') := by
  obtain ⟨fuel, rfl⟩ := Nat.exists_eq_succ_of_ne_zero (by omega : fuel ≠ 0)
  cases f with
  | member before key =>
    rw [Frame.text, List.cons_append, List.append_assoc, List.append_assoc, List.cons_append]
      at hfuel h
    rw [List.length_cons] at hfuel
    -- a key comes first
    have hbrace : ∀ tail, skipSpace ((before.flatMap fun m => memberText gap m ++ ',' :: gap) ++
        (writeString key ++ ':' :: (gap ++ cs))) ≠ '}' :: tail := by
      intro tail htail
      cases before with
      | nil => simp [writeString, skipSpace, isSpace] at htail
      | cons m before => simp [memberText, writeString, skipSpace, isSpace] at htail
    rw [readValue_object hbrace] at h
    obtain ⟨r, hr, heq⟩ := Option.map_eq_some_iff.1 h
    obtain ⟨rfl, -⟩ := Prod.ext_iff.1 heq
    obtain ⟨fuel', w', rest', hfuel', hw, hget'⟩ := readMembers_frame hgap hf key cs (by omega) hr
    obtain rfl := Option.some.inj (hget'.symm.trans hget)
    exact ⟨fuel', rest', hfuel', hw⟩
  | item before =>
    rw [Frame.text, List.cons_append] at hfuel h
    rw [List.length_cons] at hfuel
    by_cases hbracket : ∀ tail,
      skipSpace ((before.flatMap fun text => text ++ ',' :: gap) ++ cs) ≠ ']' :: tail
    · rw [readValue_array hbracket] at h
      obtain ⟨r, hr, heq⟩ := Option.map_eq_some_iff.1 h
      obtain ⟨rfl, -⟩ := Prod.ext_iff.1 heq
      obtain ⟨fuel', w', rest', hfuel', hw, hget'⟩ := readItems_frame hgap hf cs (by omega) hr
      obtain rfl := Option.some.inj (hget'.symm.trans hget)
      exact ⟨fuel', rest', hfuel', hw⟩
    · -- an empty array has nothing at the place
      obtain ⟨tail, htail⟩ := not_forall_not.1 hbracket
      have hopen : ∀ cs', skipSpace ('[' :: cs') = '[' :: cs' := fun _ => rfl
      rw [readValue] at h
      simp only [hopen, htail] at h
      obtain ⟨rfl, -⟩ := Prod.ext_iff.1 (Option.some.inj h)
      simp [Frame.get] at hget

/-- The same, of a place within a place. -/
theorem readValue_frames {fs : List Frame} (hfs : ∀ f ∈ fs, f.Readable) (cs : List Char) :
    ∀ {fuel : ℕ} {v w : Val} {rest : List Char},
      2 * ((fs.flatMap fun f => f.text gap) ++ cs).length < fuel →
      readValue fuel ((fs.flatMap fun f => f.text gap) ++ cs) = some (v, rest) →
      fs.foldlM (fun v f => f.get v) v = some w →
      ∃ fuel' rest', 2 * cs.length < fuel' ∧ readValue fuel' cs = some (w, rest') := by
  induction fs with
  | nil =>
    intro fuel v w rest hfuel h hget
    obtain rfl := Option.some.inj hget
    exact ⟨fuel, rest, hfuel, h⟩
  | cons f fs ih =>
    intro fuel v w rest hfuel h hget
    obtain ⟨hf, hfs⟩ := List.forall_mem_cons.1 hfs
    obtain ⟨u, hu, hget⟩ := Option.bind_eq_some_iff.1 hget
    rw [List.flatMap_cons, List.append_assoc] at hfuel h
    obtain ⟨fuel', rest', hfuel', hu'⟩ := readValue_frame hgap hf _ hfuel h hu
    exact ih hfs hfuel' hu' hget

/-- **Raw text.** A text put between quotes as it is, anywhere in a document that then says the very
text there, has nothing to escape. -/
theorem plain_of_read {fs : List Frame} (hfs : ∀ f ∈ fs, f.Readable) {s : String}
    {mid tail : List Char} (hmid : ∀ c ∈ mid, c ≠ '"' ∧ c ≠ '\\') {v : Val}
    (h : read (String.ofList ((fs.flatMap fun f => f.text gap) ++
      '"' :: (s.toList ++ '"' :: (mid ++ '"' :: tail)))) = some v)
    (hget : fs.foldlM (fun v f => f.get v) v = some (.str s)) : ∀ c ∈ s.toList, Plain c := by
  rw [read, String.toList_ofList] at h
  split at h
  · rename_i v' rest hvalue
    split at h
    · obtain rfl := Option.some.inj h
      obtain ⟨fuel, rest', hfuel, hstring⟩ := readValue_frames hgap hfs _ (by omega) hvalue hget
      obtain ⟨fuel, rfl⟩ := Nat.exists_eq_succ_of_ne_zero (by omega : fuel ≠ 0)
      have hskip : ∀ cs, skipSpace ('"' :: cs) = '"' :: cs := fun _ => rfl
      rw [readValue] at hstring
      simp only [hskip] at hstring
      obtain ⟨r, hr, hstring⟩ := Option.bind_eq_some_iff.1 hstring
      obtain ⟨hs, -⟩ := Prod.ext_iff.1 (Option.some.inj hstring)
      have hchars : r.1 = s.toList := by
        rw [← Val.str.inj hs, String.toList_ofList]
      rw [← Prod.eta r, hchars] at hr
      exact plain_of_readChars hmid hr
    · cases h
  · cases h

end

end Yyjson
