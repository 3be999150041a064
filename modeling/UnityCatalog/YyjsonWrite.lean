import UnityCatalog.YyjsonText

/-!
# yyjson: the writer, and what is read of its text

A library module: the compact writer, and arrays and objects that are put together from the texts of
their parts, with or without a blank behind each comma and colon. What is written is read back:
every string as it was, every integer as the same integer, and every real number as the same double.
How a double is spelled is a parameter, with what is relied on of it.
-/

namespace Yyjson

/-! ## Strings -/

/-- A digit of a `\u` escape. -/
def hexChar (n : ℕ) : Char := ("0123456789ABCDEF".toList[n]?).getD '0'

/-- A character of a string, as the writer puts it. -/
def escapeChar (c : Char) : List Char :=
  if c = '"' then ['\\', '"']
  else if c = '\\' then ['\\', '\\']
  else if c = '\x08' then ['\\', 'b']
  else if c = '\x0c' then ['\\', 'f']
  else if c = '\n' then ['\\', 'n']
  else if c = '\r' then ['\\', 'r']
  else if c = '\t' then ['\\', 't']
  else if c.toNat < 0x20 then ['\\', 'u', '0', '0', hexChar (c.toNat / 16), hexChar (c.toNat % 16)]
  else [c]

/-- A string, quoted. -/
def writeString (s : String) : List Char := '"' :: (s.toList.flatMap escapeChar ++ ['"'])

/-- A hexadecimal digit that is written is read as the number it was. -/
theorem hexDigit_hexChar : ∀ n < 16, hexDigit (hexChar n) = some n := by decide

/-- A control character, by its number. -/
theorem readUnicode_control {c : Char} (hc : c.toNat < 0x20) (rest : List Char) :
    readUnicode ('0' :: '0' :: hexChar (c.toNat / 16) :: hexChar (c.toNat % 16) :: rest) =
      some (c, rest) := by
  have hhigh := hexDigit_hexChar (c.toNat / 16) (by omega)
  have hlow := hexDigit_hexChar (c.toNat % 16) (by omega)
  have hzero : hexDigit '0' = some 0 := by decide
  have hsum : c.toNat / 16 * 16 + c.toNat % 16 = c.toNat := Nat.div_add_mod' _ _
  have hhex : readHex4 ('0' :: '0' :: hexChar (c.toNat / 16) :: hexChar (c.toNat % 16) :: rest) =
      some (c.toNat, rest) := by
    simp [readHex4, hzero, hhigh, hlow, hsum]
  rw [readUnicode, hhex, Option.bind_eq_bind, Option.bind_some]
  simp only
  rw [if_neg (by omega), if_neg (by omega), Char.ofNat_toNat]
  rfl

/-- A character is written as it is, or behind a backslash as what stands for it. -/
theorem escapeChar_cases (c : Char) :
    (escapeChar c = [c] ∧ Plain c) ∨
      ∃ e, escapeChar c = '\\' :: e ∧ ∀ rest, readEscape (e ++ rest) = some (c, rest) := by
  rw [escapeChar]
  by_cases hquote : c = '"'
  · exact .inr ⟨['"'], by rw [if_pos hquote], fun rest => by rw [hquote]; rfl⟩
  rw [if_neg hquote]
  by_cases hback : c = '\\'
  · exact .inr ⟨['\\'], by rw [if_pos hback], fun rest => by rw [hback]; rfl⟩
  rw [if_neg hback]
  by_cases hb : c = '\x08'
  · exact .inr ⟨['b'], by rw [if_pos hb], fun rest => by rw [hb]; rfl⟩
  rw [if_neg hb]
  by_cases hf : c = '\x0c'
  · exact .inr ⟨['f'], by rw [if_pos hf], fun rest => by rw [hf]; rfl⟩
  rw [if_neg hf]
  by_cases hn : c = '\n'
  · exact .inr ⟨['n'], by rw [if_pos hn], fun rest => by rw [hn]; rfl⟩
  rw [if_neg hn]
  by_cases hr : c = '\r'
  · exact .inr ⟨['r'], by rw [if_pos hr], fun rest => by rw [hr]; rfl⟩
  rw [if_neg hr]
  by_cases ht : c = '\t'
  · exact .inr ⟨['t'], by rw [if_pos ht], fun rest => by rw [ht]; rfl⟩
  rw [if_neg ht]
  by_cases hctl : c.toNat < 0x20
  · rw [if_pos hctl]
    exact .inr ⟨_, rfl, fun rest => readUnicode_control hctl rest⟩
  · rw [if_neg hctl]
    exact .inl ⟨rfl, hquote, hback, not_lt.1 hctl⟩

/-- What is written of a string is read back. -/
theorem readChars_write (cs rest : List Char) {fuel : ℕ} (hfuel : cs.length < fuel) :
    readChars fuel (cs.flatMap escapeChar ++ '"' :: rest) = some (cs, rest) := by
  induction cs generalizing fuel with
  | nil =>
    obtain ⟨fuel, rfl⟩ := Nat.exists_eq_succ_of_ne_zero (by omega : fuel ≠ 0)
    simp [readChars]
  | cons c cs ih =>
    obtain ⟨fuel, rfl⟩ := Nat.exists_eq_succ_of_ne_zero (by omega : fuel ≠ 0)
    rw [List.length_cons] at hfuel
    have hrest := ih (show cs.length < fuel by omega)
    rw [List.flatMap_cons, List.append_assoc]
    obtain ⟨hself, hquote, hback, hctl⟩ | ⟨e, hescape, hread⟩ := escapeChar_cases c
    · rw [hself, List.singleton_append, readChars, if_neg hquote, if_neg hback, if_neg (by omega),
        hrest]
      rfl
    · rw [hescape, List.cons_append, readChars, if_neg (by decide), if_pos rfl, hread,
        Option.bind_eq_bind, Option.bind_some]
      simp only [hrest]
      rfl

/-- Escaping shortens no text: the fuel that reads the escaped text goes as far as it needs to. -/
theorem length_le_flatMap_escapeChar (cs : List Char) :
    cs.length ≤ (cs.flatMap escapeChar).length := by
  induction cs with
  | nil => exact Nat.zero_le _
  | cons c cs ih =>
    have hpos : 1 ≤ (escapeChar c).length := by
      obtain ⟨hself, -⟩ | ⟨e, hescape, -⟩ := escapeChar_cases c
      · rw [hself, List.length_singleton]
      · rw [hescape, List.length_cons]
        omega
    rw [List.flatMap_cons, List.length_append, List.length_cons]
    omega

/-- The two quotes are counted as well, so that a text always has fewer characters than its written
form. -/
theorem length_lt_writeString (s : String) : s.toList.length + 1 < (writeString s).length := by
  have h := length_le_flatMap_escapeChar s.toList
  rw [writeString, List.length_cons, List.length_append, List.length_singleton]
  omega

/-- A written text with more behind it, as the reader comes to it: opening quote, escaped
characters, closing quote. -/
theorem writeString_append (s : String) (rest : List Char) :
    writeString s ++ rest = '"' :: (s.toList.flatMap escapeChar ++ '"' :: rest) := by
  rw [writeString, List.cons_append, List.append_assoc, List.singleton_append]

/-- Every text is read back, whatever characters it has: each is either plain or has an escape that
the reader knows. -/
theorem reads_writeString (s : String) : Reads (writeString s) (some (.str s)) := by
  intro fuel rest hfuel _
  obtain ⟨fuel, rfl⟩ := Nat.exists_eq_succ_of_ne_zero (by omega : fuel ≠ 0)
  have hlen := length_lt_writeString s
  have hchars := readChars_write s.toList rest (show s.toList.length < fuel + 1 by omega)
  rw [writeString_append, readValue]
  simp [skipSpace, isSpace, hchars]

/-! ## Arrays and objects from their parts -/

/-- The texts, with a comma and a gap between them. -/
def joinTexts (gap : List Char) (texts : List (List Char)) : List Char :=
    (',' :: gap).intercalate texts

/-- A member of an object. -/
def memberText (gap : List Char) (m : String × List Char) : List Char :=
  writeString m.1 ++ ':' :: (gap ++ m.2)

/-- An array. -/
def arrayText (gap : List Char) (texts : List (List Char)) : List Char :=
    '[' :: (joinTexts gap texts ++ [']'])

/-- An object. -/
def objectText (gap : List Char) (ms : List (String × List Char)) : List Char :=
  '{' :: (joinTexts gap (ms.map (memberText gap)) ++ ['}'])

/-- The texts are read as the items. -/
def ReadsItems (texts : List (List Char)) (items : List Val) : Prop :=
  List.Forall₂ (fun text item => Reads text (some item)) texts items

/-- The keys are those of the members, and the texts are read as their values. -/
def ReadsMembers (ms : List (String × List Char)) (members : List (String × Val)) : Prop :=
  List.Forall₂ (fun m member => m.1 = member.1 ∧ Reads m.2 (some member.2)) ms members

theorem ReadsItems.nil : ReadsItems [] [] := List.Forall₂.nil

/-- The texts of an array are read as its items if each is read as its own. -/
theorem ReadsItems.cons {text : List Char} {item : Val} {texts : List (List Char)}
    {items : List Val}
    (h : Reads text (some item)) (hs : ReadsItems texts items) :
      ReadsItems (text :: texts) (item :: items) :=
  List.Forall₂.cons h hs

theorem ReadsMembers.nil : ReadsMembers [] [] := List.Forall₂.nil

/-- The texts of an object are read as its members, key by key, in their order and with repeated
keys kept. -/
theorem ReadsMembers.cons (key : String) {text : List Char} {val : Val}
    {ms : List (String × List Char)}
    {members : List (String × Val)} (h : Reads text (some val)) (hs : ReadsMembers ms members) :
    ReadsMembers ((key, text) :: ms) ((key, val) :: members) :=
  List.Forall₂.cons ⟨rfl, h⟩ hs

theorem joinTexts_nil (gap : List Char) : joinTexts gap [] = [] := rfl

/-- One text alone is joined without a separator. -/
theorem joinTexts_singleton (gap text : List Char) : joinTexts gap [text] = text :=
  List.intercalate_singleton

/-- Joining peels one text and one separator off at a time. -/
theorem joinTexts_cons_cons (gap text next : List Char) (texts : List (List Char)) :
    joinTexts gap (text :: next :: texts) =
      text ++ ',' :: (gap ++ joinTexts gap (next :: texts)) := by
  rw [joinTexts, List.intercalate_cons_cons, List.append_assoc, List.cons_append, ← joinTexts]

/-- Joining puts a separator in front of each text but the first. -/
theorem joinTexts_flatMap (gap text : List Char) (texts : List (List Char)) :
    joinTexts gap (text :: texts) = text ++ texts.flatMap fun cs => ',' :: (gap ++ cs) := by
  induction texts generalizing text with
  | nil => rw [joinTexts_singleton, List.flatMap_nil, List.append_nil]
  | cons next texts ih => rw [joinTexts_cons_cons, ih, List.flatMap_cons, List.cons_append,
    List.append_assoc]

section

variable {gap : List Char} (hgap : ∀ c ∈ gap, isSpace c = true)
include hgap

/-- An array's items are read from their joined texts. The induction is on the texts, and each item
is read with the rest of the array behind it. -/
theorem readItems_join {texts : List (List Char)} {vs : List Val}
    (h : ReadsItems texts vs) (hne : texts ≠ []) (rest : List Char)
    {fuel : ℕ} (hfuel : (joinTexts gap texts).length + 1 < fuel) :
    readItems fuel (joinTexts gap texts ++ ']' :: rest) = some (vs, rest) := by
  induction h generalizing fuel with
  | nil => exact absurd rfl hne
  | @cons text v texts vs hread hrest ih =>
    obtain ⟨fuel, rfl⟩ := Nat.exists_eq_succ_of_ne_zero (by omega : fuel ≠ 0)
    cases hrest with
    | nil =>
      rw [joinTexts_singleton] at hfuel ⊢
      rw [readItems, hread fuel (']' :: rest) (by omega) (by simp [Ends])]
      simp [skipSpace, isSpace]
    | @cons next w texts vs hnext hrest =>
      rw [joinTexts_cons_cons, List.length_append, List.length_cons, List.length_append] at hfuel
      have htail := ih (List.cons_ne_nil _ _)
        (show (joinTexts gap (next :: texts)).length + 1 < fuel by omega)
      rw [joinTexts_cons_cons, List.append_assoc, List.cons_append, List.append_assoc, readItems,
        hread fuel _ (by omega) (by simp [Ends])]
      simp [skipSpace, isSpace, readItems_append hgap, htail]

/-- An object's members are read from their joined texts, each key before its value, with the rest
of the object behind them. -/
theorem readMembers_join {ms : List (String × List Char)} {vs : List (String × Val)}
    (h : ReadsMembers ms vs) (hne : ms ≠ []) (rest : List Char)
    {fuel : ℕ} (hfuel : (joinTexts gap (ms.map (memberText gap))).length + 1 < fuel) :
    readMembers fuel (joinTexts gap (ms.map (memberText gap)) ++ '}' :: rest) =
      some (vs, rest) := by
  induction h generalizing fuel with
  | nil => exact absurd rfl hne
  | @cons m v ms vs hm hrest ih =>
    obtain ⟨fuel, rfl⟩ := Nat.exists_eq_succ_of_ne_zero (by omega : fuel ≠ 0)
    obtain ⟨key, val⟩ := v
    obtain ⟨hkey, hread⟩ := hm
    -- the key, the colon and the value, whatever follows
    have hmember : ∀ tail, Ends tail → (memberText gap m).length < fuel + 1 →
        skipSpace (memberText gap m ++ tail) =
          '"' :: (m.1.toList.flatMap escapeChar ++ '"' :: ':' :: (gap ++ (m.2 ++ tail))) ∧
        readChars (fuel + 1) (m.1.toList.flatMap escapeChar ++ '"' :: ':' :: (gap ++ (m.2 ++ tail)))
          =
          some (m.1.toList, ':' :: (gap ++ (m.2 ++ tail))) ∧
        readValue fuel (gap ++ (m.2 ++ tail)) = some (val, tail) := by
      intro tail htail hlen
      have hstring := length_lt_writeString m.1
      rw [memberText, List.length_append, List.length_cons, List.length_append] at hlen
      refine ⟨?_, readChars_write _ _ (by omega), ?_⟩
      · rw [memberText, List.append_assoc, writeString_append, List.cons_append, List.append_assoc]
        rfl
      · rw [readValue_append hgap, hread fuel tail (by omega) htail]
        rfl
    cases hrest with
    | nil =>
      rw [List.map_singleton, joinTexts_singleton] at hfuel ⊢
      obtain ⟨hskip, hchars, hvalue⟩ := hmember ('}' :: rest) (by simp [Ends]) (by omega)
      rw [readMembers]
      simp only [hskip, hchars, Option.bind_eq_bind, Option.bind_some]
      simp [skipSpace, isSpace, hvalue, hkey]
    | @cons next w ms vs hnext hrest =>
      rw [List.map_cons, List.map_cons, joinTexts_cons_cons, List.length_append, List.length_cons,
        List.length_append, ← List.map_cons] at hfuel
      have htail := ih (List.cons_ne_nil _ _)
        (show (joinTexts gap ((next :: ms).map (memberText gap))).length + 1 < fuel by omega)
      rw [List.map_cons, List.map_cons, joinTexts_cons_cons, List.append_assoc, List.cons_append,
        List.append_assoc, ← List.map_cons]
      generalize (next :: ms).map (memberText gap) = texts at htail ⊢
      obtain ⟨hskip, hchars, hvalue⟩ :=
        hmember (',' :: (gap ++ (joinTexts gap texts ++ '}' :: rest)))
        (by simp [Ends]) (by omega)
      rw [readMembers]
      simp only [hskip, hchars, Option.bind_eq_bind, Option.bind_some]
      simp [skipSpace, isSpace, hvalue, hkey, readMembers_append hgap, htail]

/-- An array of texts that are read. -/
theorem reads_array {texts : List (List Char)} {vs : List Val}
    (h : ReadsItems texts vs) :
    Reads (arrayText gap texts) (some (.arr vs)) := by
  intro fuel rest hfuel _
  obtain ⟨fuel, rfl⟩ := Nat.exists_eq_succ_of_ne_zero (by omega : fuel ≠ 0)
  rw [arrayText] at hfuel ⊢
  rw [List.length_cons, List.length_append, List.length_singleton] at hfuel
  rw [List.cons_append, List.append_assoc, List.singleton_append]
  cases h with
  | nil => simp [readValue, joinTexts_nil, skipSpace, isSpace]
  | @cons text v texts vs hread hrest =>
    have hitems := readItems_join hgap (List.Forall₂.cons hread hrest) (List.cons_ne_nil _ _) rest
      (show (joinTexts gap (text :: texts)).length + 1 < fuel by omega)
    have hbracket : ∀ tail,
        skipSpace (joinTexts gap (text :: texts) ++ ']' :: rest) ≠ ']' :: tail := by
      intro tail htail
      rw [← readItems_skipSpace, htail] at hitems
      cases fuel with
      | zero => cases hitems
      | succ fuel =>
        cases fuel with
        | zero => simp [readItems, readValue] at hitems
        | succ fuel => simp [readItems, readValue, skipSpace, isSpace, readNumber, readDigits]
          at hitems
    rw [readValue_array hbracket, hitems]
    rfl

/-- An object of members that are read. -/
theorem reads_fields {ms : List (String × List Char)} {vs : List (String × Val)}
    (h : ReadsMembers ms vs) :
    Reads (objectText gap ms) (some (.obj vs)) := by
  intro fuel rest hfuel _
  obtain ⟨fuel, rfl⟩ := Nat.exists_eq_succ_of_ne_zero (by omega : fuel ≠ 0)
  rw [objectText] at hfuel ⊢
  rw [List.length_cons, List.length_append, List.length_singleton] at hfuel
  rw [List.cons_append, List.append_assoc, List.singleton_append]
  cases h with
  | nil => simp [readValue, joinTexts_nil, skipSpace, isSpace]
  | @cons m v ms vs hm hrest =>
    have hmembers := readMembers_join hgap (List.Forall₂.cons hm hrest) (List.cons_ne_nil _ _) rest
      (show (joinTexts gap ((m :: ms).map (memberText gap))).length + 1 < fuel by omega)
    have hbrace : ∀ tail,
        skipSpace (joinTexts gap ((m :: ms).map (memberText gap)) ++ '}' :: rest) ≠ '}' ::
          tail := by
      intro tail htail
      rw [← readMembers_skipSpace, htail] at hmembers
      cases fuel with
      | zero => cases hmembers
      | succ fuel => simp [readMembers, skipSpace, isSpace] at hmembers
    rw [readValue_object hbrace, hmembers]
    rfl

end

/-! ## On one line -/

/-- No control character stands in the text. -/
def OneLine (text : List Char) : Prop := ∀ c ∈ text, 0x20 ≤ c.toNat

/-- A text is on one line if none of its characters is a control character, -/
theorem oneLine_cons {c : Char} {text : List Char} :
    OneLine (c :: text) ↔ 0x20 ≤ c.toNat ∧ OneLine text :=
  List.forall_mem_cons

/-- Whether a text is on one line may be looked at part by part. -/
theorem oneLine_append {text text' : List Char} :
    OneLine (text ++ text') ↔ OneLine text ∧ OneLine text' :=
  List.forall_mem_append

theorem oneLine_nil : OneLine [] := List.forall_mem_nil _

/-- The digits of an escape are no control characters either. -/
theorem toNat_hexChar : ∀ n < 16, 0x20 ≤ (hexChar n).toNat := by decide

/-- A control character is escaped, and its escape has none: this is why what is written stays on
its line. -/
theorem oneLine_escapeChar (c : Char) : OneLine (escapeChar c) := by
  rw [escapeChar]
  split_ifs with _ _ _ _ _ _ _ hctl
  all_goals simp only [oneLine_cons, oneLine_nil, and_true]
  iterate 7 decide
  · -- a control character, by its number
    have hhigh := toNat_hexChar (c.toNat / 16) (by omega)
    have hlow := toNat_hexChar (c.toNat % 16) (by omega)
    simp only [hhigh, hlow]
    decide
  · exact not_lt.1 hctl

/-- A text on one line has no newline, so a log's lines are cut where they were joined. -/
theorem OneLine.newline_notMem {text : List Char} (h : OneLine text) : '\n' ∉ text :=
  fun hmem => absurd (h _ hmem) (by decide)

/-- A number is written in digits. -/
theorem oneLine_toDigits (n : ℕ) : OneLine (Nat.toDigits 10 n) := by
  intro c hc
  have hdigit := Nat.isDigit_of_mem_toDigits (by decide) (by decide) hc
  simp only [Char.isDigit, Bool.and_eq_true, decide_eq_true_eq] at hdigit
  exact le_trans (by decide) (UInt32.le_iff_toNat_le.1 hdigit.1)

/-- A text is written on one line, though it may have newlines itself. -/
theorem oneLine_writeString (s : String) : OneLine (writeString s) := by
  rw [writeString, oneLine_cons, oneLine_append]
  refine ⟨by decide, fun c hc => ?_, oneLine_cons.2 ⟨by decide, oneLine_nil⟩⟩
  obtain ⟨d, -, hd⟩ := List.mem_flatMap.1 hc
  exact oneLine_escapeChar d c hd

section

variable {gap : List Char} (hgap : OneLine gap)
include hgap

/-- Texts on one line are joined on one line, as the gap between them has no control character. -/
theorem oneLine_joinTexts {texts : List (List Char)} (h : ∀ text ∈ texts, OneLine text) :
    OneLine (joinTexts gap texts) := by
  induction texts with
  | nil => exact oneLine_nil
  | cons text texts ih =>
    obtain ⟨htext, htexts⟩ := List.forall_mem_cons.1 h
    cases texts with
    | nil => rwa [joinTexts_singleton]
    | cons next texts =>
      rw [joinTexts_cons_cons, oneLine_append, oneLine_cons, oneLine_append]
      exact ⟨htext, by decide, hgap, ih htexts⟩

/-- An array of texts on one line is on one line. -/
theorem oneLine_arrayText {texts : List (List Char)} (h : ∀ text ∈ texts, OneLine text) :
    OneLine (arrayText gap texts) := by
  rw [arrayText, oneLine_cons, oneLine_append]
  exact ⟨by decide, oneLine_joinTexts hgap h, oneLine_cons.2 ⟨by decide, oneLine_nil⟩⟩

/-- An object is on one line if its values are: its keys are written with escapes. -/
theorem oneLine_objectText {ms : List (String × List Char)} (h : ∀ m ∈ ms, OneLine m.2) :
    OneLine (objectText gap ms) := by
  rw [objectText, oneLine_cons, oneLine_append]
  refine ⟨by
    decide, oneLine_joinTexts hgap fun text htext => ?_, oneLine_cons.2 ⟨by decide, oneLine_nil⟩⟩
  obtain ⟨m, hm, rfl⟩ := List.mem_map.1 htext
  rw [memberText, oneLine_append, oneLine_cons, oneLine_append]
  exact ⟨oneLine_writeString m.1, by decide, hgap, h m hm⟩

end

/-! ## Values -/

/-- How real numbers are held and written. -/
structure RealFormat where
  /-- the double a number is held as, the largest for one that is larger -/
  double : ℚ → ℚ
  /-- the text it is written as -/
  write : ℚ → List Char
  /-- which is read back as the same double -/
  reads : ∀ q, ∃ q', double q' = double q ∧
    ∀ rest, Ends rest → readNumber (write q ++ rest) = some (.real q', rest)

section

variable (F : RealFormat)

/-- A number, written. -/
def writeNum : Num → List Char
  | .uint n => (toString n.val).toList
  | .sint n => (toString (-(n.val : ℤ))).toList
  | .real q => F.write q

mutual

/-- `yyjson_mut_write` with no flags -/
def writeValue : Val → List Char
  | .null => "null".toList
  | .bool b => if b then "true".toList else "false".toList
  | .num n => writeNum F n
  | .str s => writeString s
  | .arr items => arrayText [] (writeItems items)
  | .obj members => objectText [] (writeMembers members)

def writeItems : List Val → List (List Char)
  | [] => []
  | item :: items => writeValue item :: writeItems items

def writeMembers : List (String × Val) → List (String × List Char)
  | [] => []
  | (key, val) :: members => (key, writeValue val) :: writeMembers members

end

/-- A number as it is held: an integer one way, a real as its double. -/
def Num.canon : Num → Num
  | .uint n => .uint n
  | .sint n => Num.ofInt (-(n.val : ℤ))
  | .real q => .real (F.double q)

mutual

/-- A value with its numbers as they are held. -/
def Val.canon : Val → Val
  | .num n => .num (n.canon F)
  | .arr items => .arr (canonItems items)
  | .obj members => .obj (canonMembers members)
  | v => v

def canonItems : List Val → List Val
  | [] => []
  | item :: items => item.canon :: canonItems items

def canonMembers : List (String × Val) → List (String × Val)
  | [] => []
  | (key, val) :: members => (key, val.canon) :: canonMembers members

end

/-- A natural number that fits is kept as unsigned, as yyjson keeps it. -/
theorem Num.ofInt_natCast {n : ℕ} (hn : n < 2 ^ 64) : Num.ofInt n = .uint ⟨n, hn⟩ := by
  rw [Num.ofInt, dif_pos ⟨Int.natCast_nonneg n, hn⟩]
  rfl

/-- A negative number is its own canonical form; for zero, which is not negative, the two forms
agree. -/
theorem Num.canon_ofInt_neg (n : Fin (2 ^ 63 + 1)) :
    (Num.ofInt (-(n.val : ℤ))).canon F = Num.ofInt (-(n.val : ℤ)) := by
  by_cases hn : n.val = 0
  · rw [hn]
    rfl
  · have hneg : ¬ (0 ≤ -(n.val : ℤ) ∧ (-(n.val : ℤ)).toNat < 2 ^ 64) := by omega
    have htoNat : (- -(n.val : ℤ)).toNat = n.val := by omega
    have hofInt : Num.ofInt (-(n.val : ℤ)) = .sint n := by
      rw [Num.ofInt, dif_neg hneg, dif_pos (show (- -(n.val : ℤ)).toNat < 2 ^ 63 + 1 by omega)]
      exact congrArg Num.sint (Fin.ext htoNat)
    rw [hofInt]
    exact hofInt

/-- A number is read back as the same number. -/
theorem reads_writeNum (n : Num) :
    ∃ n', Reads (writeNum F n) (some (.num n')) ∧ n'.canon F = n.canon F := by
  cases n with
  | uint n =>
    have h := reads_nat n.isLt
    rw [Num.ofInt_natCast n.isLt] at h
    exact ⟨_, h, rfl⟩
  | sint n =>
    have hlow : (-2 ^ 63 : ℤ) ≤ -(n.val : ℤ) := by omega
    exact ⟨_, reads_int hlow (by omega), Num.canon_ofInt_neg F n⟩
  | real q =>
    obtain ⟨q', hdouble, hread⟩ := F.reads q
    exact ⟨_, reads_number hread, congrArg Num.real hdouble⟩

theorem reads_null : Reads "null".toList (some .null) := by
  intro fuel rest hfuel _
  obtain ⟨fuel, rfl⟩ := Nat.exists_eq_succ_of_ne_zero (by omega : fuel ≠ 0)
  simp [readValue, skipSpace, isSpace]

mutual

/-- What is written is read back, with its numbers as they are held. -/
theorem reads_writeValue (v : Val) :
    ∃ v', Reads (writeValue F v) (some v') ∧ v'.canon F = v.canon F := by
  cases v with
  | null => exact ⟨_, reads_null, rfl⟩
  | bool b =>
    cases b with
    | false => exact ⟨_, reads_false, rfl⟩
    | true => exact ⟨_, reads_true, rfl⟩
  | num n =>
    obtain ⟨n', hread, hcanon⟩ := reads_writeNum F n
    exact ⟨_, hread, congrArg Val.num hcanon⟩
  | str s => exact ⟨_, reads_writeString s, rfl⟩
  | arr items =>
    obtain ⟨items', hread, hcanon⟩ := reads_writeItems items
    exact ⟨_, reads_array (List.forall_mem_nil _) hread, congrArg Val.arr hcanon⟩
  | obj members =>
    obtain ⟨members', hread, hcanon⟩ := reads_writeMembers members
    exact ⟨_, reads_fields (List.forall_mem_nil _) hread, congrArg Val.obj hcanon⟩

/-- What is written of a list of values is read as one that has the same canonical form: the numbers
may come back in another form of the same value. -/
theorem reads_writeItems (items : List Val) :
    ∃ items', ReadsItems (writeItems F items) items' ∧
      canonItems F items' = canonItems F items := by
  cases items with
  | nil => exact ⟨[], .nil, rfl⟩
  | cons item items =>
    obtain ⟨item', hread, hcanon⟩ := reads_writeValue item
    obtain ⟨items', hreads, hcanons⟩ := reads_writeItems items
    exact ⟨item' :: items', .cons hread hreads, by rw [canonItems, canonItems, hcanon, hcanons]⟩

/-- The same of an object's members, whose keys are kept. -/
theorem reads_writeMembers (members : List (String × Val)) :
    ∃ members', ReadsMembers (writeMembers F members) members' ∧
      canonMembers F members' = canonMembers F members := by
  cases members with
  | nil => exact ⟨[], .nil, rfl⟩
  | cons m members =>
    obtain ⟨key, val⟩ := m
    obtain ⟨val', hread, hcanon⟩ := reads_writeValue val
    obtain ⟨members', hreads, hcanons⟩ := reads_writeMembers members
    refine ⟨(key, val') :: members', hreads.cons key hread, ?_⟩
    rw [canonMembers, canonMembers, hcanon, hcanons]

end

/-! ### Values without reals -/

mutual

/-- Every number is an integer of 64 bits, as it is held. -/
def Val.Integral : Val → Prop
  | .num n => ∃ v : ℤ, -2 ^ 63 ≤ v ∧ v < 2 ^ 64 ∧ n = Num.ofInt v
  | .arr items => IntegralItems items
  | .obj members => IntegralMembers members
  | _ => True

def IntegralItems : List Val → Prop
  | [] => True
  | item :: items => item.Integral ∧ IntegralItems items

def IntegralMembers : List (String × Val) → Prop
  | [] => True
  | (_, val) :: members => val.Integral ∧ IntegralMembers members

end

/-- A list has integers only if each of its values has; the mutual definition in the form that is
used. -/
theorem integralItems_iff {items : List Val} : IntegralItems items ↔ ∀ v ∈ items, v.Integral := by
  induction items with
  | nil => simp [IntegralItems]
  | cons item items ih => simp [IntegralItems, ih]

/-- An integer of 64 bits, of either sign, is read back as it was: no form but its own stands for
it. -/
theorem reads_writeNum_ofInt {v : ℤ} (hlow : -2 ^ 63 ≤ v) (hhigh : v < 2 ^ 64) :
    Reads (writeNum F (Num.ofInt v)) (some (.num (Num.ofInt v))) := by
  by_cases hv : 0 ≤ v
  · obtain ⟨n, rfl⟩ := Int.eq_ofNat_of_zero_le hv
    have hn : n < 2 ^ 64 := by omega
    have h := reads_nat hn
    rwa [Num.ofInt_natCast hn] at h ⊢
  · have h := reads_int hlow (by omega : v < 2 ^ 63)
    have hneg : ¬ (0 ≤ v ∧ v.toNat < 2 ^ 64) := by omega
    have hsmall : (-v).toNat < 2 ^ 63 + 1 := by omega
    have hcast : -((-v).toNat : ℤ) = v := by omega
    rw [Num.ofInt, dif_neg hneg, dif_pos hsmall] at h ⊢
    simpa only [writeNum, hcast] using h

mutual

/-- Such a value is read back as it is. -/
theorem reads_integral {v : Val} (h : v.Integral) : Reads (writeValue F v) (some v) := by
  cases v with
  | null => exact reads_null
  | bool b =>
    cases b with
    | false => exact reads_false
    | true => exact reads_true
  | num n =>
    obtain ⟨v, hlow, hhigh, rfl⟩ := h
    exact reads_writeNum_ofInt F hlow hhigh
  | str s => exact reads_writeString s
  | arr items => exact reads_array (List.forall_mem_nil _) (reads_integralItems h)
  | obj members => exact reads_fields (List.forall_mem_nil _) (reads_integralMembers h)

/-- Without other numbers than integers the round trip of a list is exact. -/
theorem reads_integralItems {items : List Val} (h : IntegralItems items) :
    ReadsItems (writeItems F items) items := by
  cases items with
  | nil => exact .nil
  | cons item items => exact .cons (reads_integral h.1) (reads_integralItems h.2)

/-- Without other numbers than integers the round trip of an object's members is exact. -/
theorem reads_integralMembers {members : List (String × Val)} (h : IntegralMembers members) :
    ReadsMembers (writeMembers F members) members := by
  cases members with
  | nil => exact .nil
  | cons m members =>
    obtain ⟨key, val⟩ := m
    exact (reads_integralMembers h.2).cons key (reads_integral h.1)

end

end

end Yyjson
