import Mathlib.Algebra.Order.BigOperators.Group.List
import UnityCatalog.TypeAgreement

/-!
# The grammar of type texts

Which texts `TypeToLogicalType` reads. The types have a grammar (`IsType`); the parser goes by how a
text begins and by its last '>', and so follows a looser one (`LooseType`). What that one has beyond
the types is told apart by where a text is loose: in the size of a `varchar`, in the numbers of a
`decimal`, behind the last '>', in the name of a field, or in a type inside (`Slack`).
-/

namespace UnityCatalog

open Yyjson

/-! ## The grammar -/

/-- Digits that write a number. -/
def IsNumeral (digits : List Char) (n : ℕ) : Prop :=
  digits ≠ [] ∧ (∀ c ∈ digits, c.isDigit = true) ∧ digitsValue digits = n

/-- The name of a field: without separators and brackets. -/
def IsName (name : List Char) : Prop := name ≠ [] ∧ ∀ c ∈ name, isSeparator c = false

mutual

/-- The text is a type. -/
inductive IsType : List Char → LogicalType → Prop
  | primitive {p : String × LogicalType} : p ∈ sqlTypes → IsType p.1.toList p.2
  | sized {word : String} {digits : List Char} {n : ℕ} : word = "varchar" ∨ word = "char" →
    IsNumeral digits n → IsType (bracketed word '(' digits ')') .varchar
  | decimal {prec scale : List Char} {p s : ℕ} : IsNumeral prec p → IsNumeral scale s →
    1 ≤ p → p ≤ 38 → s ≤ p →
    IsType (bracketed "decimal" '(' (prec ++ ',' :: scale) ')') (.decimal p s)
  | array {element : List Char} {t : LogicalType} : IsType element t →
    IsType (bracketed "array" '<' element '>') (.list t)
  | map {k v : List Char} {key val : LogicalType} : IsType k key → IsType v val →
    IsType (bracketed "map" '<' (k ++ ',' :: v) '>') (.map key val)
  | struct {inner : List Char} {fields : List (String × LogicalType)} : AreFields inner fields →
    IsType (bracketed "struct" '<' inner '>') (.struct fields)

/-- The text is a list of fields, at least one. -/
inductive AreFields : List Char → List (String × LogicalType) → Prop
  | one {name text : List Char} {t : LogicalType} : IsName name → IsType text t →
    AreFields (name ++ ':' :: text) [(String.ofList name, t)]
  | cons {name text rest : List Char} {t : LogicalType} {fields : List (String × LogicalType)} :
    IsName name → IsType text t → AreFields rest fields →
    AreFields ((name ++ ':' :: text) ++ ',' :: rest) ((String.ofList name, t) :: fields)

end

/-! ## The looser grammar -/

/-- The words that stand for `VARCHAR` whatever follows. -/
def IsSizedWord (word : String) : Prop := word = "varchar(" ∨ word = "char("

section

variable (cast : CastUint8)

mutual

/-- A type, loosely written. -/
inductive LooseType : List Char → LogicalType → Prop
  | primitive {p : String × LogicalType} : p ∈ sqlTypes → LooseType p.1.toList p.2
  | sized {word : String} {rest : List Char} : IsSizedWord word →
    LooseType (word.toList ++ rest) .varchar
  | decimal {prec scale behind : List Char} {p s : ℕ} : ',' ∉ prec → ')' ∉ prec → ')' ∉ scale →
    cast (String.ofList prec) = .ok p → cast (String.ofList scale) = .ok s → p ≤ 38 →
    LooseType ("decimal(".toList ++ (prec ++ ',' :: (scale ++ ')' :: behind))) (.decimal p s)
  | array {inner behind : List Char} {t : LogicalType} : '>' ∉ behind → LooseType inner t →
    LooseType ("array<".toList ++ (inner ++ '>' :: behind)) (.list t)
  | map {inner behind k v : List Char} {key val : LogicalType} : '>' ∉ behind →
    childTexts inner = [k, v] → LooseType k key → LooseType v val →
    LooseType ("map<".toList ++ (inner ++ '>' :: behind)) (.map key val)
  | struct {inner behind : List Char} {fields : List (String × LogicalType)} : '>' ∉ behind →
    LooseFields (childTexts inner) fields →
    LooseType ("struct<".toList ++ (inner ++ '>' :: behind)) (.struct fields)

/-- Fields, each of a text of its own. -/
inductive LooseFields : List (List Char) → List (String × LogicalType) → Prop
  | nil : LooseFields [] []
  | cons {name text : List Char} {texts : List (List Char)} {t : LogicalType}
    {fields : List (String × LogicalType)} : ':' ∉ name → LooseType text t →
    LooseFields texts fields →
    LooseFields ((name ++ ':' :: text) :: texts) ((String.ofList name, t) :: fields)

end

mutual

/-- A type, loosely written, that is none. -/
inductive Slack : List Char → Prop
  /-- what stands behind `varchar(` or `char(` is not looked at -/
  | sized {word : String} {rest : List Char} : IsSizedWord word →
    (¬ ∃ digits n, IsNumeral digits n ∧ rest = digits ++ [')']) → Slack (word.toList ++ rest)
  /-- nor is what stands behind the ')' of a decimal; its numbers are what the cast takes, with a
  width that `LogicalType::DECIMAL` takes and a scale of any size -/
  | decimal {prec scale behind : List Char} {p s : ℕ} : ',' ∉ prec → ')' ∉ prec → ')' ∉ scale →
    cast (String.ofList prec) = .ok p → cast (String.ofList scale) = .ok s → p ≤ 38 →
    ¬ (IsNumeral prec p ∧ IsNumeral scale s ∧ 1 ≤ p ∧ s ≤ p ∧ behind = []) →
    Slack ("decimal(".toList ++ (prec ++ ',' :: (scale ++ ')' :: behind)))
  /-- nor what stands behind the last '>' -/
  | arrayBehind {inner behind : List Char} {t : LogicalType} : '>' ∉ behind → behind ≠ [] →
    LooseType cast inner t → Slack ("array<".toList ++ (inner ++ '>' :: behind))
  | arrayInside {inner behind : List Char} : '>' ∉ behind → Slack inner →
    Slack ("array<".toList ++ (inner ++ '>' :: behind))
  | mapBehind {inner behind k v : List Char} {key val : LogicalType} : '>' ∉ behind → behind ≠ [] →
    childTexts inner = [k, v] → LooseType cast k key → LooseType cast v val →
    Slack ("map<".toList ++ (inner ++ '>' :: behind))
  | mapKey {inner behind k v : List Char} {val : LogicalType} : '>' ∉ behind →
    childTexts inner = [k, v] → Slack k → LooseType cast v val →
    Slack ("map<".toList ++ (inner ++ '>' :: behind))
  | mapValue {inner behind k v : List Char} {key : LogicalType} : '>' ∉ behind →
    childTexts inner = [k, v] → LooseType cast k key → Slack v →
    Slack ("map<".toList ++ (inner ++ '>' :: behind))
  | structBehind {inner behind : List Char} {fields : List (String × LogicalType)} : '>' ∉ behind →
    behind ≠ [] → LooseFields cast (childTexts inner) fields →
    Slack ("struct<".toList ++ (inner ++ '>' :: behind))
  | structInside {inner behind : List Char} : '>' ∉ behind → SlackFields (childTexts inner) →
    Slack ("struct<".toList ++ (inner ++ '>' :: behind))

/-- Fields of which one is none. -/
inductive SlackFields : List (List Char) → Prop
  /-- a name is what stands before the first ':' -/
  | name {name text : List Char} {texts : List (List Char)} {t : LogicalType}
    {fields : List (String × LogicalType)} : ':' ∉ name → ¬ IsName name → LooseType cast text t →
    LooseFields cast texts fields → SlackFields ((name ++ ':' :: text) :: texts)
  | type {name text : List Char} {texts : List (List Char)} {fields : List (String × LogicalType)} :
    ':' ∉ name → Slack text → LooseFields cast texts fields →
    SlackFields ((name ++ ':' :: text) :: texts)
  | later {name text : List Char} {texts : List (List Char)} {t : LogicalType} : ':' ∉ name →
    LooseType cast text t → SlackFields texts → SlackFields ((name ++ ':' :: text) :: texts)

end

end

/-- The cast reads digits as the number they write, where it fits, and refuses separators and
brackets. -/
structure CastsNumerals (cast : CastUint8) : Prop where
  numeral : ∀ digits n, IsNumeral digits n → n < 2 ^ 8 → cast (String.ofList digits) = .ok n
  plain : ∀ text n, cast text = .ok n → ∀ c ∈ text.toList, isSeparator c = false

/-! ## Cutting texts -/

/-- The text before the last `c`. -/
theorem beforeLast_append_cons {c : Char} (inner : List Char) {behind : List Char}
    (h : c ∉ behind) :
    beforeLast c (inner ++ c :: behind) = some inner := by
  have hdrop : (inner ++ c :: behind).reverse.dropWhile (· != c) = c :: inner.reverse := by
    have hsplit : (inner ++ c :: behind).reverse = behind.reverse ++ c :: inner.reverse := by simp
    have hall : ∀ b ∈ behind.reverse, (b != c) = true := by
      intro b hb
      rw [bne_iff_ne]
      rintro rfl
      exact h (List.mem_reverse.1 hb)
    rw [hsplit, List.dropWhile_append_of_pos hall]
    simp
  rw [beforeLast, if_pos (by simp), hdrop, List.tail_cons, List.reverse_reverse]

theorem beforeLast_eq_some {c : Char} {text inner : List Char} :
    beforeLast c text = some inner ↔ ∃ behind, text = inner ++ c :: behind ∧ c ∉ behind := by
  constructor
  · intro h
    have hmem : c ∈ text.reverse := by
      rw [beforeLast] at h
      split_ifs at h with hmem
      exact List.mem_reverse.2 hmem
    obtain ⟨as, bs, hsplit, has⟩ := List.eq_append_cons_of_mem hmem
    have htext : text = bs.reverse ++ c :: as.reverse := by
      rw [← List.reverse_reverse text, hsplit]
      simp
    have hbehind : c ∉ as.reverse := mt List.mem_reverse.1 has
    rw [htext, beforeLast_append_cons _ hbehind] at h
    obtain rfl := Option.some.inj h
    exact ⟨as.reverse, htext, hbehind⟩
  · rintro ⟨behind, rfl, h⟩
    exact beforeLast_append_cons inner h

theorem cutAt_eq_some {c : Char} {text before behind : List Char} :
    cutAt c text = some (before, behind) ↔ text = before ++ c :: behind ∧ c ∉ before := by
  constructor
  · intro h
    obtain ⟨i, hi, -⟩ := Option.map_eq_some_iff.1 h
    have hany : text.any (· == c) = true := by
      rw [← List.findIdx?_isSome, hi]
      rfl
    have hmem : c ∈ text := by simpa using hany
    obtain ⟨as, bs, rfl, has⟩ := List.eq_append_cons_of_mem hmem
    rw [cutAt_append_cons has] at h
    obtain ⟨rfl, rfl⟩ := Prod.mk.inj (Option.some.inj h)
    exact ⟨rfl, has⟩
  · rintro ⟨rfl, h⟩
    exact cutAt_append_cons h behind

/-- At its first `c` a text is cut in one way. -/
theorem cut_first_inj {c : Char} {as as' bs bs' : List Char} (ha : c ∉ as) (ha' : c ∉ as')
    (h : as ++ c :: bs = as' ++ c :: bs') : as = as' ∧ bs = bs' := by
  have hcut := cutAt_append_cons ha bs
  rw [h, cutAt_append_cons ha'] at hcut
  obtain ⟨has, hbs⟩ := Prod.mk.inj (Option.some.inj hcut)
  exact ⟨has.symm, hbs.symm⟩

/-- And at its last. -/
theorem cut_last_inj {c : Char} {as as' bs bs' : List Char} (hb : c ∉ bs) (hb' : c ∉ bs')
    (h : as ++ c :: bs = as' ++ c :: bs') : as = as' ∧ bs = bs' := by
  have hcut := beforeLast_append_cons as hb
  rw [h, beforeLast_append_cons as' hb'] at hcut
  obtain rfl := Option.some.inj hcut
  exact ⟨rfl, (List.cons.inj (List.append_cancel_left h)).2⟩

/-- Texts with a ',' between each two. -/
def joinTexts : List (List Char) → List Char
  | [] => []
  | [text] => text
  | text :: texts => text ++ ',' :: joinTexts texts

theorem childTexts_ne_nil (text : List Char) : childTexts text ≠ [] := by
  rw [childTexts]
  split <;> simp

theorem findChildSeparator_head (nested_opens : ℤ) (text : List Char) {c : Char} {rest : List Char}
    (h : (findChildSeparator nested_opens text).2 = c :: rest) : c = ',' := by
  induction text generalizing nested_opens with
  | nil => cases h
  | cons d text ih =>
    rw [findChildSeparator] at h
    split_ifs at h with hgo
    · exact ih _ h
    · obtain ⟨rfl, -⟩ := List.cons.inj h
      simpa using (not_or.1 hgo).1

theorem joinTexts_cons {text : List Char} {texts : List (List Char)} (h : texts ≠ []) :
    joinTexts (text :: texts) = text ++ ',' :: joinTexts texts := by
  cases texts with
  | nil => exact absurd rfl h
  | cons t texts => rfl

/-- The loops lose nothing of the text. -/
theorem joinTexts_childTexts (text : List Char) : joinTexts (childTexts text) = text := by
  fun_induction childTexts text with
  | case1 text child h =>
    have happ := findChildSeparator_append 0 text
    rw [h, List.append_nil] at happ
    exact happ
  | case2 text child c rest h ih =>
    have happ := findChildSeparator_append 0 text
    obtain rfl := findChildSeparator_head 0 text (by rw [h])
    rw [h] at happ
    rw [joinTexts_cons (childTexts_ne_nil rest), ih]
    exact happ

/-! ## The parser, by how the text begins -/

section

variable {cast : CastUint8}

/-- A word with a bracket at its end is none of the names, whatever follows it. -/
theorem find?_sqlTypes_word {word : String} (h : word.toList.any isSeparator = true)
    (rest : List Char) :
    (sqlTypes.find? fun p => p.1.toList == word.toList ++ rest) = none := by
  obtain ⟨c, hc, hsep⟩ := List.any_eq_true.1 h
  exact find?_sqlTypes_eq_none (List.mem_append_left rest hc) hsep

theorem typeOfText_name {p : String × LogicalType} (h : p ∈ sqlTypes) :
    typeOfText cast p.1.toList = .ok p.2 := by
  have hfind : ∀ p ∈ sqlTypes, (sqlTypes.find? fun q => q.1.toList == p.1.toList) = some p := by
    simp [sqlTypes, List.find?]
  rw [typeOfText, hfind p h]

theorem typeOfText_sized {word : String} (h : IsSizedWord word) (rest : List Char) :
    typeOfText cast (word.toList ++ rest) = .ok .varchar := by
  have hsized : ("varchar(".toList.isPrefixOf (word.toList ++ rest) ||
      "char(".toList.isPrefixOf (word.toList ++ rest)) = true := by
    rcases h with rfl | rfl <;> rfl
  have hsep : word.toList.any isSeparator = true := by rcases h with rfl | rfl <;> rfl
  rw [typeOfText, find?_sqlTypes_word hsep]
  simp only [hsized, if_true]

theorem typeOfText_decimal_append (rest : List Char) :
    typeOfText cast ("decimal(".toList ++ rest) =
      decimalFromText cast ("decimal(".toList ++ rest) := by
  have hsized : ("varchar(".toList.isPrefixOf ("decimal(".toList ++ rest) ||
      "char(".toList.isPrefixOf ("decimal(".toList ++ rest)) = false := rfl
  have hdecimal : "decimal(".toList.isPrefixOf ("decimal(".toList ++ rest) = true := rfl
  rw [typeOfText, find?_sqlTypes_word (by decide)]
  simp only [hsized, hdecimal, Bool.false_eq_true, if_false, if_true]

/-- What stands behind the last '>' is not looked at. -/
theorem typeOfText_array_append {inner behind : List Char} (h : '>' ∉ behind) :
    typeOfText cast ("array<".toList ++ (inner ++ '>' :: behind)) = do
      let child_type ← typeOfText cast inner
      return .list child_type := by
  have hinner := beforeLast_append_cons inner h
  generalize inner ++ '>' :: behind = rest at hinner
  have hsized : ("varchar(".toList.isPrefixOf ("array<".toList ++ rest) ||
      "char(".toList.isPrefixOf ("array<".toList ++ rest)) = false := rfl
  have hdecimal : "decimal(".toList.isPrefixOf ("array<".toList ++ rest) = false := rfl
  have harray : "array<".toList.isPrefixOf ("array<".toList ++ rest) = true := rfl
  have hdrop : ("array<".toList ++ rest).drop 6 = rest := rfl
  rw [typeOfText, find?_sqlTypes_word (by decide)]
  simp only [hsized, hdecimal, harray, Bool.false_eq_true, if_false, if_true]
  split <;> rename_i heq <;> rw [hdrop, hinner] at heq
  · cases heq
  · rw [← Option.some.inj heq]

theorem typeOfText_map_append {inner behind : List Char} (h : '>' ∉ behind) {t : LogicalType} :
    typeOfText cast ("map<".toList ++ (inner ++ '>' :: behind)) = .ok t ↔
      ∃ key val, keyVal cast (childTexts inner) = .ok [key, val] ∧ t = .map key val := by
  have hinner := beforeLast_append_cons inner h
  generalize inner ++ '>' :: behind = rest at hinner
  have hsized : ("varchar(".toList.isPrefixOf ("map<".toList ++ rest) ||
      "char(".toList.isPrefixOf ("map<".toList ++ rest)) = false := rfl
  have hdecimal : "decimal(".toList.isPrefixOf ("map<".toList ++ rest) = false := rfl
  have harray : "array<".toList.isPrefixOf ("map<".toList ++ rest) = false := rfl
  have hmap : "map<".toList.isPrefixOf ("map<".toList ++ rest) = true := rfl
  have hdrop : ("map<".toList ++ rest).drop 4 = rest := rfl
  rw [typeOfText, find?_sqlTypes_word (by decide)]
  simp only [hsized, hdecimal, harray, hmap, Bool.false_eq_true, if_false, if_true]
  split <;> rename_i heq <;> rw [hdrop, hinner] at heq
  · cases heq
  · rw [← Option.some.inj heq, except_bind_eq_ok]
    constructor
    · rintro ⟨key_val, hkeyVal, ht⟩
      split at ht
      · next key val => exact ⟨key, val, hkeyVal, (Except.ok.inj ht).symm⟩
      · cases ht
    · rintro ⟨key, val, hkeyVal, rfl⟩
      exact ⟨[key, val], hkeyVal, rfl⟩

theorem typeOfText_struct_append {inner behind : List Char} (h : '>' ∉ behind) :
    typeOfText cast ("struct<".toList ++ (inner ++ '>' :: behind)) = do
      let children ← structChildren cast (childTexts inner)
      return .struct children := by
  have hinner := beforeLast_append_cons inner h
  generalize inner ++ '>' :: behind = rest at hinner
  have hsized : ("varchar(".toList.isPrefixOf ("struct<".toList ++ rest) ||
      "char(".toList.isPrefixOf ("struct<".toList ++ rest)) = false := rfl
  have hdecimal : "decimal(".toList.isPrefixOf ("struct<".toList ++ rest) = false := rfl
  have harray : "array<".toList.isPrefixOf ("struct<".toList ++ rest) = false := rfl
  have hmap : "map<".toList.isPrefixOf ("struct<".toList ++ rest) = false := rfl
  have hstruct : "struct<".toList.isPrefixOf ("struct<".toList ++ rest) = true := rfl
  have hdrop : ("struct<".toList ++ rest).drop 7 = rest := rfl
  rw [typeOfText, find?_sqlTypes_word (by decide)]
  simp only [hsized, hdecimal, harray, hmap, hstruct, Bool.false_eq_true, if_false, if_true]
  split <;> rename_i heq <;> rw [hdrop, hinner] at heq
  · cases heq
  · rw [← Option.some.inj heq]

/-- A text that is read is one of the names, or begins with one of the words. -/
theorem begins_of_typeOfText {s : List Char} {t : LogicalType} (h : typeOfText cast s = .ok t) :
    (∃ p ∈ sqlTypes, s = p.1.toList ∧ t = p.2) ∨
    (∃ word rest, IsSizedWord word ∧ s = word.toList ++ rest) ∨
    (∃ rest, s = "decimal(".toList ++ rest) ∨
    (∃ inner behind, s = "array<".toList ++ (inner ++ '>' :: behind) ∧ '>' ∉ behind) ∨
    (∃ inner behind, s = "map<".toList ++ (inner ++ '>' :: behind) ∧ '>' ∉ behind) ∨
    ∃ inner behind, s = "struct<".toList ++ (inner ++ '>' :: behind) ∧ '>' ∉ behind := by
  have hbegins : ∀ word : String, word.toList.isPrefixOf s = true → ∃ rest,
      s = word.toList ++ rest := by
    intro word hword
    obtain ⟨rest, hrest⟩ := List.isPrefixOf_iff_prefix.1 hword
    exact ⟨rest, hrest.symm⟩
  have hlast : ∀ (word : String) (inner : List Char), word.toList.isPrefixOf s = true →
      beforeLast '>' (s.drop word.toList.length) = some inner →
      ∃ inner behind, s = word.toList ++ (inner ++ '>' :: behind) ∧ '>' ∉ behind := by
    intro word inner hword hinner
    obtain ⟨rest, rfl⟩ := hbegins word hword
    rw [List.drop_left] at hinner
    obtain ⟨behind, rfl, hbehind⟩ := beforeLast_eq_some.1 hinner
    exact ⟨inner, behind, rfl, hbehind⟩
  rw [typeOfText] at h
  split at h
  · next p hp =>
    have hname := List.find?_some hp
    refine .inl ⟨p, List.mem_of_find?_eq_some hp, (beq_iff_eq.1 hname).symm, (Except.ok.inj h).symm⟩
  split_ifs at h with hsized hdecimal harray hmap hstruct
  · rcases (Bool.or_eq_true _ _).mp hsized with hword | hword
    · obtain ⟨rest, hrest⟩ := hbegins _ hword
      exact .inr (.inl ⟨"varchar(", rest, .inl rfl, hrest⟩)
    · obtain ⟨rest, hrest⟩ := hbegins _ hword
      exact .inr (.inl ⟨"char(", rest, .inr rfl, hrest⟩)
  · exact .inr (.inr (.inl (hbegins _ hdecimal)))
  · split at h
    · cases h
    · next inner hinner => exact .inr (.inr (.inr (.inl (hlast _ inner harray hinner))))
  · split at h
    · cases h
    · next inner hinner => exact .inr (.inr (.inr (.inr (.inl (hlast _ inner hmap hinner)))))
  · split at h
    · cases h
    · next inner hinner => exact .inr (.inr (.inr (.inr (.inr (hlast _ inner hstruct hinner)))))

/-- A map's texts are read in turn. -/
theorem keyVal_eq_ok {texts : List (List Char)} {types : List LogicalType} :
    keyVal cast texts = .ok types ↔
      List.Forall₂ (fun text t => typeOfText cast text = .ok t) texts types := by
  induction texts generalizing types with
  | nil =>
    rw [keyVal, List.forall₂_nil_left_iff]
    exact ⟨fun h => (Except.ok.inj h).symm, fun h => congrArg Except.ok h.symm⟩
  | cons text texts ih =>
    rw [keyVal, List.forall₂_cons_left_iff, except_bind_eq_ok]
    constructor
    · rintro ⟨t, ht, h⟩
      obtain ⟨types', htypes, h⟩ := except_bind_eq_ok.1 h
      exact ⟨t, types', ht, ih.1 htypes, (Except.ok.inj h).symm⟩
    · rintro ⟨t, types', ht, htypes, rfl⟩
      exact ⟨t, ht, except_bind_eq_ok.2 ⟨types', ih.2 htypes, rfl⟩⟩

/-- A field's text is cut at its first ':'. -/
theorem structChildren_cons_eq_ok {text : List Char} {texts : List (List Char)}
    {fields : List (String × LogicalType)} :
    structChildren cast (text :: texts) = .ok fields ↔ ∃ name type_text t rest,
      text = name ++ ':' :: type_text ∧ ':' ∉ name ∧ typeOfText cast type_text = .ok t ∧
      structChildren cast texts = .ok rest ∧ fields = (String.ofList name, t) :: rest := by
  rw [structChildren]
  constructor
  · intro h
    split at h
    · cases h
    · next name type_text hcut =>
      obtain ⟨htext, hname⟩ := cutAt_eq_some.1 hcut
      obtain ⟨t, ht, h⟩ := except_bind_eq_ok.1 h
      obtain ⟨rest, hrest, h⟩ := except_bind_eq_ok.1 h
      exact ⟨name, type_text, t, rest, htext, hname, ht, hrest, (Except.ok.inj h).symm⟩
  · rintro ⟨name, type_text, t, rest, rfl, hname, ht, hrest, rfl⟩
    split <;> rename_i heq <;> rw [cutAt_append_cons hname] at heq
    · cases heq
    · obtain ⟨rfl, rfl⟩ := Prod.mk.inj (Option.some.inj heq)
      rw [ht, hrest]
      rfl

theorem notMem_word_append {word : String} {c : Char} (h : word.toList.all (· != c) = true)
    {as : List Char} (has : c ∉ as) : c ∉ word.toList ++ as := by
  rw [List.mem_append, not_or]
  refine ⟨?_, has⟩
  intro hmem
  exact absurd (List.all_eq_true.1 h c hmem) (by simp)

/-- Where a character that is not in the word stands. -/
theorem findIdx?_word (word : String) {c : Char} (h : word.toList.all (· != c) = true)
    {as : List Char} (has : c ∉ as) (bs : List Char) :
    (word.toList ++ (as ++ c :: bs)).findIdx? (· == c) = some (word.toList.length + as.length) := by
  rw [← List.append_assoc, findIdx?_append_cons (notMem_word_append h has), List.length_append]

theorem findIdx?_word_none (word : String) {c : Char} (h : word.toList.all (· != c) = true)
    {as : List Char} (has : c ∉ as) : (word.toList ++ as).findIdx? (· == c) = none := by
  rw [List.findIdx?_eq_none_iff]
  intro d hd
  rw [beq_eq_false_iff_ne]
  rintro rfl
  exact notMem_word_append h has hd

/-- A ',' before the first ')' parts the two numbers. -/
theorem decimalFromText_cut {prec scale : List Char} (hcomma : ',' ∉ prec) (hprec : ')' ∉ prec)
    (hscale : ')' ∉ scale) (behind : List Char) :
    decimalFromText cast ("decimal(".toList ++ (prec ++ ',' :: (scale ++ ')' :: behind))) = (do
      let p ← cast (String.ofList prec)
      let s ← cast (String.ofList scale)
      LogicalType.DECIMAL p s) := by
  have hsep := findIdx?_word "decimal(" (by decide) hcomma (scale ++ ')' :: behind)
  have hend : ("decimal(".toList ++ (prec ++ ',' :: (scale ++ ')' :: behind))).findIdx? (· == ')') =
      some (8 + (prec.length + (1 + scale.length))) := by
    have hnot : ')' ∉ prec ++ ([','] ++ scale) := by simp [hprec, hscale]
    have hsplit : prec ++ ',' :: (scale ++ ')' :: behind) =
        (prec ++ ([','] ++ scale)) ++ ')' :: behind := by
      simp
    rw [hsplit, findIdx?_word "decimal(" (by decide) hnot, List.length_append, List.length_append]
    rfl
  have hword : "decimal(".toList.length = 8 := rfl
  have hdrop : ("decimal(".toList ++ (prec ++ ',' :: (scale ++ ')' :: behind))).drop 8 =
      prec ++ ',' :: (scale ++ ')' :: behind) := rfl
  have hbehind :
    ("decimal(".toList ++ (prec ++ ',' :: (scale ++ ')' :: behind))).drop (8 + prec.length + 1) =
      scale ++ ')' :: behind := by
    rw [Nat.add_assoc, ← List.drop_drop, hdrop, ← List.drop_drop, List.drop_left' rfl]
    rfl
  have hn : 8 + prec.length - 8 = prec.length := by omega
  have hm : 8 + (prec.length + (1 + scale.length)) - (8 + prec.length) - 1 = scale.length :=
    by omega
  rw [decimalFromText, hend, hsep]
  simp only [hword, hn, hm,
    if_pos (show 8 + prec.length < 8 + (prec.length + (1 + scale.length)) by omega), hdrop, hbehind,
    List.take_left]

/-- Without one, the precision has the ')' in it, which no number has. -/
theorem comma_before_paren (hcast : CastsNumerals cast) {before behind : List Char}
    {t : LogicalType} (hbefore : ')' ∉ before)
    (h : decimalFromText cast ("decimal(".toList ++ (before ++ ')' :: behind)) = .ok t) :
      ',' ∈ before := by
  by_contra hcomma
  have hrefuses : ∀ text (n : ℕ), ')' ∈ text → cast (String.ofList text) ≠ .ok n := by
    intro text n hmem hok
    have hplain := hcast.plain _ _ hok ')' (by rwa [String.toList_ofList])
    exact absurd hplain (by decide)
  have hend := findIdx?_word "decimal(" (by decide) hbefore behind
  have hword : "decimal(".toList.length = 8 := rfl
  have hdrop : ("decimal(".toList ++ (before ++ ')' :: behind)).drop 8 =
    before ++ ')' :: behind := rfl
  rw [decimalFromText, hend] at h
  by_cases hmem : ',' ∈ behind
  · obtain ⟨as, bs, rfl, has⟩ := List.eq_append_cons_of_mem hmem
    have hnot : ',' ∉ before ++ ')' :: as := by simp [hcomma, has]
    have hsep := findIdx?_word "decimal(" (by decide) hnot bs
    have hsplit : before ++ ')' :: (as ++ ',' :: bs) = (before ++ ')' :: as) ++ ',' :: bs := by simp
    rw [hsplit] at h hdrop
    have hn : 8 + (before ++ ')' :: as).length - 8 = (before ++ ')' :: as).length := by omega
    rw [hsep] at h
    simp only [hword, hdrop, hn, List.take_left] at h
    obtain ⟨p, hp, -⟩ := except_bind_eq_ok.1 h
    exact hrefuses _ p (by simp) hp
  · have hnot : ',' ∉ before ++ ')' :: behind := by simp [hcomma, hmem]
    rw [findIdx?_word_none "decimal(" (by decide) hnot] at h
    simp only [hdrop] at h
    obtain ⟨p, hp, -⟩ := except_bind_eq_ok.1 h
    exact hrefuses _ p (by simp) hp

theorem decimalFromText_eq_ok (hcast : CastsNumerals cast) {rest : List Char} {t : LogicalType}
    (h : decimalFromText cast ("decimal(".toList ++ rest) = .ok t) : ∃ prec scale behind p s,
      rest = prec ++ ',' :: (scale ++ ')' :: behind) ∧ ',' ∉ prec ∧ ')' ∉ prec ∧ ')' ∉ scale ∧
      cast (String.ofList prec) = .ok p ∧ cast (String.ofList scale) = .ok s ∧ p ≤ 38 ∧
        t = .decimal p s := by
  have hmem : ')' ∈ rest := by
    by_contra hnot
    rw [decimalFromText, findIdx?_word_none "decimal(" (by decide) hnot] at h
    cases h
  obtain ⟨before, behind, rfl, hbefore⟩ := List.eq_append_cons_of_mem hmem
  obtain ⟨prec, scale, rfl, hprec⟩ :=
    List.eq_append_cons_of_mem (comma_before_paren hcast hbefore h)
  obtain ⟨hparen, hscale⟩ : ')' ∉ prec ∧ ')' ∉ scale := by
    simpa [not_or] using hbefore
  have hsplit : (prec ++ ',' :: scale) ++ ')' :: behind = prec ++ ',' :: (scale ++ ')' :: behind) :=
    by simp
  rw [hsplit] at h ⊢
  rw [decimalFromText_cut hprec hparen hscale] at h
  obtain ⟨p, hp, h⟩ := except_bind_eq_ok.1 h
  obtain ⟨s, hs, h⟩ := except_bind_eq_ok.1 h
  exact ⟨prec, scale, behind, p, s, rfl, hprec, hparen, hscale, hp, hs,
    LogicalType.DECIMAL_eq_ok.1 h⟩

/-! ## What is read -/

/-- Fields are read when their types are. -/
theorem looseFields_of_structChildren {texts : List (List Char)}
    {fields : List (String × LogicalType)}
    (hread : ∀ text ∈ texts, ∀ type_text : List Char, type_text.length < text.length →
      ∀ t, typeOfText cast type_text = .ok t → LooseType cast type_text t)
    (h : structChildren cast texts = .ok fields) : LooseFields cast texts fields := by
  induction texts generalizing fields with
  | nil =>
    rw [structChildren] at h
    obtain rfl := Except.ok.inj h
    exact .nil
  | cons text texts ih =>
    obtain ⟨name, type_text, t, rest, rfl, hname, ht, hrest, rfl⟩ := structChildren_cons_eq_ok.1 h
    have hshort : type_text.length < (name ++ ':' :: type_text).length := by
      rw [List.length_append, List.length_cons]
      omega
    refine .cons hname (hread _ List.mem_cons_self _ hshort t ht) (ih ?_ hrest)
    intro text' hmem
    exact hread text' (List.mem_cons_of_mem _ hmem)

theorem length_le_of_mem_childTexts {text child : List Char} (h : child ∈ childTexts text) :
    child.length ≤ text.length := by
  have hsum := length_childTexts text
  have hle := List.le_sum_of_mem (List.mem_map_of_mem (f := fun child => child.length + 1) h)
  omega

/-- By induction on the length: what stands in a bracket is shorter. -/
theorem looseType_of_typeOfText (hcast : CastsNumerals cast) (n : ℕ) :
    ∀ (s : List Char), s.length < n → ∀ t, typeOfText cast s = .ok t → LooseType cast s t := by
  -- on a bound for the length, as each child is shorter than its type
  induction n with
  | zero =>
    intro s hs
    omega
  | succ n ih =>
    intro s hs t h
    -- what stands in the brackets is shorter than the whole
    have hinner : ∀ {word : String} {inner behind : List Char},
      s = word.toList ++ (inner ++ '>' :: behind) →
        inner.length < n := by
      rintro word inner behind rfl
      simp only [List.length_append, List.length_cons] at hs
      omega
    obtain ⟨p, hp, rfl, rfl⟩ | ⟨word, rest, hword, rfl⟩ | ⟨rest, rfl⟩ | ⟨inner, behind, hs',
      hbehind⟩ |
      ⟨inner, behind, hs', hbehind⟩ | ⟨inner, behind, hs', hbehind⟩ := begins_of_typeOfText h
    · exact .primitive hp
    · rw [typeOfText_sized hword] at h
      obtain rfl := Except.ok.inj h
      exact .sized hword
    · rw [typeOfText_decimal_append] at h
      obtain ⟨prec, scale, behind, p, s, rfl, hcomma, hprec, hscale, hp, hs, hle, rfl⟩ :=
        decimalFromText_eq_ok hcast h
      exact .decimal hcomma hprec hscale hp hs hle
    · rw [hs', typeOfText_array_append hbehind] at h
      obtain ⟨child, hchild, h⟩ := except_bind_eq_ok.1 h
      obtain rfl := Except.ok.inj h
      rw [hs']
      exact .array hbehind (ih inner (hinner hs') child hchild)
    · rw [hs', typeOfText_map_append hbehind] at h
      obtain ⟨key, val, hkeyVal, rfl⟩ := h
      have hall := keyVal_eq_ok.1 hkeyVal
      -- a map has exactly two children
      generalize hchildren : childTexts inner = texts at hall
      cases hall with | cons hkey hall =>
      cases hall with | cons hval hall =>
      cases hall
      have hlen : ∀ child ∈ childTexts inner, child.length < n := fun child hmem =>
        lt_of_le_of_lt (length_le_of_mem_childTexts hmem) (hinner hs')
      rw [hchildren] at hlen
      rw [hs']
      exact .map hbehind hchildren (ih _ (hlen _ (by simp)) key hkey)
        (ih _ (hlen _ (by simp)) val hval)
    · rw [hs', typeOfText_struct_append hbehind] at h
      obtain ⟨children, hchildren, h⟩ := except_bind_eq_ok.1 h
      obtain rfl := Except.ok.inj h
      rw [hs']
      refine .struct hbehind (looseFields_of_structChildren ?_ hchildren)
      intro text hmem type_text hlt t ht
      have hle := length_le_of_mem_childTexts hmem
      have hlt' := hinner hs'
      exact ih type_text (by omega) t ht

mutual

theorem LooseType.typeOfText {s : List Char} {t : LogicalType} (h : LooseType cast s t) :
    typeOfText cast s = .ok t := by
  cases h with
  | primitive hp => exact typeOfText_name hp
  | sized hword => exact typeOfText_sized hword _
  | decimal hcomma hprec hscale hp hs hle =>
    rw [typeOfText_decimal_append, decimalFromText_cut hcomma hprec hscale, hp, hs]
    exact LogicalType.DECIMAL_eq_ok.2 ⟨hle, rfl⟩
  | array hbehind hinner =>
    rw [typeOfText_array_append hbehind, hinner.typeOfText]
    rfl
  | map hbehind hchildren hkey hval =>
    refine (typeOfText_map_append hbehind).2 ⟨_, _, ?_, rfl⟩
    rw [hchildren]
    exact keyVal_eq_ok.2 (.cons hkey.typeOfText (.cons hval.typeOfText .nil))
  | struct hbehind hfields =>
    rw [typeOfText_struct_append hbehind, hfields.structChildren]
    rfl

theorem LooseFields.structChildren {texts : List (List Char)} {fields : List (String × LogicalType)}
    (h : LooseFields cast texts fields) : structChildren cast texts = .ok fields := by
  cases h with
  | nil => rw [UnityCatalog.structChildren]
  | cons hname htype hfields =>
    exact structChildren_cons_eq_ok.2
      ⟨_, _, _, _, rfl, hname, htype.typeOfText, hfields.structChildren, rfl⟩

end

theorem typeOfText_eq_ok (hcast : CastsNumerals cast) {s : List Char} {t : LogicalType} :
    typeOfText cast s = .ok t ↔ LooseType cast s t :=
  ⟨looseType_of_typeOfText hcast _ s (Nat.lt_succ_self _) t, LooseType.typeOfText⟩

/-! ## Types are read -/

/-- A bracketed text, as the parser takes it apart. -/
theorem bracketed_eq (word : String) (opening : Char) (inner : List Char) (closing : Char) :
    bracketed word opening inner closing =
      (word.toList ++ [opening]) ++ (inner ++ closing :: []) := by
  simp [bracketed]

/-- The numbers of a decimal, as the parser takes them apart. -/
theorem bracketed_decimal (prec scale : List Char) :
    bracketed "decimal" '(' (prec ++ ',' :: scale) ')' =
      "decimal(".toList ++ (prec ++ ',' :: (scale ++ ')' :: [])) :=
  decimal_text prec scale

theorem IsNumeral.plain {digits : List Char} {n : ℕ} (h : IsNumeral digits n) :
    ∀ c ∈ digits, isSeparator c = false := by
  intro c hc
  have hdigit := h.2.1 c hc
  rw [← Bool.not_eq_true]
  intro hsep
  simp only [isSeparator, Bool.or_eq_true, beq_iff_eq] at hsep
  clear hc
  rcases hsep with ((((rfl | rfl) | rfl) | rfl) | rfl) | rfl <;> exact absurd hdigit (by decide)

theorem notMem_of_plain {text : List Char} (h : ∀ c ∈ text, isSeparator c = false) {c : Char}
    (hc : isSeparator c = true) : c ∉ text := by
  intro hmem
  rw [h c hmem] at hc
  cases hc

theorem plain_of_mem_sqlTypes {p : String × LogicalType} (h : p ∈ sqlTypes) :
    ∀ c ∈ p.1.toList, isSeparator c = false := by
  have hall : (sqlTypes.all fun p => p.1.toList.all fun c => !isSeparator c) = true := by decide
  exact plain_of_all (List.all_eq_true.1 hall p h)

theorem passes_field {name text : List Char} (hname : IsName name) (h : Passes 0 text) :
    Passes 0 (name ++ ':' :: text) := by
  apply (passes_of_plain hname.2).append
  exact h.cons (by decide) fun d => by simp [nestedOpens]

mutual

/-- The splitter passes over a type. -/
theorem IsType.passes {s : List Char} {t : LogicalType} (h : IsType s t) : Passes 0 s := by
  cases h with
  | primitive hp => exact passes_of_plain (plain_of_mem_sqlTypes hp)
  | sized hword hdigits =>
    refine Passes.append (passes_of_plain ?_)
      (Passes.bracket (.inr rfl) (.inr rfl) (passes_of_plain hdigits.plain))
    rcases hword with rfl | rfl <;> exact plain_of_all (by decide)
  | decimal hprec hscale =>
    have hname : Passes 0 "decimal".toList := passes_of_plain (plain_of_all (by decide))
    refine hname.append (Passes.bracket (.inr rfl) (.inr rfl) ?_)
    exact (passes_of_plain hprec.plain).append (passes_comma le_rfl (passes_of_plain hscale.plain))
  | array helement =>
    have hname : Passes 0 "array".toList := passes_of_plain (plain_of_all (by decide))
    exact hname.append (Passes.bracket (.inl rfl) (.inl rfl) (helement.passes.mono (by decide)))
  | map hkey hval =>
    have hname : Passes 0 "map".toList := passes_of_plain (plain_of_all (by decide))
    have hkey' : Passes 1 _ := hkey.passes.mono (by decide)
    have hval' : Passes 1 _ := hval.passes.mono (by decide)
    exact hname.append
      (Passes.bracket (.inl rfl) (.inl rfl) (hkey'.append (passes_comma le_rfl hval')))
  | struct hfields =>
    have hname : Passes 0 "struct".toList := passes_of_plain (plain_of_all (by decide))
    exact hname.append (Passes.bracket (.inl rfl) (.inl rfl) hfields.passes)

/-- In a bracket it passes over fields. -/
theorem AreFields.passes {text : List Char} {fields : List (String × LogicalType)}
    (h : AreFields text fields) : Passes 1 text := by
  cases h with
  | one hname htype =>
    exact (passes_field hname htype.passes).mono (by decide)
  | cons hname htype hfields =>
    exact ((passes_field hname htype.passes).mono (by decide)).append
      (passes_comma le_rfl hfields.passes)

end

mutual

theorem IsType.loose (hcast : CastsNumerals cast) {s : List Char} {t : LogicalType}
    (h : IsType s t) : LooseType cast s t := by
  cases h with
  | primitive hp => exact .primitive hp
  | @sized word digits n hword hdigits =>
    rcases hword with rfl | rfl
    · show LooseType cast ("varchar(".toList ++ (digits ++ [')'])) .varchar
      exact .sized (.inl rfl)
    · show LooseType cast ("char(".toList ++ (digits ++ [')'])) .varchar
      exact .sized (.inr rfl)
  | decimal hprec hscale hpos hle hscaleLe =>
    rw [bracketed_decimal]
    exact .decimal (notMem_of_plain hprec.plain (by decide))
      (notMem_of_plain hprec.plain (by decide))
      (notMem_of_plain hscale.plain (by decide)) (hcast.numeral _ _ hprec (by omega))
      (hcast.numeral _ _ hscale (by omega)) hle
  | array helement =>
    rw [bracketed_eq]
    exact .array (List.not_mem_nil) (helement.loose hcast)
  | map hkey hval =>
    rw [bracketed_eq]
    refine .map (List.not_mem_nil) ?_ (hkey.loose hcast) (hval.loose hcast)
    rw [childTexts_comma hkey.passes, childTexts_of_passes hval.passes]
  | struct hfields =>
    rw [bracketed_eq]
    exact .struct (List.not_mem_nil) (hfields.loose hcast)

theorem AreFields.loose (hcast : CastsNumerals cast) {text : List Char}
    {fields : List (String × LogicalType)} (h : AreFields text fields) :
    LooseFields cast (childTexts text) fields := by
  cases h with
  | one hname htype =>
    rw [childTexts_of_passes (passes_field hname htype.passes)]
    exact .cons (notMem_of_plain hname.2 (by decide)) (htype.loose hcast) .nil
  | cons hname htype hfields =>
    rw [childTexts_comma (passes_field hname htype.passes)]
    exact .cons (notMem_of_plain hname.2 (by decide)) (htype.loose hcast) (hfields.loose hcast)

end

/-! ## What is read is a type, or loose -/

mutual

theorem LooseType.isType_or_slack {s : List Char} {t : LogicalType} (h : LooseType cast s t) :
    IsType s t ∨ Slack cast s := by
  cases h with
  | primitive hp => exact .inl (.primitive hp)
  | @sized word rest hword =>
    -- what the parser lets pass in each form, and what the grammar asks of it
    by_cases hsize : ∃ digits n, IsNumeral digits n ∧ rest = digits ++ [')']
    · obtain ⟨digits, n, hdigits, rfl⟩ := hsize
      left
      rcases hword with rfl | rfl
      · exact .sized (.inl rfl) hdigits
      · exact .sized (.inr rfl) hdigits
    · exact .inr (.sized hword hsize)
  | @decimal prec scale behind p s hcomma hprec hscale hp hs hle =>
    by_cases hgood : IsNumeral prec p ∧ IsNumeral scale s ∧ 1 ≤ p ∧ s ≤ p ∧ behind = []
    · obtain ⟨hprecNumeral, hscaleNumeral, hpos, hscaleLe, rfl⟩ := hgood
      left
      rw [← bracketed_decimal]
      exact .decimal hprecNumeral hscaleNumeral hpos hle hscaleLe
    · exact .inr (.decimal hcomma hprec hscale hp hs hle hgood)
  | @array inner behind child hbehind hinner =>
    by_cases hnil : behind = []
    · subst hnil
      rcases hinner.isType_or_slack with htype | hslack
      · exact .inl (.array htype)
      · exact .inr (.arrayInside hbehind hslack)
    · exact .inr (.arrayBehind hbehind hnil hinner)
  | @map inner behind k v key val hbehind hchildren hkey hval =>
    by_cases hnil : behind = []
    · subst hnil
      rcases hkey.isType_or_slack with hkeyType | hslack
      · rcases hval.isType_or_slack with hvalType | hslack
        · -- two children are a text with one comma between them
          have hinner : inner = k ++ ',' :: v := by
            rw [← joinTexts_childTexts inner, hchildren]
            rfl
          rw [hinner]
          exact .inl (.map hkeyType hvalType)
        · exact .inr (.mapValue hbehind hchildren hkey hslack)
      · exact .inr (.mapKey hbehind hchildren hslack hval)
    · exact .inr (.mapBehind hbehind hnil hchildren hkey hval)
  | @struct inner behind fields hbehind hfields =>
    by_cases hnil : behind = []
    · subst hnil
      rcases hfields.areFields_or_slack (childTexts_ne_nil inner) with hare | hslack
      · rw [joinTexts_childTexts] at hare
        exact .inl (.struct hare)
      · exact .inr (.structInside hbehind hslack)
    · exact .inr (.structBehind hbehind hnil hfields)

theorem LooseFields.areFields_or_slack {texts : List (List Char)}
    {fields : List (String × LogicalType)} (h : LooseFields cast texts fields) (hne : texts ≠ []) :
    AreFields (joinTexts texts) fields ∨ SlackFields cast texts := by
  cases h with
  | nil => exact absurd rfl hne
  | @cons name text texts t fields hname htype hfields =>
    by_cases hisName : IsName name
    · rcases htype.isType_or_slack with htype' | hslack
      · by_cases hnil : texts = []
        · subst hnil
          cases hfields
          exact .inl (.one hisName htype')
        · rcases hfields.areFields_or_slack hnil with hare | hslack
          · rw [joinTexts_cons hnil]
            exact .inl (.cons hisName htype' hare)
          · exact .inr (.later hname htype hslack)
      · exact .inr (.type hname hslack hfields)
    · exact .inr (.name hname hisName htype hfields)

end

/-- What is loose is read. -/
theorem Slack.loose {s : List Char} (h : Slack cast s) : ∃ t, LooseType cast s t := by
  refine @Slack.rec cast (fun s _ => ∃ t, LooseType cast s t)
    (fun texts _ => ∃ fields, LooseFields cast texts fields) ?sized ?decimal ?arrayBehind
      ?arrayInside
    ?mapBehind ?mapKey ?mapValue ?structBehind ?structInside ?name ?type ?later s h
  case sized =>
    intro word rest hword hsize
    exact ⟨_, .sized hword⟩
  case decimal =>
    intro prec scale behind p s hcomma hprec hscale hp hs hle hbad
    exact ⟨_, .decimal hcomma hprec hscale hp hs hle⟩
  case arrayBehind =>
    intro inner behind t hbehind hne hinner
    exact ⟨_, .array hbehind hinner⟩
  case arrayInside =>
    rintro inner behind hbehind hslack ⟨t, ht⟩
    exact ⟨_, .array hbehind ht⟩
  case mapBehind =>
    intro inner behind k v key val hbehind hne hchildren hkey hval
    exact ⟨_, .map hbehind hchildren hkey hval⟩
  case mapKey =>
    rintro inner behind k v val hbehind hchildren hslack hval ⟨t, ht⟩
    exact ⟨_, .map hbehind hchildren ht hval⟩
  case mapValue =>
    rintro inner behind k v key hbehind hchildren hkey hslack ⟨t, ht⟩
    exact ⟨_, .map hbehind hchildren hkey ht⟩
  case structBehind =>
    intro inner behind fields hbehind hne hfields
    exact ⟨_, .struct hbehind hfields⟩
  case structInside =>
    rintro inner behind hbehind hslack ⟨fields, hfields⟩
    exact ⟨_, .struct hbehind hfields⟩
  case name =>
    intro name text texts t fields hname hnot htype hfields
    exact ⟨_, .cons hname htype hfields⟩
  case type =>
    rintro name text texts fields hname hslack hfields ⟨t, ht⟩
    exact ⟨_, .cons hname ht hfields⟩
  case later =>
    rintro name text texts t hname htype hslack ⟨fields, hfields⟩
    exact ⟨_, .cons hname htype hfields⟩

/-! ## What is loose is no type -/

/-- A loose text has a bracket in it. -/
theorem Slack.separator {s : List Char} (h : Slack cast s) : ∃ c ∈ s, isSeparator c = true := by
  cases h with
  | sized hword =>
    rcases hword with rfl | rfl <;> exact ⟨'(', List.mem_append_left _ (by decide), rfl⟩
  | decimal => exact ⟨'(', List.mem_append_left _ (by decide), rfl⟩
  | _ => exact ⟨'<', List.mem_append_left _ (by decide), rfl⟩

theorem Slack.of_sized {word : String} (hword : IsSizedWord word) (rest : List Char)
    (h : Slack cast (word.toList ++ rest)) :
      ¬ ∃ digits n, IsNumeral digits n ∧ rest = digits ++ [')'] := by
  generalize hs : word.toList ++ rest = s at h
  cases h with
  | sized hword' hsize =>
    rcases hword with rfl | rfl <;> rcases hword' with rfl | rfl
    · rwa [List.append_cancel_left hs]
    · simp at hs
    · simp at hs
    · rwa [List.append_cancel_left hs]
  | _ => rcases hword with rfl | rfl <;> simp at hs

theorem Slack.of_decimal {rest : List Char} (h : Slack cast ("decimal(".toList ++ rest)) :
    ∃ prec scale behind p s, rest = prec ++ ',' :: (scale ++ ')' :: behind) ∧ ',' ∉ prec ∧
      ')' ∉ scale ∧
      cast (String.ofList prec) = .ok p ∧ cast (String.ofList scale) = .ok s ∧
      ¬ (IsNumeral prec p ∧ IsNumeral scale s ∧ 1 ≤ p ∧ s ≤ p ∧ behind = []) := by
  generalize hs : "decimal(".toList ++ rest = s at h
  cases h with
  | decimal hcomma hprec hscale hp hs' hle hbad =>
    exact ⟨_, _, _, _, _, List.append_cancel_left hs, hcomma, hscale, hp, hs', hbad⟩
  | sized hword => rcases hword with rfl | rfl <;> simp at hs
  | _ => simp at hs

theorem Slack.of_array {rest : List Char} (h : Slack cast ("array<".toList ++ rest)) :
    ∃ inner behind, rest = inner ++ '>' :: behind ∧ '>' ∉ behind ∧
      (behind ≠ [] ∨ Slack cast inner) := by
  generalize hs : "array<".toList ++ rest = s at h
  cases h with
  | arrayBehind hbehind hne hinner => exact ⟨_, _, List.append_cancel_left hs, hbehind, .inl hne⟩
  | arrayInside hbehind hslack => exact ⟨_, _, List.append_cancel_left hs, hbehind, .inr hslack⟩
  | sized hword => rcases hword with rfl | rfl <;> simp at hs
  | _ => simp at hs

theorem Slack.of_map {rest : List Char} (h : Slack cast ("map<".toList ++ rest)) :
    ∃ inner behind, rest = inner ++ '>' :: behind ∧ '>' ∉ behind ∧
      (behind ≠ [] ∨ ∃ k v, childTexts inner = [k, v] ∧ (Slack cast k ∨ Slack cast v)) := by
  generalize hs : "map<".toList ++ rest = s at h
  cases h with
  | mapBehind hbehind hne hchildren hkey hval =>
    exact ⟨_, _, List.append_cancel_left hs, hbehind, .inl hne⟩
  | mapKey hbehind hchildren hslack hval =>
    exact ⟨_, _, List.append_cancel_left hs, hbehind, .inr ⟨_, _, hchildren, .inl hslack⟩⟩
  | mapValue hbehind hchildren hkey hslack =>
    exact ⟨_, _, List.append_cancel_left hs, hbehind, .inr ⟨_, _, hchildren, .inr hslack⟩⟩
  | sized hword => rcases hword with rfl | rfl <;> simp at hs
  | _ => simp at hs

theorem Slack.of_struct {rest : List Char} (h : Slack cast ("struct<".toList ++ rest)) :
    ∃ inner behind, rest = inner ++ '>' :: behind ∧ '>' ∉ behind ∧
      (behind ≠ [] ∨ SlackFields cast (childTexts inner)) := by
  generalize hs : "struct<".toList ++ rest = s at h
  cases h with
  | structBehind hbehind hne hfields => exact ⟨_, _, List.append_cancel_left hs, hbehind, .inl hne⟩
  | structInside hbehind hslack => exact ⟨_, _, List.append_cancel_left hs, hbehind, .inr hslack⟩
  | sized hword => rcases hword with rfl | rfl <;> simp at hs
  | _ => simp at hs

/-- A field with a name and a type is loose in neither. -/
theorem SlackFields.of_cons {name text : List Char} {texts : List (List Char)} (hname : IsName name)
    (h : SlackFields cast ((name ++ ':' :: text) :: texts)) :
      Slack cast text ∨ SlackFields cast texts := by
  have hcut : ':' ∉ name := notMem_of_plain hname.2 (by decide)
  generalize hs : name ++ ':' :: text = s at h
  cases h with
  | name hcut' hnot htype hfields =>
    obtain ⟨rfl, -⟩ := cut_first_inj hcut hcut' hs
    exact absurd hname hnot
  | type hcut' hslack hfields =>
    obtain ⟨-, rfl⟩ := cut_first_inj hcut hcut' hs
    exact .inl hslack
  | later hcut' htype hslack => exact .inr hslack

mutual

theorem IsType.not_slack (hcast : CastsNumerals cast) {s : List Char} {t : LogicalType}
    (h : IsType s t) :
    ¬ Slack cast s := by
  intro hslack
  cases h with
  | primitive hp =>
    obtain ⟨c, hc, hsep⟩ := hslack.separator
    exact notMem_of_plain (plain_of_mem_sqlTypes hp) hsep hc
  | @sized word digits n hword hdigits =>
    rcases hword with rfl | rfl
    · exact Slack.of_sized (.inl rfl) (digits ++ [')']) hslack ⟨digits, n, hdigits, rfl⟩
    · exact Slack.of_sized (.inr rfl) (digits ++ [')']) hslack ⟨digits, n, hdigits, rfl⟩
  | @decimal prec scale p s hprec hscale hpos hle hscaleLe =>
    rw [bracketed_decimal] at hslack
    obtain ⟨prec', scale', behind, p', s', heq, hcomma, hparen, hp, hs, hbad⟩ := hslack.of_decimal
    -- the text is cut in one way, and the cast reads the two numerals
    obtain ⟨rfl, hcut⟩ := cut_first_inj (notMem_of_plain hprec.plain (by decide)) hcomma heq
    obtain ⟨rfl, rfl⟩ := cut_first_inj (notMem_of_plain hscale.plain (by decide)) hparen hcut
    rw [hcast.numeral _ _ hprec (by omega)] at hp
    rw [hcast.numeral _ _ hscale (by omega)] at hs
    obtain rfl := Except.ok.inj hp
    obtain rfl := Except.ok.inj hs
    exact hbad ⟨hprec, hscale, hpos, hscaleLe, rfl⟩
  | array helement =>
    rw [bracketed_eq] at hslack
    obtain ⟨inner, behind, heq, hbehind, hloose⟩ := Slack.of_array hslack
    obtain ⟨rfl, rfl⟩ := cut_last_inj List.not_mem_nil hbehind heq
    rcases hloose with hne | hslack
    · exact hne rfl
    · exact helement.not_slack hcast hslack
  | map hkey hval =>
    rw [bracketed_eq] at hslack
    obtain ⟨inner, behind, heq, hbehind, hloose⟩ := Slack.of_map hslack
    obtain ⟨rfl, rfl⟩ := cut_last_inj List.not_mem_nil hbehind heq
    rw [childTexts_comma hkey.passes, childTexts_of_passes hval.passes] at hloose
    obtain hne | ⟨k, v, hchildren, hslack⟩ := hloose
    · exact hne rfl
    · obtain ⟨rfl, htail⟩ := List.cons.inj hchildren
      obtain ⟨rfl, -⟩ := List.cons.inj htail
      rcases hslack with hslack | hslack
      · exact hkey.not_slack hcast hslack
      · exact hval.not_slack hcast hslack
  | struct hfields =>
    rw [bracketed_eq] at hslack
    obtain ⟨inner, behind, heq, hbehind, hloose⟩ := Slack.of_struct hslack
    obtain ⟨rfl, rfl⟩ := cut_last_inj List.not_mem_nil hbehind heq
    rcases hloose with hne | hslack
    · exact hne rfl
    · exact hfields.not_slack hcast hslack

theorem AreFields.not_slack (hcast : CastsNumerals cast) {text : List Char}
    {fields : List (String × LogicalType)} (h : AreFields text fields) :
    ¬ SlackFields cast (childTexts text) := by
  intro hslack
  cases h with
  | one hname htype =>
    rw [childTexts_of_passes (passes_field hname htype.passes)] at hslack
    rcases SlackFields.of_cons hname hslack with hslack | hslack
    · exact htype.not_slack hcast hslack
    · cases hslack
  | cons hname htype hfields =>
    rw [childTexts_comma (passes_field hname htype.passes)] at hslack
    rcases SlackFields.of_cons hname hslack with hslack | hslack
    · exact htype.not_slack hcast hslack
    · exact hfields.not_slack hcast hslack

end

/-! ## Which texts are read as the grammar says -/

/-- `TypeToLogicalType` reads a text as the grammar has it, as this type or as none, exactly where
the text is not loose. -/
theorem reads_as_grammar_iff (hcast : CastsNumerals cast) (s : String) :
    (∀ t, typeToLogicalType cast s = .ok t ↔ IsType s.toList t) ↔ ¬ Slack cast s.toList := by
  constructor
  · intro hreads hslack
    obtain ⟨t, ht⟩ := hslack.loose
    have htype : IsType s.toList t := (hreads t).1 ((typeOfText_eq_ok hcast).2 ht)
    exact htype.not_slack hcast hslack
  · intro hnot t
    constructor
    · intro hok
      have hloose : LooseType cast s.toList t := (typeOfText_eq_ok hcast).1 hok
      exact hloose.isType_or_slack.resolve_right hnot
    · intro htype
      exact (typeOfText_eq_ok hcast).2 (htype.loose hcast)

end

/-- A cast that reads digits, and nothing else. -/
def castNumeral : CastUint8 := fun s =>
  if s.toList ≠ [] ∧ s.toList.all Char.isDigit ∧ digitsValue s.toList < 2 ^ 8
    then .ok (digitsValue s.toList)
  else .error (notImplementedException "not a number")

theorem castsNumerals_castNumeral : CastsNumerals castNumeral := by
  constructor
  · rintro digits n ⟨hne, hdigits, rfl⟩ hlt
    rw [castNumeral, String.toList_ofList, if_pos ⟨hne, List.all_eq_true.2 hdigits, hlt⟩]
  · intro text n hok
    rw [castNumeral] at hok
    split_ifs at hok with hdigits
    exact IsNumeral.plain ⟨hdigits.1, List.all_eq_true.1 hdigits.2.1, rfl⟩

/-- `map<string,decimal(10,2)>` -/
theorem mapOfDecimal_isType :
    IsType "map<string,decimal(10,2)>".toList (.map .varchar (.decimal 10 2)) := by
  have hkey : IsType "string".toList .varchar :=
    IsType.primitive (p := ("string", .varchar)) (by simp [sqlTypes])
  have hval : IsType "decimal(10,2)".toList (.decimal 10 2) :=
    @IsType.decimal "10".toList "2".toList 10 2
      ⟨by decide, List.all_eq_true.1 (by decide), by decide⟩
      ⟨by decide, List.all_eq_true.1 (by decide), by decide⟩ (by decide) (by decide) (by decide)
  exact .map hkey hval

theorem mapOfDecimal_reads_as_grammar :
    typeToLogicalType castNumeral "map<string,decimal(10,2)>" =
      .ok (.map .varchar (.decimal 10 2)) := by
  have hreads := (reads_as_grammar_iff castsNumerals_castNumeral "map<string,decimal(10,2)>").2
    (mapOfDecimal_isType.not_slack castsNumerals_castNumeral)
  exact (hreads _).2 mapOfDecimal_isType

/-- What stands behind the brackets is dropped: the text is no type, and read as one. -/
theorem arrayWithTail_is_read :
    typeToLogicalType castNumeral "array<int>junk" = .ok (.list .integer) ∧
      ∀ t, ¬ IsType "array<int>junk".toList t := by
  have hint : LooseType castNumeral "int".toList .integer :=
    LooseType.primitive (p := ("int", .integer)) (by simp [sqlTypes])
  have hbehind : '>' ∉ "junk".toList := by decide
  refine ⟨(typeOfText_eq_ok castsNumerals_castNumeral).2 (LooseType.array hbehind hint), ?_⟩
  intro t htype
  exact htype.not_slack castsNumerals_castNumeral (Slack.arrayBehind hbehind (by decide) hint)

end UnityCatalog
