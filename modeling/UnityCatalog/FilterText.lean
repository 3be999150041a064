import UnityCatalog.IrcExpression
import UnityCatalog.YyjsonText

/-!
# The text of the filter, read back

What `SerializeFiltersToIRC` writes is put together from texts; here it is read, by the strict
reader the rest of the extension uses, and as the body of the plan request it goes into. `JsonQuote`
escapes quotes, backslashes, line feeds, carriage returns and tabs and leaves every other control
character as it is, which no JSON text may: `filter_decodes_iff`.
-/

namespace UnityCatalog

open Yyjson

/-! ## Quoting -/

/-- A character that `JsonQuote` can write: no control character, or one of the three it escapes. -/
def Quotable (c : Char) : Prop := 0x20 ≤ c.toNat ∨ c = '\n' ∨ c = '\r' ∨ c = '\t'

instance decidableQuotable (c : Char) : Decidable (Quotable c) :=
    inferInstanceAs (Decidable (_ ∨ _))

/-- A text of such characters. -/
def QuotableText (s : String) : Prop := ∀ c ∈ s.toList, Quotable c

instance decidableQuotableText (s : String) : Decidable (QuotableText s) :=
  List.decidableBAll (p := Quotable) s.toList

theorem jsonEscape_other {c : Char} (h : c ∉ ['"', '\\', '\n', '\r', '\t']) :
    (jsonEscape c).toList = [c] := by
  simp only [List.mem_cons, List.not_mem_nil, or_false, not_or] at h
  simp [jsonEscape, h]

/-- What `JsonQuote` writes for a character, the reader reads as it. -/
theorem jsonEscape_escapes : Escapes (fun c => (jsonEscape c).toList) Quotable where
  short c hc := by
    by_cases hmem : c ∈ ['"', '\\', '\n', '\r', '\t']
    · right
      simp only [List.mem_cons, List.not_mem_nil, or_false] at hmem
      obtain rfl | rfl | rfl | rfl | rfl := hmem
      · exact ⟨'"', rfl, fun rest => rfl⟩
      · exact ⟨'\\', rfl, fun rest => rfl⟩
      · exact ⟨'n', rfl, fun rest => rfl⟩
      · exact ⟨'r', rfl, fun rest => rfl⟩
      · exact ⟨'t', rfl, fun rest => rfl⟩
    · left
      refine ⟨jsonEscape_other hmem, ?_⟩
      simp only [List.mem_cons, List.not_mem_nil, or_false, not_or] at hmem
      obtain ⟨hquote, hback, hn, hr, ht⟩ := hmem
      obtain hge | rfl | rfl | rfl := hc
      · exact ⟨hquote, hback, hge⟩
      · exact absurd rfl hn
      · exact absurd rfl hr
      · exact absurd rfl ht
  raw c hc := by
    simp only [Quotable, not_or] at hc
    obtain ⟨hlow, hn, hr, ht⟩ := hc
    refine ⟨jsonEscape_other ?_, not_le.1 hlow⟩
    simp only [List.mem_cons, List.not_mem_nil, or_false, not_or]
    refine ⟨?_, ?_, hn, hr, ht⟩
    · rintro rfl
      exact hlow (by decide)
    · rintro rfl
      exact hlow (by decide)

theorem toList_foldl_jsonEscape (cs : List Char) (init : String) :
    (cs.foldl (fun result c => result ++ jsonEscape c) init).toList =
      init.toList ++ cs.flatMap fun c => (jsonEscape c).toList := by
  induction cs generalizing init with
  | nil => simp
  | cons c cs ih => rw [List.foldl_cons, ih, String.toList_append, List.flatMap_cons,
    List.append_assoc]

/-- A quoted text is read as the text, or refused. -/
theorem reads_jsonQuote (s : String) :
    Reads (jsonQuote s).toList (if QuotableText s then some (.str s) else none) := by
  have h := reads_quote jsonEscape_escapes s (p := QuotableText s) Iff.rfl
  have htext : (jsonQuote s).toList =
      '"' :: (s.toList.flatMap (fun c => (jsonEscape c).toList) ++ ['"']) := by
    simp [jsonQuote, toList_foldl_jsonEscape]
  rw [htext]
  exact h

/-! ## The JSON that is meant -/

section

variable {D : Type} [DoubleFormat D]

/-- The JSON value of a literal; a double is what its digits are. -/
def Literal.toVal : Literal D → Val
  | .integer v => .num (Num.ofInt v)
  | .unsigned v => .num (Num.ofInt v)
  | .floating d => (Yyjson.read (DoubleFormat.format d)).getD .null
  | .boolean b => .bool b
  | .varchar s => .str s

/-- The JSON value of an expression. -/
def IrcExpr.toVal : IrcExpr D → Val
  | .comparison type term value =>
    .obj [("type", .str type.text), ("term", .str term), ("value", value.toVal)]
  | .isNull term => .obj [("type", .str "is-null"), ("term", .str term)]
  | .notNull term => .obj [("type", .str "not-null"), ("term", .str term)]
  | .and left right => .obj [("type", .str "and"), ("left", left.toVal), ("right", right.toVal)]
  | .or left right => .obj [("type", .str "or"), ("left", left.toVal), ("right", right.toVal)]

/-- The texts in a literal. -/
def Literal.texts : Literal D → List String
  | .varchar s => [s]
  | _ => []

/-- The texts in an expression, terms and strings. -/
def IrcExpr.texts : IrcExpr D → List String
  | .comparison _ term value => term :: value.texts
  | .isNull term => [term]
  | .notNull term => [term]
  | .and left right => left.texts ++ right.texts
  | .or left right => left.texts ++ right.texts

/-- A literal that fits its type. -/
def Literal.Fits : Literal D → Prop
  | .integer v => -2 ^ 63 ≤ v ∧ v < 2 ^ 63
  | .unsigned v => v < 2 ^ 64
  | .floating d => DoubleFormat.isFinite d = true
  | .boolean _ => True
  | .varchar _ => True

/-- An expression of literals that do. -/
def IrcExpr.Fits : IrcExpr D → Prop
  | .comparison _ _ value => value.Fits
  | .isNull _ => True
  | .notNull _ => True
  | .and left right => left.Fits ∧ right.Fits
  | .or left right => left.Fits ∧ right.Fits

variable (D) in
/-- `%.17g` writes a JSON number for a finite double. -/
def FormatsNumbers : Prop :=
  ∀ d : D, DoubleFormat.isFinite d = true → ∃ n, ∀ rest, Ends rest →
    readNumber ((DoubleFormat.format d).toList ++ rest) = some (n, rest)

end

/-! ## What is read of a tree -/

section

variable {D : Type} [DoubleFormat D] (hD : FormatsNumbers D)
include hD

theorem reads_literal {l : Literal D} (hl : l.Fits) :
    Reads l.toJson.toList (if ∀ s ∈ l.texts, QuotableText s then some l.toVal else none) := by
  cases l with
  | integer v =>
    rw [if_pos (by simp [Literal.texts])]
    exact reads_int hl.1 hl.2
  | unsigned v =>
    rw [if_pos (by simp [Literal.texts])]
    exact reads_nat hl
  | floating d =>
    rw [if_pos (by simp [Literal.texts])]
    obtain ⟨n, hn⟩ := hD d hl
    have hreads := reads_number hn
    have hval : Literal.toVal (.floating d) = .num n := by
      rw [Literal.toVal, ← String.ofList_toList (s := DoubleFormat.format d), hreads.read]
      rfl
    rw [hval]
    exact hreads
  | boolean b =>
    rw [if_pos (by simp [Literal.texts])]
    cases b with
    | true => exact reads_true
    | false => exact reads_false
  | varchar s =>
    simp only [Literal.texts, List.mem_singleton, forall_eq]
    exact reads_jsonQuote s

end

section

variable {irc_type : String} (htype : ∀ c ∈ irc_type.toList, Plain c)

/-- The member that says what a node is. -/
def typeMember (irc_type : String) : Member :=
  ⟨"type", '"' :: (irc_type.toList ++ ['"']), some (.str irc_type)⟩

include htype

/-- A node: its type, and other members. -/
theorem reads_node {ms : List Member} (hms : ∀ m ∈ ms, m.Ok) :
    Reads ('{' :: (membersText (typeMember irc_type :: ms) ++ ['}']))
      ((membersRead ms).map fun fields => .obj (("type", .str irc_type) :: fields)) := by
  have hok : ∀ m ∈ typeMember irc_type :: ms, m.Ok := by
    refine List.forall_mem_cons.2 ⟨⟨?_, reads_plain htype⟩, hms⟩
    simp [typeMember, Plain]
  have h := reads_object (List.cons_ne_nil _ _) hok
  have hread : membersRead (typeMember irc_type :: ms) =
      (membersRead ms).map (("type", .str irc_type) :: ·) := by
    rw [membersRead, List.mapM_cons, ← membersRead]
    cases membersRead ms <;> rfl
  rw [hread, Option.map_map] at h
  exact h

end

section

variable {D : Type} [DoubleFormat D] (hD : FormatsNumbers D)

theorem plain_text (t : IrcComparison) : ∀ c ∈ t.text.toList, Plain c := by
  cases t <;> simp [IrcComparison.text, Plain]

/-- A null test. -/
theorem reads_nullNode {irc_type : String} (htype : ∀ c ∈ irc_type.toList, Plain c)
    (term : String) :
    Reads (nullNode irc_type (jsonQuote term)).toList
      (if QuotableText term then some (.obj [("type", .str irc_type), ("term", .str term)])
        else none) := by
  have hms : ∀ m ∈ [Member.mk "term" (jsonQuote term).toList
      (if QuotableText term then some (.str term) else none)], m.Ok :=
    List.forall_mem_singleton.2 ⟨by simp [Plain], reads_jsonQuote term⟩
  have h := reads_node htype hms
  have htext : (nullNode irc_type (jsonQuote term)).toList =
      '{' :: (membersText [typeMember irc_type, ⟨"term", (jsonQuote term).toList,
        if QuotableText term then some (.str term) else none⟩] ++ ['}']) := by
    simp [nullNode, membersText, Member.write, typeMember]
  rw [htext]
  split
  · rename_i hterm
    simpa [membersRead, hterm] using h
  · rename_i hterm
    simpa [membersRead, hterm] using h

/-- A node of two values. -/
theorem reads_twoMembers (irc_type : String) {text : String}
    (htype : ∀ c ∈ irc_type.toList, Plain c)
    {key₁ key₂ text₁ text₂ : String} (hkey₁ : ∀ c ∈ key₁.toList, Plain c)
    (hkey₂ : ∀ c ∈ key₂.toList, Plain c) {v₁ v₂ : Val} {p₁ p₂ p : Prop} [Decidable p₁]
    [Decidable p₂]
    [Decidable p] (hp : p ↔ p₁ ∧ p₂)
    (h₁ : Reads text₁.toList (if p₁ then some v₁ else none))
    (h₂ : Reads text₂.toList (if p₂ then some v₂ else none))
    (htext : text = "\x7b\"type\":\"" ++ irc_type ++ "\",\"" ++ key₁ ++ "\":" ++ text₁ ++ ",\"" ++
      key₂ ++
      "\":" ++ text₂ ++ "\x7d") :
    Reads text.toList
      (if p then some (.obj [("type", .str irc_type), (key₁, v₁), (key₂, v₂)]) else none) := by
  have hms : ∀ m ∈ [Member.mk key₁ text₁.toList (if p₁ then some v₁ else none),
      Member.mk key₂ text₂.toList (if p₂ then some v₂ else none)], m.Ok :=
    List.forall_mem_cons.2 ⟨⟨hkey₁, h₁⟩, List.forall_mem_singleton.2 ⟨hkey₂, h₂⟩⟩
  have h := reads_node htype hms
  have hchars : text.toList =
      '{' :: (membersText [typeMember irc_type, ⟨key₁, text₁.toList, if p₁ then some v₁ else none⟩,
        ⟨key₂, text₂.toList, if p₂ then some v₂ else none⟩] ++ ['}']) := by
    simp [htext, membersText, Member.write, typeMember]
  rw [hchars]
  by_cases hp₁ : p₁ <;> by_cases hp₂ : p₂ <;> simpa [membersRead, hp, hp₁, hp₂] using h

include hD in
/-- A tree is read as what is meant, if every text in it can be quoted, and else refused. -/
theorem reads_ircExpr {e : IrcExpr D} (he : e.Fits) :
    Reads e.toJson.toList (if ∀ s ∈ e.texts, QuotableText s then some e.toVal else none) := by
  induction e with
  | comparison type term value =>
    exact reads_twoMembers type.text (plain_text type) (by simp [Plain]) (by simp [Plain])
      (by rw [IrcExpr.texts, List.forall_mem_cons]) (reads_jsonQuote term) (reads_literal hD he)
      (by simp [IrcExpr.toJson, comparisonNode, String.append_assoc])
  | isNull term =>
    simp only [IrcExpr.texts, List.forall_mem_singleton]
    exact reads_nullNode (by simp [Plain]) term
  | notNull term =>
    simp only [IrcExpr.texts, List.forall_mem_singleton]
    exact reads_nullNode (by simp [Plain]) term
  | and left right hleft hright =>
    exact reads_twoMembers "and" (by simp [Plain]) (by simp [Plain]) (by simp [Plain])
      (by rw [IrcExpr.texts, List.forall_mem_append]) (hleft he.1) (hright he.2)
      (by simp [IrcExpr.toJson, binaryNode, String.append_assoc])
  | or left right hleft hright =>
    exact reads_twoMembers "or" (by simp [Plain]) (by simp [Plain]) (by simp [Plain])
      (by rw [IrcExpr.texts, List.forall_mem_append]) (hleft he.1) (hright he.2)
      (by simp [IrcExpr.toJson, binaryNode, String.append_assoc])

end

/-! ## What filters send -/

section

variable {D : Type} [DoubleFormat D]

/-- A constant that fits its type. -/
def ConstantValue.Fits : ConstantValue D → Prop
  | .integer (some v) => -2 ^ 63 ≤ v ∧ v < 2 ^ 63
  | .unsigned (some v) => v < 2 ^ 64
  | _ => True

/-- Every constant that is compared does. -/
def Expression.Fits (e : Expression D) : Prop :=
  ∀ type left right, .comparison type left right ∈ e.leaves →
    ∀ v, left = .constant v ∨ right = .constant v → v.Fits

/-- The texts a constant sends, none if it has no IRC form. -/
def ConstantValue.sent : ConstantValue D → Option (List String)
  | .varchar v => some [v.getD "NULL"]
  | .integer (some _) | .unsigned (some _) | .boolean (some _) => some []
  | .floating (some d) => if DoubleFormat.isFinite d then some [] else none
  | _ => none

/-- The texts of a column compared with a constant. -/
def columnSent (type : ComparisonType) (name : String) (value : ConstantValue D) :
    Option (List String) :=
  if type.ircType.isNone ∨ name = "" then none else value.sent.map (name :: ·)

/-- The texts of a comparison. -/
def comparisonSent (type : ComparisonType) : Expression D → Expression D → Option (List String)
  | .columnRef name, .constant value => columnSent type name value
  | .constant value, .columnRef name => columnSent type.flip name value
  | _, _ => none

/-- The texts of a null test. -/
def operatorSent : OperatorType → List (Expression D) → Option (List String)
  | .isNull, [.columnRef name] => if name = "" then none else some [name]
  | .isNotNull, [.columnRef name] => if name = "" then none else some [name]
  | _, _ => none

/-- The texts of the parts of a conjunction; of no parts nothing is sent. -/
def partsSent (parts : List (List String)) : Option (List String) :=
  if parts = [] then none else some parts.flatten

mutual

/-- The column names and strings that an expression sends, none if it has no IRC form. -/
def Expression.sent : Expression D → Option (List String)
  | .comparison type left right => comparisonSent type left right
  | .conjunction is_and children => (sentAll is_and children).bind partsSent
  | .operator type children => operatorSent type children
  | .columnRef _ | .constant _ | .other _ => none

/-- Those of a conjunction's children; an OR sends all of them or nothing. -/
def sentAll (is_and : Bool) : List (Expression D) → Option (List (List String))
  | [] => some []
  | child :: children =>
    match child.sent with
    | none => if is_and then sentAll is_and children else none
    | some texts => (sentAll is_and children).map (texts :: ·)

end

/-- What is sent are the texts of a tree, whose literals fit. -/
structure SentAs (sent : Option (List String)) (o : Option (IrcExpr D)) : Prop where
  texts : sent = o.map IrcExpr.texts
  fits : ∀ e ∈ o, e.Fits

theorem sentAs_none : SentAs (D := D) none none := ⟨rfl, fun e he => by cases he⟩

theorem literal_sent {v : ConstantValue D} {o : Option (Literal D)} (h : v.literal = .ok o) :
    v.sent = o.map Literal.texts ∧ (v.Fits → ∀ l ∈ o, l.Fits) := by
  cases v with
  | floating d =>
    cases d with
    | none => cases h
    | some d =>
      obtain rfl := Except.ok.inj h
      by_cases hd : DoubleFormat.isFinite d <;>
        simp [ConstantValue.sent, hd, Literal.texts, Literal.Fits]
  | integer v =>
    cases v with
    | none => cases h
    | some v =>
      obtain rfl := Except.ok.inj h
      exact ⟨rfl, fun hv l hl => Option.some.inj hl ▸ hv⟩
  | unsigned v =>
    cases v with
    | none => cases h
    | some v =>
      obtain rfl := Except.ok.inj h
      exact ⟨rfl, fun hv l hl => Option.some.inj hl ▸ hv⟩
  | boolean b =>
    cases b with
    | none => cases h
    | some b =>
      obtain rfl := Except.ok.inj h
      exact ⟨rfl, fun hv l hl => Option.some.inj hl ▸ trivial⟩
  | varchar v =>
    obtain rfl := Except.ok.inj h
    exact ⟨rfl, fun hv l hl => Option.some.inj hl ▸ trivial⟩
  | other k =>
    obtain rfl := Except.ok.inj h
    exact ⟨rfl, fun hv l hl => by cases hl⟩

theorem columnSent_sentAs {type : ComparisonType} {name : String} {v : ConstantValue D}
    {o : Option (IrcExpr D)} (h : comparisonTree type name v = .ok o) (hv : v.Fits) :
    SentAs (columnSent type name v) o := by
  rw [comparisonTree] at h
  rw [columnSent]
  cases htype : type.ircType with
  | none =>
    rw [htype] at h
    obtain rfl := Except.ok.inj h
    simpa using sentAs_none
  | some irc_type =>
    rw [htype] at h
    by_cases hname : name = ""
    · simp only [if_pos hname] at h
      obtain rfl := Except.ok.inj h
      simpa [hname] using sentAs_none
    · simp only [if_neg hname, except_bind_eq_ok] at h
      obtain ⟨l, hl, ho⟩ := h
      obtain rfl := Except.ok.inj ho
      obtain ⟨htexts, hfits⟩ := literal_sent hl
      refine ⟨?_, fun e he => ?_⟩
      · simp only [Option.isNone_some, Bool.false_eq_true, false_or, if_neg hname, htexts,
          Option.map_map]
        rfl
      · obtain ⟨l, rfl, rfl⟩ := Option.map_eq_some_iff.1 he
        exact hfits hv l rfl

theorem comparisonSent_sentAs {type : ComparisonType} {left right : Expression D}
    {o : Option (IrcExpr D)} (h : comparisonToIRC type left right = .ok o)
    (hfits : ∀ v, left = .constant v ∨ right = .constant v → v.Fits) :
    SentAs (comparisonSent type left right) o := by
  unfold comparisonToIRC at h
  split at h
  · exact columnSent_sentAs h (hfits _ (.inr rfl))
  · exact columnSent_sentAs h (hfits _ (.inl rfl))
  · rename_i hcolumn hconstant
    obtain rfl := Except.ok.inj h
    unfold comparisonSent
    split
    · exact absurd rfl (hcolumn _ _ rfl)
    · exact absurd rfl (hconstant _ _ rfl)
    · exact sentAs_none

theorem operatorSent_sentAs (type : OperatorType) (children : List (Expression D)) :
    SentAs (operatorSent type children) (operatorToIRC type children) := by
  unfold operatorToIRC
  split
  · rename_i name
    by_cases h : name = ""
    · simpa [operatorSent, h] using sentAs_none
    · refine ⟨by simp [operatorSent, h, IrcExpr.texts], fun e he => ?_⟩
      obtain rfl := Option.some.inj ((if_neg h).symm.trans he)
      trivial
  · rename_i name
    by_cases h : name = ""
    · simpa [operatorSent, h] using sentAs_none
    · refine ⟨by simp [operatorSent, h, IrcExpr.texts], fun e he => ?_⟩
      obtain rfl := Option.some.inj ((if_neg h).symm.trans he)
      trivial
  · rename_i hnull hnotNull
    unfold operatorSent
    split
    · exact absurd rfl (hnull _ rfl)
    · exact absurd rfl (hnotNull _ rfl)
    · exact sentAs_none

theorem foldl_binary_sent (is_and : Bool) {part : IrcExpr D} {parts : List (IrcExpr D)}
    (hpart : part.Fits) (hparts : ∀ p ∈ parts, p.Fits) :
    (parts.foldl (IrcExpr.binary is_and) part).texts = part.texts ++
      (parts.map IrcExpr.texts).flatten ∧
      (parts.foldl (IrcExpr.binary is_and) part).Fits := by
  induction parts generalizing part with
  | nil => simpa using hpart
  | cons next parts ih =>
    obtain ⟨hnext, hrest⟩ := List.forall_mem_cons.1 hparts
    have hbinary : (IrcExpr.binary is_and part next).texts = part.texts ++ next.texts ∧
        (IrcExpr.binary is_and part next).Fits := by
      cases is_and <;> exact ⟨rfl, hpart, hnext⟩
    obtain ⟨htexts, hfits⟩ := ih hbinary.2 hrest
    rw [List.foldl_cons, htexts, hbinary.1, List.map_cons, List.flatten_cons, List.append_assoc]
    exact ⟨rfl, hfits⟩

theorem joinTrees_sentAs (is_and : Bool) {parts : List (IrcExpr D)} (hfits : ∀ p ∈ parts, p.Fits) :
    SentAs (partsSent (parts.map IrcExpr.texts)) (joinTrees is_and parts) := by
  cases parts with
  | nil => exact sentAs_none
  | cons part parts =>
    obtain ⟨hpart, hparts⟩ := List.forall_mem_cons.1 hfits
    obtain ⟨htexts, hjoined⟩ := foldl_binary_sent is_and hpart hparts
    refine ⟨?_, fun e he => ?_⟩
    · simp [partsSent, joinTrees, htexts]
    · obtain rfl := Option.some.inj he
      exact hjoined

omit [DoubleFormat D] in
theorem mem_leaves_conjunction (is_and : Bool) {l : Expression D} {children : List (Expression D)}
    (h : l ∈ leavesAll children) : l ∈ (Expression.conjunction is_and children).leaves := by
  cases children with
  | nil => cases h
  | cons child children => exact h

omit [DoubleFormat D] in
/-- A leaf of an AND is one of a child, unless it is the AND. -/
theorem mem_leaves_and {l : Expression D} {children : List (Expression D)}
    (hl : l ≠ .conjunction true []) (h : l ∈ (Expression.conjunction true children).leaves) :
    ∃ c ∈ children, l ∈ c.leaves := by
  have hmem : ∀ cs : List (Expression D), l ∈ leavesAll cs → ∃ c ∈ cs, l ∈ c.leaves := by
    intro cs hcs
    induction cs with
    | nil => cases hcs
    | cons c cs ih =>
      obtain hc | hrest := List.mem_append.1 hcs
      · exact ⟨c, List.mem_cons_self, hc⟩
      · obtain ⟨d, hd, hleaf⟩ := ih hrest
        exact ⟨d, List.mem_cons_of_mem _ hd, hleaf⟩
  cases children with
  | nil => exact absurd (List.mem_singleton.1 h) hl
  | cons child children => exact hmem _ h

mutual

/-- What an expression sends are the texts of the tree it becomes. -/
theorem sent_sentAs : ∀ (e : Expression D) {o : Option (IrcExpr D)}, exprToIRC e = .ok o → e.Fits →
    SentAs e.sent o
  | .comparison type left right, o, h, hfits => by
    rw [exprToIRC] at h
    rw [Expression.sent]
    exact comparisonSent_sentAs h (hfits type left right (List.mem_singleton_self _))
  | .conjunction is_and children, o, h, hfits => by
    rw [exprToIRC, except_bind_eq_ok] at h
    obtain ⟨parts, hparts, ho⟩ := h
    obtain rfl := Except.ok.inj ho
    obtain ⟨htexts, hall⟩ := sentAll_sentAs is_and children hparts fun type left right hmem =>
      hfits type left right (mem_leaves_conjunction is_and hmem)
    rw [Expression.sent, htexts]
    cases parts with
    | none => exact sentAs_none
    | some parts => exact joinTrees_sentAs is_and (hall parts rfl)
  | .operator type children, o, h, hfits => by
    rw [exprToIRC] at h
    obtain rfl := Except.ok.inj h
    rw [Expression.sent]
    exact operatorSent_sentAs type children
  | .columnRef name, o, h, hfits => by
    obtain rfl := Except.ok.inj h
    exact sentAs_none
  | .constant v, o, h, hfits => by
    obtain rfl := Except.ok.inj h
    exact sentAs_none
  | .other k, o, h, hfits => by
    obtain rfl := Except.ok.inj h
    exact sentAs_none

/-- And what children send, those of theirs. -/
theorem sentAll_sentAs (is_and : Bool) : ∀ (children : List (Expression D))
    {o : Option (List (IrcExpr D))}, conjunctionTrees is_and children = .ok o →
    (∀ type left right, .comparison type left right ∈ leavesAll children →
      ∀ v, left = .constant v ∨ right = .constant v → v.Fits) →
    sentAll is_and children = o.map (List.map IrcExpr.texts) ∧ ∀ parts ∈ o, ∀ p ∈ parts, p.Fits
  | [], o, h, hfits => by
    obtain rfl := Except.ok.inj h
    exact ⟨rfl, fun parts hparts => by obtain rfl := Option.some.inj hparts; simp⟩
  | child :: children, o, h, hfits => by
    rw [conjunctionTrees, except_bind_eq_ok] at h
    obtain ⟨part, hpart, h⟩ := h
    simp only [leavesAll, List.mem_append] at hfits
    have hchild := sent_sentAs child hpart fun type left right hmem =>
      hfits type left right (.inl hmem)
    have hrest : ∀ {o : Option (List (IrcExpr D))}, conjunctionTrees is_and children = .ok o →
        sentAll is_and children = o.map (List.map IrcExpr.texts) ∧ ∀ parts ∈ o, ∀ p ∈ parts,
          p.Fits :=
      fun ho => sentAll_sentAs is_and children ho fun type left right hmem =>
        hfits type left right (.inr hmem)
    rw [sentAll, hchild.texts]
    cases part with
    | none =>
      -- an AND goes on without the child, an OR is dropped
      cases is_and with
      | true => exact hrest h
      | false =>
        obtain rfl := Except.ok.inj h
        exact ⟨rfl, fun parts hparts => by cases hparts⟩
    | some part =>
      simp only [except_bind_eq_ok] at h
      obtain ⟨parts, hparts, ho⟩ := h
      obtain rfl := Except.ok.inj ho
      obtain ⟨htexts, hall⟩ := hrest hparts
      simp only [Option.map_some, htexts, Option.map_map]
      refine ⟨rfl, fun ps hps => ?_⟩
      obtain ⟨rest, rfl, rfl⟩ := Option.map_eq_some_iff.1 hps
      exact List.forall_mem_cons.2 ⟨hchild.fits part rfl, hall rest rfl⟩

end

end

/-! ## The text and the request -/

section

variable {D : Type} [DoubleFormat D]

/-- The text is read as the expression, and the body of the plan request as the object that has it
as its filter. -/
structure DecodesTo (o : Option (IrcExpr D)) (filter_json : String) : Prop where
  filter : o = none ∧ filter_json = "" ∨ ∃ e, o = some e ∧ Yyjson.read filter_json = some e.toVal
  body : ∃ s, planBody filter_json = .text s ∧ Yyjson.read s =
    some (.obj (("case-sensitive", .bool false) :: (o.map fun e => ("filter", e.toVal)).toList))

theorem decodesTo_none : DecodesTo (D := D) none "" where
  filter := .inl ⟨rfl, rfl⟩
  body := by
    refine ⟨_, rfl, ?_⟩
    have hms : ∀ m ∈ [Member.mk "case-sensitive" "false".toList (some (.bool false))], m.Ok :=
      List.forall_mem_singleton.2 ⟨by simp [Plain], reads_false⟩
    have h := (reads_object (List.cons_ne_nil _ _) hms).read
    simpa [membersText, Member.write, membersRead] using h

/-- What is read of the body is what is read of the filter. -/
theorem decodesTo_some {e : IrcExpr D} (h : Reads e.toJson.toList (some e.toVal)) :
    DecodesTo (some e) e.toJson where
  filter := by
    have hread := h.read
    rw [String.ofList_toList] at hread
    exact .inr ⟨e, rfl, hread⟩
  body := by
    refine ⟨_, rfl, ?_⟩
    have hms : ∀ m ∈ [Member.mk "case-sensitive" "false".toList (some (.bool false)),
        Member.mk "filter" e.toJson.toList (some e.toVal)], m.Ok :=
      List.forall_mem_cons.2 ⟨⟨by simp [Plain], reads_false⟩,
        List.forall_mem_singleton.2 ⟨by simp [Plain], h⟩⟩
    have hbody := (reads_object (List.cons_ne_nil _ _) hms).read
    have htext : "\x7b\"case-sensitive\":false,\"filter\":" ++ e.toJson ++ "\x7d" =
      String.ofList ('{' ::
        (membersText [Member.mk "case-sensitive" "false".toList (some (.bool false)),
          Member.mk "filter" e.toJson.toList (some e.toVal)] ++ ['}'])) := by
      rw [← String.toList_inj]
      simp [membersText, Member.write]
    rw [if_neg e.toJson_ne, htext, hbody]
    rfl

/-- **Exactly the filters whose text decodes to what is meant**: those that send no column name and
no string with a control character that `JsonQuote` leaves as it is. -/
theorem filter_decodes_iff (hD : FormatsNumbers D) {filters : List (Expression D)}
    (hfits : ∀ f ∈ filters, f.Fits) {filter_json : String}
    (h : serializeFiltersToIRC filters = .ok filter_json) :
    (∃ o, filtersToIRC filters = .ok o ∧ DecodesTo o filter_json) ↔
      ∀ texts ∈ (Expression.conjunction true filters).sent, ∀ s ∈ texts, QuotableText s := by
  rw [serializeFiltersToIRC_eq] at h
  rcases ho : filtersToIRC filters with e | o
  · rw [ho] at h
    cases h
  · rw [ho] at h
    obtain rfl : filterText o = filter_json := Except.ok.inj h
    have htree : exprToIRC (.conjunction true filters) = .ok o := filtersToIRC_eq filters ▸ ho
    have hall : (Expression.conjunction true filters).Fits := by
      intro type left right hmem
      obtain ⟨f, hf, hleaf⟩ := mem_leaves_and (fun h => by cases h) hmem
      exact hfits f hf type left right hleaf
    obtain ⟨htexts, hfit⟩ := sent_sentAs _ htree hall
    rw [htexts]
    cases o with
    | none => exact iff_of_true ⟨none, rfl, decodesTo_none⟩ (by simp)
    | some e =>
      have hreads := reads_ircExpr hD (hfit e rfl)
      simp only [Option.map_some, Option.mem_some_iff, forall_eq']
      constructor
      · rintro ⟨o, ho, hdecodes⟩
        obtain rfl := Except.ok.inj ho
        by_contra hnot
        rw [if_neg hnot] at hreads
        have hnone := hreads.read
        rw [String.ofList_toList] at hnone
        obtain ⟨hno, -⟩ | ⟨e', he', hsome⟩ := hdecodes.filter
        · cases hno
        · rw [filterText_some, hnone] at hsome
          cases hsome
      · intro hquotable
        rw [if_pos hquotable] at hreads
        exact ⟨some e, rfl, decodesTo_some hreads⟩

end

/-! ### On whole numbers -/

theorem formatsNumbers_whole : FormatsNumbers WholeDouble := by
  intro d _
  have htext : (DoubleFormat.format d).toList = Nat.toDigits 10 d.value.val := Nat.toList_repr
  have hlt : d.value.val < 2 ^ 64 := d.value.isLt.trans (by decide)
  refine ⟨.uint ⟨d.value.val, hlt⟩, fun rest hrest => ?_⟩
  rw [htext]
  exact readNumber_nat hrest hlt

/-- A column compared with a text. -/
def columnIs (name text : String) : Expression WholeDouble :=
  .comparison .equal (.columnRef name) (.constant (.varchar (some text)))

theorem fits_columnIs (name text : String) : ∀ f ∈ [columnIs name text], f.Fits := by
  intro f hf type left right hmem v hv
  obtain rfl := List.mem_singleton.1 hf
  cases List.mem_singleton.1 hmem
  obtain hv | hv := hv <;> cases hv
  trivial

/-- Quotes, backslashes and tabs are read back. -/
theorem escaped_filter_decodes :
    ∃ o, filtersToIRC [columnIs "we\"ird" "a\tb\\"] = .ok o ∧ DecodesTo o
      "\x7b\"type\":\"eq\",\"term\":\"we\\\"ird\",\"value\":\"a\\tb\\\\\"\x7d" :=
  (filter_decodes_iff formatsNumbers_whole (fits_columnIs _ _) (by rfl)).2 (by decide +kernel)

/-- A control character makes the text, and the request with it, no JSON. -/
theorem controlCharacter_is_no_json :
    ∃ filter_json, serializeFiltersToIRC [columnIs "c" "a\x01b"] = .ok filter_json ∧
      filter_json ≠ "" ∧
      Yyjson.read filter_json = none ∧
      (∃ s, planBody filter_json = .text s ∧ Yyjson.read s = none) ∧
      ¬ ∃ o, filtersToIRC [columnIs "c" "a\x01b"] = .ok o ∧ DecodesTo o filter_json := by
  have hread : Yyjson.read "\x7b\"type\":\"eq\",\"term\":\"c\",\"value\":\"a\x01b\"\x7d" = none :=
    Option.isNone_iff_eq_none.1 (by decide +kernel)
  refine ⟨_,
    by rfl, by decide, hread, ⟨_, rfl, Option.isNone_iff_eq_none.1 (by decide +kernel)⟩, ?_⟩
  rintro ⟨o, -, hdecodes⟩
  obtain ⟨-, hempty⟩ | ⟨e, -, hsome⟩ := hdecodes.filter
  · exact absurd hempty (by decide)
  · rw [hread] at hsome
    cases hsome

end UnityCatalog
