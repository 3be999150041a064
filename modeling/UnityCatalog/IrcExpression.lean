import UnityCatalog.ScanFunction
import UnityCatalog.ThreeValued
import Mathlib.Data.List.ReduceOption

/-!
# The filter sent with a scan plan

`uc_irc_expression.cpp` and `UCScanPlanPushdownFilter`: bound filter expressions become the text of
one IRC expression, and what has no IRC form is left out, of an AND alone and of an OR with the
whole OR. The server prunes by what it is sent and the client cannot get a pruned row back, so the
expression must be **TRUE wherever the filters are**.

The text is the writing of a tree (`exprToIRCJson_eq`), and what follows is about the tree. What
filters and trees mean is a parameter: any values, any comparisons that FlipComparisonExpression
mirrors, and nodes of every other kind meaning anything.
-/

namespace UnityCatalog

/-! ## Bound expressions -/

/-- `ExpressionType`, the comparisons. -/
inductive ComparisonType where
  | equal | notEqual | lessThan | greaterThan | lessThanOrEqualTo | greaterThanOrEqualTo
  | distinctFrom | notDistinctFrom
  deriving DecidableEq, Repr

/-- `FlipComparisonExpression` -/
def ComparisonType.flip : ComparisonType → ComparisonType
  | .lessThan => .greaterThan
  | .greaterThan => .lessThan
  | .lessThanOrEqualTo => .greaterThanOrEqualTo
  | .greaterThanOrEqualTo => .lessThanOrEqualTo
  | t => t

/-- `ExpressionType`, the operators; the ones that are never serialised only by a number. -/
inductive OperatorType where
  | isNull | isNotNull
  | other (k : ℕ)
  deriving DecidableEq, Repr

/-- A `Value` by what its type has it serialised as; `none` is NULL. A FLOAT is held as the DOUBLE
it is read as, and a value of any other type (dates, decimals, the untyped NULL, …) by a number. -/
inductive ConstantValue (D : Type) where
  /-- `TINYINT` to `BIGINT` -/
  | integer (v : Option ℤ)
  /-- `UTINYINT` to `UBIGINT` -/
  | unsigned (v : Option ℕ)
  /-- `FLOAT` and `DOUBLE` -/
  | floating (v : Option D)
  | boolean (v : Option Bool)
  | varchar (v : Option String)
  | other (k : ℕ)

/-- `Expression`: the nodes that are told apart, and any other node by a number. -/
inductive Expression (D : Type) where
  | comparison (type : ComparisonType) (left right : Expression D)
  /-- `BoundConjunctionExpression`: AND or OR, of any number of children -/
  | conjunction (is_and : Bool) (children : List (Expression D))
  | operator (type : OperatorType) (children : List (Expression D))
  /-- `BoundColumnRefExpression`, by `GetName()` -/
  | columnRef (name : String)
  | constant (value : ConstantValue D)
  | other (k : ℕ)

/-- Doubles, as far as serialising needs them. -/
class DoubleFormat (D : Type) where
  /-- `Value::DoubleIsFinite` -/
  isFinite : D → Bool
  /-- `%.17g` -/
  format : D → String
  format_ne {d : D} : format d ≠ ""

/-! ## The text -/

/-- What `JsonQuote` writes for a character. -/
def jsonEscape : Char → String
  | '"' => "\\\""
  | '\\' => "\\\\"
  | '\n' => "\\n"
  | '\r' => "\\r"
  | '\t' => "\\t"
  | c => c.toString

/-- `JsonQuote` -/
def jsonQuote (s : String) : String :=
  "\"" ++ s.toList.foldl (fun result c => result ++ jsonEscape c) "" ++ "\""

/-- What `Value::GetValue` throws on NULL. -/
def valueIsNull : Exception := internalException "Calling GetValueInternal on a value that is NULL"

section Text

variable {D : Type} [DoubleFormat D]

/-- `ValueToIRCJson`; a NULL `VARCHAR` is no exception, its `ToString()` is `NULL`. -/
def valueToIRCJson : ConstantValue D → Except Exception String
  | .integer (some v) => .ok (toString v)
  | .unsigned (some v) => .ok (toString v)
  | .floating (some d) =>
    if DoubleFormat.isFinite d then .ok (DoubleFormat.format d)
    -- a bound that is not finite cannot prune
    else .ok ""
  | .boolean (some b) => .ok (if b then "true" else "false")
  | .varchar v => .ok (jsonQuote (v.getD "NULL"))
  | .other _ => .ok ""
  | .integer none | .unsigned none | .floating none | .boolean none => .error valueIsNull

/-- `TermForColumnRef` -/
def termForColumnRef (name : String) : String := if name = "" then "" else jsonQuote name

/-- The comparisons that IRC has. -/
inductive IrcComparison where
  | eq | notEq | lt | gt | ltEq | gtEq
  deriving DecidableEq, Repr

/-- The name of a comparison's node. -/
def IrcComparison.text : IrcComparison → String
  | .eq => "eq"
  | .notEq => "not-eq"
  | .lt => "lt"
  | .gt => "gt"
  | .ltEq => "lt-eq"
  | .gtEq => "gt-eq"

/-- `irc_type` of a comparison, none for those that `ExprToIRCJson` drops. -/
def ComparisonType.ircType : ComparisonType → Option IrcComparison
  | .equal => some .eq
  | .notEqual => some .notEq
  | .lessThan => some .lt
  | .greaterThan => some .gt
  | .lessThanOrEqualTo => some .ltEq
  | .greaterThanOrEqualTo => some .gtEq
  | .distinctFrom | .notDistinctFrom => none

/-- A comparison's node. -/
def comparisonNode (irc_type term val_json : String) : String :=
  "\x7b\"type\":\"" ++ irc_type ++ "\",\"term\":" ++ term ++ ",\"value\":" ++ val_json ++ "\x7d"

/-- A null test's node. -/
def nullNode (irc_type term : String) : String :=
  "\x7b\"type\":\"" ++ irc_type ++ "\",\"term\":" ++ term ++ "\x7d"

/-- The node of an AND or OR of two. -/
def binaryNode (irc_type left right : String) : String :=
  "\x7b\"type\":\"" ++ irc_type ++ "\",\"left\":" ++ left ++ ",\"right\":" ++ right ++ "\x7d"

/-- A column compared with a constant. -/
def comparisonTerm (type : ComparisonType) (name : String) (value : ConstantValue D) :
    Except Exception String :=
  match type.ircType with
  | none => .ok ""
  | some irc_type =>
    if termForColumnRef name = "" then .ok ""
    else do
      let val_json ← valueToIRCJson value
      if val_json = "" then return ""
      else return comparisonNode irc_type.text (termForColumnRef name) val_json

/-- `ExprToIRCJson` on a comparison; the term always names the column. -/
def comparisonToIRCJson (type : ComparisonType) :
    Expression D → Expression D → Except Exception String
  | .columnRef name, .constant value => comparisonTerm type name value
  | .constant value, .columnRef name => comparisonTerm type.flip name value
  | _, _ => .ok ""

/-- `ExprToIRCJson` on an operator -/
def operatorToIRCJson : OperatorType → List (Expression D) → String
  | .isNull, [.columnRef name] =>
    if termForColumnRef name = "" then "" else nullNode "is-null" (termForColumnRef name)
  | .isNotNull, [.columnRef name] =>
    if termForColumnRef name = "" then "" else nullNode "not-null" (termForColumnRef name)
  | _, _ => ""

/-- The parts of a conjunction, nested to the left; a single one as it is. -/
def joinParts (irc_type : String) : List String → String
  | [] => ""
  | part :: parts => parts.foldl (binaryNode irc_type) part

mutual

/-- `ExprToIRCJson`; the empty text where there is no IRC form. -/
def exprToIRCJson : Expression D → Except Exception String
  | .comparison type left right => comparisonToIRCJson type left right
  | .conjunction is_and children => do
    match ← conjunctionParts is_and children with
    | none => return ""
    | some parts => return joinParts (if is_and then "and" else "or") parts
  | .operator type children => .ok (operatorToIRCJson type children)
  | .columnRef _ | .constant _ | .other _ => .ok ""

/-- The loop over a conjunction's children; none where an OR is dropped whole. -/
def conjunctionParts (is_and : Bool) : List (Expression D) → Except Exception (Option (List String))
  | [] => .ok (some [])
  | child :: children => do
    let s ← exprToIRCJson child
    if s = "" then
      if is_and then conjunctionParts is_and children else return none
    else
      let parts ← conjunctionParts is_and children
      return parts.map (s :: ·)

end

/-- `SerializeFiltersToIRC` -/
def serializeFiltersToIRC (filters : List (Expression D)) : Except Exception String := do
  let parts ← filters.mapM exprToIRCJson
  return joinParts "and" (parts.filter (· ≠ ""))

/-- `UCScanPlanPushdownFilter`; a filter that cannot be serialised is left out. -/
def pushdownFilter (bd : UCScanPlanBindData) (filters : List (Expression D)) : UCScanPlanBindData :=
  if filters.isEmpty then bd
  else match serializeFiltersToIRC filters with
    | .ok filter_json => { bd with filter_json }
    | .error _ => { bd with filter_json := "" }

end Text

/-! ## The tree -/

/-- A value in an IRC expression. -/
inductive Literal (D : Type) where
  | integer (v : ℤ)
  | unsigned (v : ℕ)
  | floating (d : D)
  | boolean (b : Bool)
  | varchar (s : String)

/-- An IRC expression. -/
inductive IrcExpr (D : Type) where
  | comparison (type : IrcComparison) (term : String) (value : Literal D)
  | isNull (term : String)
  | notNull (term : String)
  | and (left right : IrcExpr D)
  | or (left right : IrcExpr D)

section Tree

variable {D : Type} [DoubleFormat D]

/-- How a value is written. -/
def Literal.toJson : Literal D → String
  | .integer v => toString v
  | .unsigned v => toString v
  | .floating d => DoubleFormat.format d
  | .boolean b => if b then "true" else "false"
  | .varchar s => jsonQuote s

/-- How an expression is written. -/
def IrcExpr.toJson : IrcExpr D → String
  | .comparison type term value => comparisonNode type.text (jsonQuote term) value.toJson
  | .isNull term => nullNode "is-null" (jsonQuote term)
  | .notNull term => nullNode "not-null" (jsonQuote term)
  | .and left right => binaryNode "and" left.toJson right.toJson
  | .or left right => binaryNode "or" left.toJson right.toJson

/-- What is sent for an expression, or for none. -/
def filterText (o : Option (IrcExpr D)) : String := (o.map IrcExpr.toJson).getD ""

/-- The literal a constant becomes, none if it has no IRC form. -/
def ConstantValue.literal : ConstantValue D → Except Exception (Option (Literal D))
  | .integer (some v) => .ok (some (.integer v))
  | .unsigned (some v) => .ok (some (.unsigned v))
  | .floating (some d) => .ok (if DoubleFormat.isFinite d then some (.floating d) else none)
  | .boolean (some b) => .ok (some (.boolean b))
  | .varchar v => .ok (some (.varchar (v.getD "NULL")))
  | .other _ => .ok none
  | .integer none | .unsigned none | .floating none | .boolean none => .error valueIsNull

/-- The tree of a column compared with a constant. -/
def comparisonTree (type : ComparisonType) (name : String) (value : ConstantValue D) :
    Except Exception (Option (IrcExpr D)) :=
  match type.ircType with
  | none => .ok none
  | some irc_type =>
    if name = "" then .ok none
    else do
      let literal ← value.literal
      return literal.map (.comparison irc_type name)

/-- The tree of a comparison. -/
def comparisonToIRC (type : ComparisonType) :
    Expression D → Expression D → Except Exception (Option (IrcExpr D))
  | .columnRef name, .constant value => comparisonTree type name value
  | .constant value, .columnRef name => comparisonTree type.flip name value
  | _, _ => .ok none

/-- The tree of an operator. -/
def operatorToIRC : OperatorType → List (Expression D) → Option (IrcExpr D)
  | .isNull, [.columnRef name] => if name = "" then none else some (.isNull name)
  | .isNotNull, [.columnRef name] => if name = "" then none else some (.notNull name)
  | _, _ => none

/-- The node of an AND or OR of two trees. -/
def IrcExpr.binary (is_and : Bool) (left right : IrcExpr D) : IrcExpr D :=
  if is_and then .and left right else .or left right

/-- The tree of a conjunction's parts. -/
def joinTrees (is_and : Bool) : List (IrcExpr D) → Option (IrcExpr D)
  | [] => none
  | part :: parts => some (parts.foldl (IrcExpr.binary is_and) part)

mutual

/-- The tree `ExprToIRCJson` writes. -/
def exprToIRC : Expression D → Except Exception (Option (IrcExpr D))
  | .comparison type left right => comparisonToIRC type left right
  | .conjunction is_and children => do
    let parts ← conjunctionTrees is_and children
    return parts.bind (joinTrees is_and)
  | .operator type children => .ok (operatorToIRC type children)
  | .columnRef _ | .constant _ | .other _ => .ok none

/-- The trees of a conjunction's children. -/
def conjunctionTrees (is_and : Bool) :
    List (Expression D) → Except Exception (Option (List (IrcExpr D)))
  | [] => .ok (some [])
  | child :: children => do
    match ← exprToIRC child with
    | none => if is_and then conjunctionTrees is_and children else return none
    | some part =>
      let parts ← conjunctionTrees is_and children
      return parts.map (part :: ·)

end

/-- The tree `SerializeFiltersToIRC` writes. -/
def filtersToIRC (filters : List (Expression D)) : Except Exception (Option (IrcExpr D)) := do
  let parts ← filters.mapM exprToIRC
  return joinTrees true parts.reduceOption

/-! ### The text is the writing of the tree -/

@[simp] theorem jsonQuote_ne (s : String) : jsonQuote s ≠ "" := by simp [jsonQuote]

/-- An expression's text is never empty, so that an empty text can stand for none. -/
theorem IrcExpr.toJson_ne (e : IrcExpr D) : e.toJson ≠ "" := by
  cases e <;> simp [toJson, comparisonNode, nullNode, binaryNode]

/-- A literal's text is never empty either: a text has its quotes, and a number its digits. -/
theorem Literal.toJson_ne (l : Literal D) : l.toJson ≠ "" := by
  cases l with
  | integer v =>
    rw [toJson, Int.toString_eq_repr, Int.repr_eq_if]
    split <;> simp [Nat.repr_ne_empty]
  | unsigned v => simp [toJson, Nat.toString_eq_repr, Nat.repr_ne_empty]
  | floating d => exact DoubleFormat.format_ne
  | boolean b => cases b <;> simp [toJson]
  | varchar s => exact jsonQuote_ne s

@[simp] theorem filterText_none : filterText (none : Option (IrcExpr D)) = "" := rfl

@[simp] theorem filterText_some (e : IrcExpr D) : filterText (some e) = e.toJson := rfl

@[simp] theorem termForColumnRef_eq_empty {name : String} :
    termForColumnRef name = "" ↔ name = "" := by
  by_cases h : name = "" <;> simp [termForColumnRef, h]

/-- The text made of a value is that of its literal. The source builds texts; here and below they
are told apart from the expressions they stand for. -/
theorem valueToIRCJson_eq (v : ConstantValue D) :
    valueToIRCJson v = (fun o => (o.map Literal.toJson).getD "") <$> v.literal := by
  rcases v with v | v | d | b | v | k
  case floating =>
    cases d with
    | none => rfl
    | some d => by_cases h : DoubleFormat.isFinite d <;>
        simp [valueToIRCJson, ConstantValue.literal, h, Literal.toJson]
  all_goals first | rfl | cases v <;> rfl | cases b <;> rfl

/-- A comparison's text is that of its expression, and empty where there is none. -/
theorem comparisonTerm_eq (type : ComparisonType) (name : String) (value : ConstantValue D) :
    comparisonTerm type name value = filterText <$> comparisonTree type name value := by
  unfold comparisonTerm comparisonTree
  cases type.ircType with
  | none => rfl
  | some irc_type =>
    by_cases hname : name = ""
    · simp [hname]
    · simp only [termForColumnRef_eq_empty, if_neg hname, valueToIRCJson_eq]
      rcases value.literal with e | _ | l
      · rfl
      · rfl
      · have := l.toJson_ne
        simp [this, IrcExpr.toJson, termForColumnRef, hname, pure, Except.pure, bind, Except.bind]

/-- Whichever side the column stands on, the text is that of the expression. -/
theorem comparisonToIRCJson_eq (type : ComparisonType) (left right : Expression D) :
    comparisonToIRCJson type left right = filterText <$> comparisonToIRC type left right := by
  cases left <;> cases right <;> first | exact comparisonTerm_eq .. | rfl

/-- A null test's text is that of its expression. -/
theorem operatorToIRCJson_eq (type : OperatorType) (children : List (Expression D)) :
    operatorToIRCJson type children = filterText (operatorToIRC type children) := by
  unfold operatorToIRC
  split
  · rename_i name
    by_cases h : name = "" <;>
      simp [operatorToIRCJson, h, IrcExpr.toJson, termForColumnRef]
  · rename_i name
    by_cases h : name = "" <;>
      simp [operatorToIRCJson, h, IrcExpr.toJson, termForColumnRef]
  · rename_i hn hnn
    unfold operatorToIRCJson
    split
    · exact absurd rfl (hn _ rfl)
    · exact absurd rfl (hnn _ rfl)
    · rfl

/-- Joined parts nest to the left, in the text as in the expression. The induction is on the parts
that are still to come. -/
theorem toJson_foldl_binary (is_and : Bool) (part : IrcExpr D) (parts : List (IrcExpr D)) :
    (parts.foldl (IrcExpr.binary is_and) part).toJson =
      (parts.map IrcExpr.toJson).foldl (binaryNode (if is_and then "and" else "or"))
        part.toJson := by
  induction parts generalizing part with
  | nil => rfl
  | cons next parts ih =>
    rw [List.foldl_cons, ih, List.map_cons, List.foldl_cons]
    cases is_and <;> rfl

/-- The joining of texts is the joining of expressions, no part being empty. -/
theorem joinParts_eq (is_and : Bool) (parts : List (IrcExpr D)) :
    joinParts (if is_and then "and" else "or") (parts.map IrcExpr.toJson) =
      filterText (joinTrees is_and parts) := by
  cases parts with
  | nil => rfl
  | cons part parts => exact (toJson_foldl_binary is_and part parts).symm

mutual

/-- The text the source makes of a filter is the text of an expression. The induction follows the
filter, and goes back and forth with the one over children. -/
theorem exprToIRCJson_eq : ∀ e : Expression D, exprToIRCJson e = filterText <$> exprToIRC e
  | .comparison type left right => by
    rw [exprToIRCJson, exprToIRC]
    exact comparisonToIRCJson_eq type left right
  | .conjunction is_and children => by
    rw [exprToIRCJson, exprToIRC, conjunctionParts_eq is_and children]
    rcases conjunctionTrees is_and children with e | _ | parts
    · rfl
    · rfl
    · exact congrArg Except.ok (joinParts_eq is_and parts)
  | .operator type children => by
    rw [exprToIRCJson, exprToIRC, operatorToIRCJson_eq]
    rfl
  | .columnRef _ => rfl
  | .constant _ => rfl
  | .other _ => rfl

/-- The texts of a conjunction's children are those of their expressions, with those that have none
left out or, under OR, giving the whole up. -/
theorem conjunctionParts_eq (is_and : Bool) : ∀ children : List (Expression D),
    conjunctionParts is_and children =
      (Option.map (List.map IrcExpr.toJson)) <$> conjunctionTrees is_and children
  | [] => rfl
  | child :: children => by
    rw [conjunctionParts, conjunctionTrees, exprToIRCJson_eq child,
      conjunctionParts_eq is_and children]
    -- by what the child becomes: an exception, nothing, or a part
    rcases exprToIRC child with e | _ | part
    · rfl
    · cases is_and <;> rfl
    · have := part.toJson_ne
      rcases conjunctionTrees is_and children with e | _ | parts <;>
        simp [this, bind, Except.bind, pure, Except.pure]

end

/-- All filters together are sent as the text of one expression. -/
theorem serializeFiltersToIRC_eq (filters : List (Expression D)) :
    serializeFiltersToIRC filters = filterText <$> filtersToIRC filters := by
  have hmap : filters.mapM exprToIRCJson =
      List.map filterText <$> filters.mapM (exprToIRC (D := D)) := by
    induction filters with
    | nil => rfl
    | cons e es ih =>
      rw [List.mapM_cons, List.mapM_cons, ih, exprToIRCJson_eq]
      rcases exprToIRC e with _ | o
      · rfl
      · rcases es.mapM exprToIRC with _ | os <;> rfl
  have hparts (os : List (Option (IrcExpr D))) :
      (os.map filterText).filter (· ≠ "") = os.reduceOption.map IrcExpr.toJson := by
    induction os with
    | nil => rfl
    | cons o os ih =>
      cases o with
      | none => simpa [List.reduceOption_cons_of_none] using ih
      | some e => simpa [List.reduceOption_cons_of_some, e.toJson_ne] using ih
  rw [serializeFiltersToIRC, filtersToIRC, hmap]
  rcases filters.mapM exprToIRC with _ | os
  · rfl
  · exact congrArg Except.ok ((congrArg (joinParts "and") (hparts os)).trans
      (joinParts_eq true os.reduceOption))

/-- Under AND each child is turned into what it can be, and those that cannot be sent are
dropped. -/
theorem conjunctionTrees_true (filters : List (Expression D)) :
    conjunctionTrees true filters =
      (fun os => some os.reduceOption) <$> filters.mapM exprToIRC := by
  induction filters with
  | nil => rfl
  | cons f fs ih =>
    rw [conjunctionTrees, List.mapM_cons, ih]
    rcases exprToIRC f with _ | _ | part
    · rfl
    · rcases fs.mapM exprToIRC with _ | os <;> rfl
    · rcases fs.mapM exprToIRC with _ | os <;> rfl

/-- A list of filters is serialised as their AND is. -/
theorem filtersToIRC_eq (filters : List (Expression D)) :
    filtersToIRC filters = exprToIRC (.conjunction true filters) := by
  rw [exprToIRC, conjunctionTrees_true, filtersToIRC]
  rcases filters.mapM exprToIRC with _ | os <;> rfl

end Tree

/-! ## What filters and trees mean -/

/-- The SQL comparison that an IRC comparison is. -/
def IrcComparison.sql : IrcComparison → ComparisonType
  | .eq => .equal
  | .notEq => .notEqual
  | .lt => .lessThan
  | .gt => .greaterThan
  | .ltEq => .lessThanOrEqualTo
  | .gtEq => .greaterThanOrEqualTo

/-- A table's row, by column name; `none` is NULL. -/
abbrev NamedRow (V : Type) := String → Option V

/-- What SQL makes of values, and of the nodes that have no IRC form. -/
structure SqlMeaning (D V : Type) where
  literal : Literal D → V
  /-- a constant of a type that is not serialised -/
  otherConstant : ℕ → Option V
  ofBool : Bool → V
  isTrue : V → Bool
  isTrue_ofBool : ∀ b, isTrue (ofBool b) = b
  /-- a comparison of two values that are not NULL -/
  holds : ComparisonType → V → V → Bool
  /-- FlipComparisonExpression mirrors the operator -/
  holds_flip : ∀ t a b, holds t.flip a b = holds t b a
  /-- any other operator, on what its children are -/
  operator : OperatorType → List (Option V) → Option V
  /-- any other node, on a row -/
  node : ℕ → NamedRow V → Option V

namespace SqlMeaning

variable {D V : Type} (S : SqlMeaning D V)

/-- The truth value of a value. -/
def truth (v : Option V) : Option Bool := v.map S.isTrue

/-- A truth value as a value. -/
def ofTruth (t : Option Bool) : Option V := t.map S.ofBool

/-- A constant's value; NULL for the NULL of any type. -/
def constant : ConstantValue D → Option V
  | .integer v => v.map fun v => S.literal (.integer v)
  | .unsigned v => v.map fun v => S.literal (.unsigned v)
  | .floating v => v.map fun v => S.literal (.floating v)
  | .boolean v => v.map fun v => S.literal (.boolean v)
  | .varchar v => v.map fun v => S.literal (.varchar v)
  | .other k => S.otherConstant k

/-- IS DISTINCT FROM, which knows NULL. -/
def distinct : Option V → Option V → Bool
  | none, none => false
  | some a, some b => S.holds .notEqual a b
  | _, _ => true

/-- A comparison; UNKNOWN on a NULL unless it is one of the two that know NULL. -/
def compare (type : ComparisonType) (a b : Option V) : Option Bool :=
  match type with
  | .distinctFrom => some (S.distinct a b)
  | .notDistinctFrom => some (!S.distinct a b)
  | type => a.bind fun a => b.map fun b => S.holds type a b

/-- An operator on the values of its children. -/
def applyOperator : OperatorType → List (Option V) → Option V
  | .isNull, [v] => some (S.ofBool v.isNone)
  | .isNotNull, [v] => some (S.ofBool v.isSome)
  | type, vs => S.operator type vs

mutual

/-- What an expression is on a row. -/
def eval (row : NamedRow V) : Expression D → Option V
  | .comparison type left right =>
    S.ofTruth (S.compare type (eval row left) (eval row right))
  | .conjunction is_and children =>
    let ts := (evalAll row children).map S.truth
    S.ofTruth (if is_and then ThreeValued.all ts else ThreeValued.any ts)
  | .operator type children => S.applyOperator type (evalAll row children)
  | .columnRef name => row name
  | .constant v => S.constant v
  | .other k => S.node k row

/-- What expressions are on a row, one by one. -/
def evalAll (row : NamedRow V) : List (Expression D) → List (Option V)
  | [] => []
  | e :: es => eval row e :: evalAll row es

end

/-- A filter keeps the row. -/
def Keeps (row : NamedRow V) (e : Expression D) : Prop := S.truth (S.eval row e) = some true

/-- What an IRC expression is on a row: its nodes mean the SQL ones. -/
def evalIrc (row : NamedRow V) : IrcExpr D → Option Bool
  | .comparison type term value => S.compare type.sql (row term) (some (S.literal value))
  | .isNull term => some (row term).isNone
  | .notNull term => some (row term).isSome
  | .and left right => ThreeValued.and (evalIrc row left) (evalIrc row right)
  | .or left right => ThreeValued.or (evalIrc row left) (evalIrc row right)

/-- What was sent keeps the row; nothing sent keeps every row. -/
def KeepsIrc (row : NamedRow V) (o : Option (IrcExpr D)) : Prop :=
  ∀ e ∈ o, S.evalIrc row e = some true

/-! ### Connectives -/

@[simp] theorem truth_ofTruth (t : Option Bool) : S.truth (S.ofTruth t) = t := by
  cases t <;> simp [truth, ofTruth, S.isTrue_ofBool]

/-- The children are evaluated one by one: the mutual definition in the form that is used. -/
theorem evalAll_eq_map (row : NamedRow V) (es : List (Expression D)) :
    S.evalAll row es = es.map (S.eval row) := by
  induction es with
  | nil => rfl
  | cons e es ih => rw [evalAll, ih, List.map_cons]

/-- A row passes an AND exactly if it passes each part; an unknown part passes nothing. -/
theorem keeps_and {row : NamedRow V} {children : List (Expression D)} :
    S.Keeps row (.conjunction true children) ↔ ∀ c ∈ children, S.Keeps row c := by
  simp [Keeps, eval, evalAll_eq_map]

/-- A row passes an OR exactly if it passes some part. -/
theorem keeps_or {row : NamedRow V} {children : List (Expression D)} :
    S.Keeps row (.conjunction false children) ↔ ∃ c ∈ children, S.Keeps row c := by
  simp [Keeps, eval, evalAll_eq_map]

/-- A nesting of ANDs is true where each of its parts is. The induction is on the parts, with the
one in front arbitrary. -/
theorem evalIrc_foldl_and (row : NamedRow V) (part : IrcExpr D) (parts : List (IrcExpr D)) :
    S.evalIrc row (parts.foldl (IrcExpr.binary true) part) = some true ↔
      ∀ p ∈ part :: parts, S.evalIrc row p = some true := by
  induction parts generalizing part with
  | nil => simp
  | cons next parts ih =>
    rw [List.foldl_cons, ih]
    simp [IrcExpr.binary, evalIrc, and_assoc]

/-- A nesting of ORs is true where one of its parts is. -/
theorem evalIrc_foldl_or (row : NamedRow V) (part : IrcExpr D) (parts : List (IrcExpr D)) :
    S.evalIrc row (parts.foldl (IrcExpr.binary false) part) = some true ↔
      ∃ p ∈ part :: parts, S.evalIrc row p = some true := by
  induction parts generalizing part with
  | nil => simp
  | cons next parts ih =>
    rw [List.foldl_cons, ih]
    simp [IrcExpr.binary, evalIrc, or_assoc]

/-- What is sent for an AND keeps the rows that each sent part keeps, and all if nothing is sent. -/
theorem keepsIrc_and {row : NamedRow V} {parts : List (IrcExpr D)} :
    S.KeepsIrc row (joinTrees true parts) ↔ ∀ p ∈ parts, S.evalIrc row p = some true := by
  cases parts with
  | nil => simp [joinTrees, KeepsIrc]
  | cons part parts => simpa [joinTrees, KeepsIrc] using S.evalIrc_foldl_and row part parts

/-- Of no parts at all nothing is sent, so the disjunction of some is what this is about. -/
theorem keepsIrc_or {row : NamedRow V} {parts : List (IrcExpr D)} (hparts : parts ≠ []) :
    S.KeepsIrc row (joinTrees false parts) ↔ ∃ p ∈ parts, S.evalIrc row p = some true := by
  cases parts with
  | nil => exact absurd rfl hparts
  | cons part parts => simpa [joinTrees, KeepsIrc] using S.evalIrc_foldl_or row part parts

/-! ### Leaves -/

/-- Being distinct is symmetric, NULL being distinct from all but itself. -/
theorem distinct_comm (a b : Option V) : S.distinct a b = S.distinct b a := by
  rcases a with _ | a <;> rcases b with _ | b <;> try rfl
  exact S.holds_flip .notEqual a b

/-- Turning a comparison around with its sides changes nothing, for NULL as well. -/
theorem compare_flip (type : ComparisonType) (a b : Option V) :
    S.compare type.flip a b = S.compare type b a := by
  cases type with
  | distinctFrom => simp [ComparisonType.flip, compare, S.distinct_comm a b]
  | notDistinctFrom => simp [ComparisonType.flip, compare, S.distinct_comm a b]
  | _ =>
    rcases a with _ | a <;> rcases b with _ | b <;> try rfl
    exact congrArg some (S.holds_flip _ a b)

/-- Each of the six comparisons that are sent has its SQL meaning. -/
theorem sql_of_ircType {type : ComparisonType} {t : IrcComparison} (h : type.ircType = some t) :
    t.sql = type := by
  cases type <;> cases h <;> rfl

/-- A comparison that has an IRC form is not TRUE on a NULL. -/
theorem exists_of_compare {t : IrcComparison} {a b : Option V}
    (h : S.compare t.sql a b = some true) : ∃ w, b = some w := by
  rcases b with _ | w
  · cases t <;> cases a <;> simp [IrcComparison.sql, compare] at h
  · exact ⟨w, rfl⟩

/-- A null test is sent exactly: a row passes what is sent where it passes the filter. -/
theorem keeps_operator {type : OperatorType} {children : List (Expression D)}
    {e : IrcExpr D} (h : operatorToIRC type children = some e) (row : NamedRow V) :
    S.evalIrc row e = some true ↔ S.Keeps row (.operator type children) := by
  unfold operatorToIRC at h
  split at h
  · split at h
    · cases h
    · cases h
      simp [Keeps, eval, evalAll, applyOperator, evalIrc, truth, S.isTrue_ofBool]
  · split at h
    · cases h
    · cases h
      simp [Keeps, eval, evalAll, applyOperator, evalIrc, truth, S.isTrue_ofBool]
  · cases h

section Serialised

variable [DoubleFormat D]

/-- A literal has the value of the constant it was made of, if the constant has one. -/
theorem constant_of_literal {v : ConstantValue D} {l : Literal D} {w : V}
    (h : v.literal = .ok (some l)) (hv : S.constant v = some w) : w = S.literal l := by
  rcases v with v | v | d | b | s | k
  case other => cases h
  all_goals
    obtain ⟨x, rfl, rfl⟩ := Option.map_eq_some_iff.1 hv
    simp only [ConstantValue.literal] at h
    try split at h
    all_goals cases h
    all_goals rfl

/-- What the tree of a comparison is made of. -/
theorem comparisonTree_cases {type : ComparisonType} {name : String} {v : ConstantValue D}
    {e : IrcExpr D} (h : comparisonTree type name v = .ok (some e)) :
    ∃ t l, type.ircType = some t ∧ name ≠ "" ∧ v.literal = .ok (some l) ∧
      e = .comparison t name l := by
  unfold comparisonTree at h
  split at h
  · cases h
  · rename_i t ht
    split at h
    · cases h
    · rename_i hname
      obtain ⟨o, ho, h⟩ := except_bind_eq_ok.1 h
      cases o with
      | none => cases h
      | some l =>
        cases h
        exact ⟨t, l, ht, hname, ho, rfl⟩

/-- Where the filter's comparison is true, the one that is sent is true: the two differ at most in
what they make of rows that fail. -/
theorem evalIrc_of_compare {type : ComparisonType} {name : String} {v : ConstantValue D}
    {e : IrcExpr D} (h : comparisonTree type name v = .ok (some e)) {row : NamedRow V}
    (hk : S.compare type (row name) (S.constant v) = some true) : S.evalIrc row e = some true := by
  obtain ⟨t, l, ht, -, hl, rfl⟩ := comparisonTree_cases h
  obtain rfl := sql_of_ircType ht
  obtain ⟨w, hw⟩ := S.exists_of_compare hk
  obtain rfl := S.constant_of_literal hl hw
  rw [hw] at hk
  exact hk

/-! ### No wanted row is pruned -/

/-- A row that passes a comparison passes what is sent for it, if anything is. -/
theorem keepsIrc_comparison {type : ComparisonType} {left right : Expression D}
    {o : Option (IrcExpr D)} (h : comparisonToIRC type left right = .ok o) {row : NamedRow V}
    (hk : S.Keeps row (.comparison type left right)) : S.KeepsIrc row o := by
  intro e he
  obtain rfl : o = some e := he
  rw [Keeps, eval, truth_ofTruth] at hk
  unfold comparisonToIRC at h
  split at h
  · exact S.evalIrc_of_compare h hk
  · -- the constant stands on the left
    refine S.evalIrc_of_compare h ?_
    rw [compare_flip]
    exact hk
  · cases h

mutual

/-- Whatever an expression becomes is TRUE where the expression is. -/
theorem keepsIrc_of_keeps {row : NamedRow V} : ∀ (e : Expression D) {o : Option (IrcExpr D)},
    exprToIRC e = .ok o → S.Keeps row e → S.KeepsIrc row o
  | .comparison type left right, o, h, hk => by
    rw [exprToIRC] at h
    exact S.keepsIrc_comparison h hk
  | .conjunction true children, o, h, hk => by
    rw [exprToIRC] at h
    obtain ⟨parts, hparts, h⟩ := except_bind_eq_ok.1 h
    cases h
    cases parts with
    | none => simp [KeepsIrc]
    | some parts =>
      exact S.keepsIrc_and.2 (all_of_all children hparts (S.keeps_and.1 hk))
  | .conjunction false children, o, h, hk => by
    rw [exprToIRC] at h
    obtain ⟨parts, hparts, h⟩ := except_bind_eq_ok.1 h
    cases h
    cases parts with
    | none => simp [KeepsIrc]
    | some parts =>
      obtain ⟨p, hp, hpk⟩ := any_of_any children hparts (S.keeps_or.1 hk)
      exact (S.keepsIrc_or (List.ne_nil_of_mem hp)).2 ⟨p, hp, hpk⟩
  | .operator type children, o, h, hk => by
    rw [exprToIRC] at h
    cases h
    intro e he
    exact (S.keeps_operator he row).2 hk
  | .columnRef _, o, h, _ => by cases h; simp [KeepsIrc]
  | .constant _, o, h, _ => by cases h; simp [KeepsIrc]
  | .other _, o, h, _ => by cases h; simp [KeepsIrc]

/-- An AND's parts: what was left out only made it weaker. -/
theorem all_of_all {row : NamedRow V} : ∀ (children : List (Expression D))
    {parts : List (IrcExpr D)}, conjunctionTrees true children = .ok (some parts) →
    (∀ c ∈ children, S.Keeps row c) → ∀ p ∈ parts, S.evalIrc row p = some true
  | [], parts, h, _ => by
    cases h
    simp
  | child :: children, parts, h, hk => by
    rw [conjunctionTrees] at h
    obtain ⟨o, ho, h⟩ := except_bind_eq_ok.1 h
    obtain ⟨hchild, hrest⟩ := List.forall_mem_cons.1 hk
    cases o with
    | none => exact all_of_all children h hrest
    | some part =>
      obtain ⟨rest, hparts, h⟩ := except_bind_eq_ok.1 h
      obtain ⟨rest, rfl, rfl⟩ := Option.map_eq_some_iff.1 (Except.ok.inj h)
      have hpart := keepsIrc_of_keeps child ho hchild part rfl
      exact List.forall_mem_cons.2 ⟨hpart, all_of_all children hparts hrest⟩

/-- An OR's parts, which are all of its children. -/
theorem any_of_any {row : NamedRow V} : ∀ (children : List (Expression D))
    {parts : List (IrcExpr D)}, conjunctionTrees false children = .ok (some parts) →
    (∃ c ∈ children, S.Keeps row c) → ∃ p ∈ parts, S.evalIrc row p = some true
  | [], _, _, ⟨_, hc, _⟩ => absurd hc List.not_mem_nil
  | child :: children, parts, h, ⟨c, hc, hck⟩ => by
    rw [conjunctionTrees] at h
    obtain ⟨o, ho, h⟩ := except_bind_eq_ok.1 h
    cases o with
    | none => cases h
    | some part =>
      obtain ⟨rest, hparts, h⟩ := except_bind_eq_ok.1 h
      obtain ⟨rest, rfl, rfl⟩ := Option.map_eq_some_iff.1 (Except.ok.inj h)
      rcases List.mem_cons.1 hc with hchild | hc
      · rw [hchild] at hck
        exact ⟨part, List.mem_cons_self, keepsIrc_of_keeps child ho hck part rfl⟩
      · obtain ⟨p, hp, hpk⟩ := any_of_any children hparts ⟨c, hc, hck⟩
        exact ⟨p, List.mem_cons_of_mem _ hp, hpk⟩

end

end Serialised

end SqlMeaning

/-! ## Filters that are sent whole -/

mutual

/-- The leaves under the ANDs and ORs; one without children is itself a leaf. -/
def Expression.leaves {D : Type} : Expression D → List (Expression D)
  | .conjunction is_and [] => [.conjunction is_and []]
  | .conjunction _ (child :: children) => child.leaves ++ leavesAll children
  | e => [e]

/-- The leaves of several expressions. -/
def leavesAll {D : Type} : List (Expression D) → List (Expression D)
  | [] => []
  | e :: es => e.leaves ++ leavesAll es

end

/-- A constant that has an IRC form: not NULL, of a type that is serialised, and finite. -/
inductive ConstantValue.Sendable {D : Type} [DoubleFormat D] : ConstantValue D → Prop where
  | integer (v : ℤ) : Sendable (.integer (some v))
  | unsigned (v : ℕ) : Sendable (.unsigned (some v))
  | floating (d : D) (hd : DoubleFormat.isFinite d = true) : Sendable (.floating (some d))
  | boolean (b : Bool) : Sendable (.boolean (some b))
  | varchar (s : String) : Sendable (.varchar (some s))

/-- A leaf that has an IRC form: a column with a name, compared with a constant on either side by
one of the comparisons IRC has, or tested for NULL. -/
inductive Expression.Supported {D : Type} [DoubleFormat D] : Expression D → Prop where
  | comparison {type : ComparisonType} {name : String} {v : ConstantValue D}
      (htype : type ≠ .distinctFrom ∧ type ≠ .notDistinctFrom) (hname : name ≠ "")
      (hv : v.Sendable) : Supported (.comparison type (.columnRef name) (.constant v))
  | mirrored {type : ComparisonType} {name : String} {v : ConstantValue D}
      (htype : type ≠ .distinctFrom ∧ type ≠ .notDistinctFrom) (hname : name ≠ "")
      (hv : v.Sendable) : Supported (.comparison type (.constant v) (.columnRef name))
  | isNull {name : String} (hname : name ≠ "") : Supported (.operator .isNull [.columnRef name])
  | isNotNull {name : String} (hname : name ≠ "") :
      Supported (.operator .isNotNull [.columnRef name])

/-- Two lists that agree place by place agree on whether all of them pass. -/
theorem forall₂_forall_iff {α β : Type} {P : α → Prop} {Q : β → Prop} {as : List α} {bs : List β}
    (h : List.Forall₂ (fun a b => Q b ↔ P a) as bs) : (∀ b ∈ bs, Q b) ↔ ∀ a ∈ as, P a := by
  induction h with
  | nil => simp
  | cons hab _ ih => simp only [List.forall_mem_cons, hab, ih]

theorem forall₂_exists_iff {α β : Type} {P : α → Prop} {Q : β → Prop} {as : List α} {bs : List β}
    (h : List.Forall₂ (fun a b => Q b ↔ P a) as bs) : (∃ b ∈ bs, Q b) ↔ ∃ a ∈ as, P a := by
  induction h with
  | nil => simp
  | cons hab _ ih => simp only [List.mem_cons, exists_eq_or_imp, hab, ih]

namespace SqlMeaning

variable {D V : Type} [DoubleFormat D] (S : SqlMeaning D V)

/-- A constant that can be sent has a literal of the same value, which the exactness of a filter
rests on. -/
theorem literal_of_sendable {v : ConstantValue D} (hv : v.Sendable) :
    ∃ l, v.literal = .ok (some l) ∧ S.constant v = some (S.literal l) := by
  cases hv with
  | integer v => exact ⟨.integer v, rfl, rfl⟩
  | unsigned v => exact ⟨.unsigned v, rfl, rfl⟩
  | floating d hd => exact ⟨.floating d, by simp [ConstantValue.literal, hd], rfl⟩
  | boolean b => exact ⟨.boolean b, rfl, rfl⟩
  | varchar s => exact ⟨.varchar s, rfl, rfl⟩

/-- All comparisons but the two about distinctness can be sent. -/
theorem exists_ircType {type : ComparisonType}
    (h : type ≠ .distinctFrom ∧ type ≠ .notDistinctFrom) : ∃ t, type.ircType = some t := by
  cases type <;> simp_all [ComparisonType.ircType]

/-- Turning a comparison around does not make it one about distinctness. -/
theorem flip_ne {type : ComparisonType} (h : type ≠ .distinctFrom ∧ type ≠ .notDistinctFrom) :
    type.flip ≠ .distinctFrom ∧ type.flip ≠ .notDistinctFrom := by
  cases type <;> simp_all [ComparisonType.flip]

/-- A comparison with a constant that can be sent is sent as an expression that has the same value
on every row, unknown included. -/
theorem comparisonTree_exact {type : ComparisonType} {name : String} {v : ConstantValue D}
    (htype : type ≠ .distinctFrom ∧ type ≠ .notDistinctFrom) (hname : name ≠ "")
    (hv : v.Sendable) :
    ∃ i, comparisonTree type name v = .ok (some i) ∧
      ∀ row : NamedRow V, S.evalIrc row i = S.compare type (row name) (S.constant v) := by
  obtain ⟨t, ht⟩ := exists_ircType htype
  obtain ⟨l, hl, hv⟩ := S.literal_of_sendable hv
  refine ⟨.comparison t name l, ?_, fun row => ?_⟩
  · simp only [comparisonTree, ht, if_neg hname, hl]
    rfl
  · rw [evalIrc, sql_of_ircType ht, hv]

/-- A supported filter without children is sent as an expression that keeps the same rows. -/
theorem leaf_exact {e : Expression D} (h : e.Supported) :
    ∃ i, exprToIRC e = .ok (some i) ∧
      ∀ row : NamedRow V, S.evalIrc row i = some true ↔ S.Keeps row e := by
  cases h with
  | comparison htype hname hv =>
    obtain ⟨i, hi, heval⟩ := S.comparisonTree_exact htype hname hv
    exact ⟨i, hi, fun row => by rw [heval, Keeps, eval, truth_ofTruth, eval, eval]⟩
  | mirrored htype hname hv =>
    obtain ⟨i, hi, heval⟩ := S.comparisonTree_exact (flip_ne htype) hname hv
    refine ⟨i, hi, fun row => ?_⟩
    rw [heval, compare_flip, Keeps, eval, truth_ofTruth, eval, eval]
  | isNull hname =>
    exact ⟨_, congrArg Except.ok (if_neg hname), S.keeps_operator (if_neg hname)⟩
  | isNotNull hname =>
    exact ⟨_, congrArg Except.ok (if_neg hname), S.keeps_operator (if_neg hname)⟩

mutual

/-- An expression whose leaves all have an IRC form is sent whole. -/
theorem exprToIRC_exact : ∀ e : Expression D, (∀ l ∈ e.leaves, l.Supported) →
    ∃ i, exprToIRC e = .ok (some i) ∧
      ∀ row : NamedRow V, S.evalIrc row i = some true ↔ S.Keeps row e
  | .conjunction _ [], h => by
    have := h _ (by rw [Expression.leaves]; exact List.mem_singleton_self _)
    cases this
  | .conjunction is_and (child :: children), h => by
    rw [Expression.leaves] at h
    obtain ⟨i, hi, hchild⟩ := exprToIRC_exact child fun l hl => h l (List.mem_append_left _ hl)
    obtain ⟨parts, hparts, hrest⟩ :=
      conjunctionTrees_exact is_and children fun l hl => h l (List.mem_append_right _ hl)
    have htrees : conjunctionTrees is_and (child :: children) = .ok (some (i :: parts)) := by
      rw [conjunctionTrees, hi, hparts]
      rfl
    refine ⟨parts.foldl (IrcExpr.binary is_and) i, ?_, fun row => ?_⟩
    · rw [exprToIRC, htrees]
      rfl
    · have hall : List.Forall₂ (fun c p => S.evalIrc row p = some true ↔ S.Keeps row c)
          (child :: children) (i :: parts) := .cons (hchild row) (hrest.imp fun _ _ h => h row)
      cases is_and with
      | true =>
        rw [evalIrc_foldl_and, keeps_and]
        exact forall₂_forall_iff hall
      | false =>
        rw [evalIrc_foldl_or, keeps_or]
        exact forall₂_exists_iff hall
  | .comparison _ _ _, h => S.leaf_exact (h _ (List.mem_singleton_self _))
  | .operator _ _, h => S.leaf_exact (h _ (List.mem_singleton_self _))
  | .columnRef _, h => S.leaf_exact (h _ (List.mem_singleton_self _))
  | .constant _, h => S.leaf_exact (h _ (List.mem_singleton_self _))
  | .other _, h => S.leaf_exact (h _ (List.mem_singleton_self _))

/-- Its children are sent one by one. -/
theorem conjunctionTrees_exact (is_and : Bool) : ∀ children : List (Expression D),
    (∀ l ∈ leavesAll children, l.Supported) →
    ∃ parts, conjunctionTrees is_and children = .ok (some parts) ∧
      List.Forall₂ (fun c p => ∀ row : NamedRow V, S.evalIrc row p = some true ↔ S.Keeps row c)
        children parts
  | [], _ => ⟨[], rfl, .nil⟩
  | child :: children, h => by
    rw [leavesAll] at h
    obtain ⟨i, hi, hchild⟩ := exprToIRC_exact child fun l hl => h l (List.mem_append_left _ hl)
    obtain ⟨parts, hparts, hrest⟩ :=
      conjunctionTrees_exact is_and children fun l hl => h l (List.mem_append_right _ hl)
    refine ⟨i :: parts, ?_, .cons hchild hrest⟩
    rw [conjunctionTrees, hi, hparts]
    rfl

end

/-- Filters whose leaves are all supported are sent exactly: nothing is dropped on the way. -/
theorem filters_exact {filters : List (Expression D)}
    (h : ∀ f ∈ filters, ∀ l ∈ f.leaves, l.Supported) :
    ∃ o, filtersToIRC filters = .ok o ∧
      ∀ row : NamedRow V, S.KeepsIrc row o ↔ ∀ f ∈ filters, S.Keeps row f := by
  have hleaves : ∀ l ∈ leavesAll filters, l.Supported := by
    induction filters with
    | nil => simp [leavesAll]
    | cons f fs ih =>
      obtain ⟨hf, hfs⟩ := List.forall_mem_cons.1 h
      intro l hl
      rw [leavesAll, List.mem_append] at hl
      exact hl.elim (hf l) (ih hfs l)
  obtain ⟨parts, hparts, hexact⟩ := S.conjunctionTrees_exact true filters hleaves
  refine ⟨joinTrees true parts, ?_, fun row => ?_⟩
  · rw [filtersToIRC_eq, exprToIRC, hparts]
    rfl
  · rw [keepsIrc_and]
    exact forall₂_forall_iff (hexact.imp fun _ _ h => h row)

/-! ## What is sent -/

/-- What is sent for a scan's filters keeps every row that passes them all. -/
theorem keepsIrc_of_serialized {filters : List (Expression D)} {filter_json : String}
    (h : serializeFiltersToIRC filters = .ok filter_json) :
    ∃ o, filter_json = filterText o ∧
      ∀ row : NamedRow V, (∀ f ∈ filters, S.Keeps row f) → S.KeepsIrc row o := by
  rw [serializeFiltersToIRC_eq, filtersToIRC_eq] at h
  rcases ho : exprToIRC (.conjunction true filters) with e | o
  · rw [ho] at h
    cases h
  · rw [ho] at h
    cases h
    exact ⟨o, rfl, fun row hk => S.keepsIrc_of_keeps _ ho (S.keeps_and.2 hk)⟩

/-- What the bind data says to send keeps the row. -/
def Sends (row : NamedRow V) (bd : UCScanPlanBindData) : Prop :=
  ∃ o : Option (IrcExpr D), bd.filter_json = filterText o ∧ S.KeepsIrc row o

/-- A pushdown keeps what was sent before as well, so the rows a scan wants are kept after any
number of them. -/
theorem sends_pushdownFilter {row : NamedRow V} {bd : UCScanPlanBindData}
    {filters : List (Expression D)} (hbd : S.Sends row bd) (hk : ∀ f ∈ filters, S.Keeps row f) :
    S.Sends row (pushdownFilter bd filters) := by
  unfold pushdownFilter
  split
  · exact hbd
  · split
    · rename_i filter_json h
      obtain ⟨o, ho, hkeeps⟩ := S.keepsIrc_of_serialized h
      exact ⟨o, ho, hkeeps row hk⟩
    · -- the exception is swallowed and planning is unfiltered
      exact ⟨none, rfl, by simp [KeepsIrc]⟩

/-- However often the optimizer pushes filters, what is sent keeps every row that they all keep. -/
theorem sends_foldl_pushdownFilter {row : NamedRow V} {calls : List (List (Expression D))}
    (hk : ∀ filters ∈ calls, ∀ f ∈ filters, S.Keeps row f) {bd : UCScanPlanBindData}
    (hbd : S.Sends row bd) : S.Sends row (calls.foldl pushdownFilter bd) := by
  induction calls generalizing bd with
  | nil => exact hbd
  | cons filters calls ih =>
    obtain ⟨hfilters, hcalls⟩ := List.forall_mem_cons.1 hk
    exact ih hcalls (S.sends_pushdownFilter hbd hfilters)

end SqlMeaning

/-- **No wanted row is pruned**: what a list of filters is sent as is TRUE on every row that they
all are TRUE on, and where every leaf has an IRC form, on no other row. -/
theorem serializeFiltersToIRC_keeps_wanted {D V : Type} [DoubleFormat D] (S : SqlMeaning D V)
    (filters : List (Expression D)) :
    (∀ filter_json, serializeFiltersToIRC filters = .ok filter_json →
      ∃ o, filter_json = filterText o ∧
        ∀ row, (∀ f ∈ filters, S.Keeps row f) → S.KeepsIrc row o) ∧
    ((∀ f ∈ filters, ∀ l ∈ f.leaves, l.Supported) →
      ∃ o, serializeFiltersToIRC filters = .ok (filterText o) ∧
        ∀ row, S.KeepsIrc row o ↔ ∀ f ∈ filters, S.Keeps row f) := by
  refine ⟨fun filter_json h => S.keepsIrc_of_serialized h, fun h => ?_⟩
  obtain ⟨o, ho, hexact⟩ := S.filters_exact h
  refine ⟨o, ?_, hexact⟩
  rw [serializeFiltersToIRC_eq, ho]
  rfl

/-! ### On whole numbers -/

/-- The doubles that are small whole numbers; `%.17g` writes their digits. -/
structure WholeDouble where
  value : Fin 100

instance : DoubleFormat WholeDouble where
  isFinite _ := true
  format d := toString d.value.val
  format_ne := by simp [Nat.toString_eq_repr, Nat.repr_ne_empty]

/-- Values are whole numbers; booleans are 0 and 1, texts their lengths. -/
def wholeNumbers : SqlMeaning WholeDouble ℤ where
  literal
    | .integer v => v
    | .unsigned v => v
    | .floating d => d.value.val
    | .boolean b => if b then 1 else 0
    | .varchar s => s.length
  otherConstant _ := none
  ofBool b := if b then 1 else 0
  isTrue v := v ≠ 0
  isTrue_ofBool b := by cases b <;> rfl
  holds
    | .equal, a, b | .notDistinctFrom, a, b => a = b
    | .notEqual, a, b | .distinctFrom, a, b => a ≠ b
    | .lessThan, a, b => a < b
    | .greaterThan, a, b => b < a
    | .lessThanOrEqualTo, a, b => a ≤ b
    | .greaterThanOrEqualTo, a, b => b ≤ a
  holds_flip t a b := by cases t <;> simp [ComparisonType.flip, eq_comm]
  operator _ _ := none
  node _ _ := none

/-- `30 > age`, and `age = 7 OR name IS NULL`. -/
def mirroredFilters : List (Expression WholeDouble) :=
  [.comparison .greaterThan (.constant (.integer (some 30))) (.columnRef "age"),
    .conjunction false [
      .comparison .equal (.columnRef "age") (.constant (.floating (some ⟨7⟩))),
      .operator .isNull [.columnRef "name"]]]

/-- Every leaf of these filters has an IRC form: they are sent whole. -/
theorem serializeFiltersToIRC_keeps_wanted_mirrored :
    ∃ o, serializeFiltersToIRC mirroredFilters = .ok (filterText o) ∧
      ∀ row, wholeNumbers.KeepsIrc row o ↔ ∀ f ∈ mirroredFilters, wholeNumbers.Keeps row f := by
  apply (serializeFiltersToIRC_keeps_wanted wholeNumbers mirroredFilters).2
  intro f hf l hl
  simp only [mirroredFilters, List.mem_cons, List.not_mem_nil, or_false] at hf
  rcases hf with rfl | rfl
  · simp only [Expression.leaves, List.mem_singleton] at hl
    subst hl
    exact .mirrored (by decide) (by decide) (.integer 30)
  · simp only [Expression.leaves, leavesAll, List.append_nil, List.mem_append,
      List.mem_singleton] at hl
    rcases hl with rfl | rfl
    · exact .comparison (by decide) (by decide) (.floating _ rfl)
    · exact .isNull (by decide)

/-- Nothing is sent for the filter, and the empty text keeps a row that it does not. -/
def Drops (f : Expression WholeDouble) : Prop :=
  serializeFiltersToIRC [f] = .ok (filterText (none : Option (IrcExpr WholeDouble))) ∧
    wholeNumbers.KeepsIrc (fun _ => some 30) none ∧ ¬ wholeNumbers.Keeps (fun _ => some 30) f

/-- A column compared with a constant, and one tested for NULL. -/
theorem serializeFiltersToIRC_drops_leaves :
    Drops (.comparison .distinctFrom (.columnRef "age") (.constant (.integer (some 30)))) ∧
      Drops (.operator .isNull [.columnRef ""]) := by
  refine ⟨⟨rfl, by simp [SqlMeaning.KeepsIrc], ?_⟩, ⟨rfl, by simp [SqlMeaning.KeepsIrc], ?_⟩⟩
  · unfold SqlMeaning.Keeps
    decide
  · unfold SqlMeaning.Keeps
    decide

end UnityCatalog
