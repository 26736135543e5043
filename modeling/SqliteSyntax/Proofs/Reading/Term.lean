import SqliteSyntax.Expr.Basic
import SqliteSyntax.Number.Shortest

/-! # Expressions as text tells them apart

Some expressions are written alike. `Term` is what is left of an expression when these are not told
apart: a number is the text of its numeral, with a sign as an operator in front; a row of one item is
that item; `NOT EXISTS` is `NOT` before `EXISTS`; the tests written `IS NULL` and `IS NOT NULL` are
comparisons with `NULL`. Nothing else is identified (`Expr.term`).

Queries inside are of a type of their own, so that they can be compared as a text or as a tree. -/
namespace SqliteSyntax
set_option autoImplicit false

inductive Term (Q : Type) where
  /-- A literal that is no number. -/
  | literal (value : Literal)
  /-- A number without a sign. -/
  | numeral (digits : String)
  | column (reference : ColumnRef)
  | unary (op : UnaryOp) (operand : Term Q)
  | binary (op : BinaryOp) (left right : Term Q)
  /-- `ISNULL`, `NOTNULL` or `NOT NULL`. -/
  | nullTest (test : NullTest) (operand : Term Q)
  | collate (operand : Term Q) (collation : String)
  | pattern (op : PatternOp) (negated : Bool) (subject against : Term Q) (escape : Option (Term Q))
  | between (negated : Bool) (subject low high : Term Q)
  | inList (negated : Bool) (subject : Term Q) (items : List (Term Q))
  | inSelect (negated : Bool) (subject : Term Q) (query : Q)
  | existsRow (query : Q)
  | subquery (query : Q)
  | call (function : FunctionName) (distinct : Bool) (arguments : List (Term Q))
  | callStar (function : FunctionName) (distinct : Bool)
  | caseWhen (operand : Option (Term Q)) (branches : List (Term Q × Term Q))
      (otherwise : Option (Term Q))
  | cast (operand : Term Q) (typeName : String)
  /-- No item, or two and more. -/
  | row (items : List (Term Q))
  | raise (action : RaiseAction)

namespace Term
variable {Q : Type}

/-- The term of a numeral with or without a sign. -/
def ofNumeral (digits : String) : Term Q :=
  match digits.toList with
  | '-' :: rest => .unary .neg (.numeral (String.ofList rest))
  | '+' :: rest => .unary .plus (.numeral (String.ofList rest))
  | _ => .numeral digits

def ofLiteral : Literal → Term Q
  | .integer value => ofNumeral (String.ofList (Decimal.integerText value.toInt))
  | .real value => ofNumeral value.text
  | .decimal value => ofNumeral value.text
  | value => .literal value

def ofNullTest (test : NullTest) (operand : Term Q) : Term Q :=
  match test with
  | .isNull => .binary .is operand (.literal .null)
  | .isNotNull => .binary .isNot operand (.literal .null)
  | test => .nullTest test operand

def ofRow : List (Term Q) → Term Q
  | [item] => item
  | items => .row items

/-- Whether a row exists, or whether none does. -/
def ofExists (negated : Bool) (query : Q) : Term Q :=
  if negated then .unary .not (.existsRow query) else .existsRow query

end Term

variable {Q : Type} (f : Select → Q)

mutual

/-- What text tells of an expression. -/
def Expr.term : Expr → Term Q
  | .literal value => .ofLiteral value
  | .column reference => .column reference
  | .unary op operand => .unary op operand.term
  | .binary op left right => .binary op left.term right.term
  | .nullTest test operand => .ofNullTest test operand.term
  | .collate operand collation => .collate operand.term collation
  | .pattern op negated subject against escape =>
    .pattern op negated subject.term against.term (optionTerm escape)
  | .between negated subject low high => .between negated subject.term low.term high.term
  | .inList negated subject items => .inList negated subject.term (listTerms items)
  | .inSelect negated subject query => .inSelect negated subject.term (f query)
  | .existsRow negated query => .ofExists negated (f query)
  | .subquery query => .subquery (f query)
  | .call function distinct arguments => .call function distinct (listTerms arguments)
  | .callStar function distinct => .callStar function distinct
  | .caseWhen operand branches otherwise =>
    .caseWhen (optionTerm operand) (branchTerms branches) (optionTerm otherwise)
  | .cast operand typeName => .cast operand.term typeName
  | .row items => .ofRow (listTerms items)
  | .raise action => .raise action

def listTerms : List Expr → List (Term Q)
  | [] => []
  | e :: rest => e.term :: listTerms rest

def optionTerm : Option Expr → Option (Term Q)
  | none => none
  | some e => some e.term

def branchTerms : List (Expr × Expr) → List (Term Q × Term Q)
  | [] => []
  | (condition, result) :: rest => (condition.term, result.term) :: branchTerms rest

end

end SqliteSyntax
