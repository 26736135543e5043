import SqliteSyntax.Function
import SqliteSyntax.Literal
import SqliteSyntax.Name
import SqliteSyntax.Operator

/-! # Expressions, queries and table trees

Expressions hold queries and queries hold expressions, so the types of both are declared together.
Any value of these types can be rendered; the rules that a statement must keep beyond its shape are
checked where statements are made (`SqliteSyntax.Draft`) and where finished ones are taken over
(`SqliteSyntax.Statement.Shape`). -/
namespace SqliteSyntax
set_option autoImplicit false

/-- What `RAISE` does with the statement that fired the trigger. -/
inductive RaiseAction where
  | ignore
  | rollback (message : String)
  | abort (message : String)
  | fail (message : String)
deriving DecidableEq

mutual

/-- An expression. -/
inductive Expr where
  | literal (value : Literal)
  | column (reference : ColumnRef)
  | unary (op : UnaryOp) (operand : Expr)
  | binary (op : BinaryOp) (left right : Expr)
  | nullTest (test : NullTest) (operand : Expr)
  | collate (operand : Expr) (collation : String)
  | pattern (op : PatternOp) (negated : Bool) (subject against : Expr) (escape : Option Expr)
  | between (negated : Bool) (subject low high : Expr)
  | inList (negated : Bool) (subject : Expr) (items : List Expr)
  | inSelect (negated : Bool) (subject : Expr) (query : Select)
  | existsRow (negated : Bool) (query : Select)
  | subquery (query : Select)
  | call (function : FunctionName) (distinct : Bool) (arguments : List Expr)
  /-- A call on `*`, such as `COUNT(*)`. -/
  | callStar (function : FunctionName) (distinct : Bool)
  | caseWhen (operand : Option Expr) (branches : List (Expr × Expr)) (otherwise : Option Expr)
  | cast (operand : Expr) (typeName : String)
  | row (items : List Expr)
  | raise (action : RaiseAction)

/-- A query: one or more bodies joined by set operators, and the clauses that bind to the whole. -/
structure Select where
  withClause : Option WithClause
  body : SelectBody
  compounds : List (SetOperator × SelectBody)
  orderBy : List OrderingTerm
  limit : Option Expr
  offset : Option Expr

/-- Common tables in front of a statement. -/
structure WithClause where
  recursive : Bool
  tables : List CommonTable

/-- A common table: a named query, with names for its columns if the list is not empty, and whether
its rows are to be materialized. -/
structure CommonTable where
  name : String
  columns : List String
  materialized : Option Bool
  query : Select

/-- One operand of the set operators. -/
inductive SelectBody where
  | core (core : SelectCore)
  | values (rows : List (List Expr))

/-- The clauses of a single `SELECT`. No result columns at all stand for all columns. -/
structure SelectCore where
  distinct : Bool
  columns : List ResultColumn
  source : Option FromTree
  filter : Option Expr
  groupBy : List Expr
  having : Option Expr

inductive ResultColumn where
  | star
  | tableStar (table : String)
  | expr (value : Expr) (asName : Option String)

structure OrderingTerm where
  expr : Expr
  collation : Option String
  direction : Option SortOrder
  nulls : Option NullPlacement

/-- The tables that a query reads. -/
inductive FromTree where
  | table (reference : TableRef)
  | subquery (query : Select) (asName : Option String)
  | function (name : QualifiedName) (arguments : List Expr) (asName : Option String)
  | join (left : FromTree) (op : JoinOperator) (right : FromTree)
      (constraint : Option JoinConstraint)

/-- What ties the two sides of a join together. -/
inductive JoinConstraint where
  | condition (condition : Expr)
  | columns (names : List String)

end

/-! ## Simple forms -/

namespace Expr

/-- A column without a qualifier. -/
def named (column : String) : Expr := .column ⟨none, column⟩

/-- A column of the row that an upsert could not insert. -/
def excluded (column : String) : Expr :=
  .column ⟨some (.table (.unqualified "excluded")), column⟩

/-- A chain of one operator, grouped to the left. -/
def chain (op : BinaryOp) (first : Expr) (rest : List Expr) : Expr :=
  rest.foldl (.binary op) first

/-- The outermost operator's tier. A negative number is a sign in front of a numeral, and
`NOT EXISTS` begins with `NOT`. -/
def precedence : Expr → Precedence
  | .literal value => if value.isNegativeNumber then .unary else .primary
  | .unary op _ => op.precedence
  | .binary op _ _ => op.precedence
  | .nullTest .. | .pattern .. | .between .. | .inList .. | .inSelect .. => .equality
  | .collate .. => .collate
  | .existsRow negated _ => if negated then .not else .primary
  | .column _ | .subquery _ | .call .. | .callStar .. | .caseWhen .. | .cast .. | .row _
  | .raise _ => .primary

def isRaise : Expr → Bool
  | .raise _ => true
  | _ => false

end Expr

namespace SelectCore

/-- A core with result columns only. -/
def ofColumns (distinct : Bool) (columns : List ResultColumn) : SelectCore :=
  ⟨distinct, columns, none, none, [], none⟩

end SelectCore

namespace Select

/-- A query with a single body and no other clause. -/
def ofBody (body : SelectBody) : Select := ⟨none, body, [], [], none, none⟩

def isCompound (q : Select) : Bool := !q.compounds.isEmpty

/-- All bodies in the order of the text. -/
def bodies (q : Select) : List SelectBody := q.body :: q.compounds.map Prod.snd

end Select

namespace OrderingTerm

def ofExpr (e : Expr) : OrderingTerm := ⟨e, none, none, none⟩

def collate (t : OrderingTerm) (collation : String) : OrderingTerm :=
  { t with collation := some collation }

def ordered (t : OrderingTerm) (direction : SortOrder) : OrderingTerm :=
  { t with direction := some direction }

def placingNulls (t : OrderingTerm) (nulls : NullPlacement) : OrderingTerm :=
  { t with nulls := some nulls }

end OrderingTerm

/-- A filter with one more condition: the old one `AND` the new one, or the new one alone. -/
def conjoin (filter : Option Expr) (condition : Expr) : Option Expr :=
  match filter with
  | none => some condition
  | some existing => some (.binary .and existing condition)

end SqliteSyntax
