import SqliteSyntax.Draft.Basic

/-! # Drafts of queries

A query begins with one body. The clauses of a `SELECT` may be given as long as it is the only body.
Set operators append bodies; order, limit and offset bind to the whole, in this order, and close it
for everything before them. -/
namespace SqliteSyntax
set_option autoImplicit false

/-! ## Common tables -/

/-- A common table whose query is still to come. -/
structure CommonTableDraft where
  name : String
  columns : List String
  materialized : Option Bool

namespace CommonTableDraft

def start (name : String) : CommonTableDraft := ⟨name, [], none⟩

def named (d : CommonTableDraft) (columns : List String) : CommonTableDraft := { d with columns }

def materializing (d : CommonTableDraft) (materialized : Bool) : CommonTableDraft :=
  { d with materialized := some materialized }

def asSelect (d : CommonTableDraft) (query : Select) : CommonTable :=
  ⟨d.name, d.columns, d.materialized, query⟩

end CommonTableDraft

namespace WithClause

/-- A clause with a first table. -/
def start (recursive : Bool) (table : CommonTable) : WithClause := ⟨recursive, [table]⟩

/-- The clause with one more table. -/
def adding (w : WithClause) (table : CommonTable) : WithClause :=
  { w with tables := w.tables ++ [table] }

end WithClause

/-! ## Stages and calls -/

inductive SelectStage where
  /-- A single `SELECT` whose clauses are open. -/
  | core
  /-- A single `VALUES` list. -/
  | values
  | compound
  | ordered
  | limited
  | closed
deriving DecidableEq

/-- The calls of a query, without their arguments. -/
inductive SelectClause where
  | distinct
  | source
  | filter
  | groupBy
  | having
  | combine
  | orderBy
  | thenBy
  | limit
  | offset
deriving DecidableEq

/-- The stage after a call, if the stage offers it. -/
def SelectStage.after? : SelectStage → SelectClause → Option SelectStage
  | .core, .distinct | .core, .source | .core, .filter | .core, .groupBy | .core, .having =>
    some .core
  | .core, .combine | .values, .combine | .compound, .combine => some .compound
  | .core, .orderBy | .values, .orderBy | .compound, .orderBy => some .ordered
  | .ordered, .thenBy => some .ordered
  | .core, .limit | .values, .limit | .compound, .limit | .ordered, .limit => some .limited
  | .limited, .offset => some .closed
  | _, _ => none

/-- Whether the stage offers a call. -/
def SelectStage.offers (stage : SelectStage) (clause : SelectClause) : Bool :=
  (stage.after? clause).isSome

/-- Whether a call leaves the stage as it is, as every call on the right side of a set operator
must. -/
def SelectStage.keeps (stage : SelectStage) (clause : SelectClause) : Bool :=
  stage.after? clause == some stage

/-- A query in the making. -/
structure SelectDraft where
  stage : SelectStage
  query : Select

/-- A call on a query. -/
inductive SelectCall where
  | distinct
  | source (tree : FromTree)
  | filter (condition : Expr)
  | groupBy (exprs : List Expr)
  | having (condition : Expr)
  | combine (op : SetOperator) (operand : SelectDraft)
  | orderBy (terms : List OrderingTerm)
  | thenBy (terms : List OrderingTerm)
  | limit (count : Expr)
  | offset (count : Expr)

def SelectCall.clause : SelectCall → SelectClause
  | .distinct => .distinct
  | .source _ => .source
  | .filter _ => .filter
  | .groupBy _ => .groupBy
  | .having _ => .having
  | .combine .. => .combine
  | .orderBy _ => .orderBy
  | .thenBy _ => .thenBy
  | .limit _ => .limit
  | .offset _ => .offset

/-! ## What a call does -/

/-- A change of the first body, if it is a `SELECT`. -/
def Select.editCore (q : Select) (edit : SelectCore → SelectCore) : Select :=
  match q.body with
  | .core core => { q with body := .core (edit core) }
  | .values _ => q

namespace SelectDraft

/-- A draft with result columns only. -/
def select (withClause : Option WithClause) (distinct : Bool) (columns : List ResultColumn) :
    SelectDraft :=
  ⟨.core, { Select.ofBody (.core (.ofColumns distinct columns)) with withClause }⟩

/-- A draft of rows, which must all be of one width. -/
def values (withClause : Option WithClause) (rows : List (List Expr)) :
    Except Failure SelectDraft := do
  orRefuse (checkRowWidths .values rows none)
  return ⟨.values, { Select.ofBody (.values rows) with withClause }⟩

/-- What may stand on the right of a set operator: a single body without common tables. -/
def isOperand (d : SelectDraft) : Bool :=
  (d.stage == .core || d.stage == .values) && d.query.withClause.isNone

/-- The query after a call that the stage offers. -/
def edit (q : Select) : SelectCall → Except Failure Select
  | .distinct => .ok (q.editCore fun c => { c with distinct := true })
  | .source tree => .ok (q.editCore fun c => { c with source := some tree })
  | .filter condition => .ok (q.editCore fun c => { c with filter := conjoin c.filter condition })
  | .groupBy exprs => .ok (q.editCore fun c => { c with groupBy := c.groupBy ++ exprs })
  | .having condition => .ok (q.editCore fun c => { c with having := conjoin c.having condition })
  | .combine op operand =>
    if operand.isOperand then .ok { q with compounds := q.compounds ++ [(op, operand.query.body)] }
    else .error .unavailable
  | .orderBy terms => .ok { q with orderBy := q.orderBy ++ terms }
  | .thenBy terms => .ok { q with orderBy := q.orderBy ++ terms }
  | .limit count => .ok { q with limit := some count }
  | .offset count => .ok { q with offset := some count }

def apply (d : SelectDraft) (call : SelectCall) : Except Failure SelectDraft :=
  match d.stage.after? call.clause with
  | none => .error .unavailable
  | some stage => do
    let query ← edit d.query call
    return ⟨stage, query⟩

end SelectDraft
end SqliteSyntax
