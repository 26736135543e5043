import SqliteSyntax.Expr.Nested
import SqliteSyntax.Statement.Basic

/-! # Expressions of a statement

The expressions that a statement holds outside of triggers, and the search for `RAISE` among them:
only the steps of a trigger may raise. -/
namespace SqliteSyntax
set_option autoImplicit false

def nestedInIndexed (columns : List IndexedColumn) : List Expr :=
  columns.flatMap (·.expr.nested)

def nestedInAssignments (assignments : List Assignment) : List Expr :=
  assignments.flatMap (·.value.nested)

def ColumnRule.nested : ColumnRule → List Expr
  | .check condition => condition.nested
  | .default (.expr value) => value.nested
  | .generated value _ => value.nested
  | _ => []

def ColumnDef.nested (c : ColumnDef) : List Expr := c.constraints.flatMap (·.rule.nested)

def TableRule.nested : TableRule → List Expr
  | .primaryKey columns _ => nestedInIndexed columns
  | .unique columns _ => nestedInIndexed columns
  | .check condition => condition.nested
  | .foreignKey _ _ => []

def TableBody.nested : TableBody → List Expr
  | .definitions columns constraints _ _ =>
    columns.flatMap ColumnDef.nested ++ constraints.flatMap (·.rule.nested)
  | .asSelect query => query.nested

def InsertSource.nested : InsertSource → List Expr
  | .values rows => nestedInRows rows
  | .select query => query.nested
  | .defaultValues => []

def UpsertTarget.nested (t : UpsertTarget) : List Expr :=
  nestedInIndexed t.columns ++ nestedInOption t.filter

def UpsertAction.nested : UpsertAction → List Expr
  | .nothing => []
  | .update assignments filter => nestedInAssignments assignments ++ nestedInOption filter

def Upsert.nested (u : Upsert) : List Expr :=
  (match u.target with
    | none => []
    | some target => target.nested) ++ u.action.nested

def Insert.nested (i : Insert) : List Expr :=
  nestedInWith i.withClause ++ i.source.nested ++ i.upserts.flatMap Upsert.nested ++
    nestedInColumns i.returning

def Update.nested (u : Update) : List Expr :=
  nestedInWith u.withClause ++ nestedInAssignments u.assignments ++ nestedInSource u.source ++
    nestedInOption u.filter ++ nestedInColumns u.returning ++ nestedInTerms u.orderBy ++
    nestedInOption u.limit ++ nestedInOption u.offset

def Delete.nested (d : Delete) : List Expr :=
  nestedInWith d.withClause ++ nestedInOption d.filter ++ nestedInColumns d.returning ++
    nestedInTerms d.orderBy ++ nestedInOption d.limit ++ nestedInOption d.offset

def TableChange.nested : TableChange → List Expr
  | .addColumn column => column.nested
  | _ => []

namespace Statement

/-- All expressions of a statement, those of a trigger left out. -/
def nested : Statement → List Expr
  | .select query => query.nested
  | .insert i => i.nested
  | .update u => u.nested
  | .delete d => d.nested
  | .createTable table => table.body.nested
  | .createIndex index => nestedInIndexed index.columns ++ nestedInOption index.filter
  | .createView view => view.query.nested
  | .alterTable _ change => change.nested
  | .attach file _ => file.nested
  | .vacuum _ file => nestedInOption file
  | .explain _ statement => statement.nested
  | .createTrigger .. | .createVirtualTable _ | .drop _ | .begin _ | .commit | .rollback _
  | .savepoint _ | .release _ | .detach _ | .reindex _ | .analyze _ => []

/-- Whether a `RAISE` stands outside of every trigger. -/
def containsRaise (s : Statement) : Bool := s.nested.any Expr.isRaise

end Statement
end SqliteSyntax
