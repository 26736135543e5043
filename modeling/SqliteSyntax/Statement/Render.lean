import SqliteSyntax.Schema.Render
import SqliteSyntax.Statement.Basic

/-! # Text of statements

One statement without a terminator. Within a trigger each step ends with a semicolon. -/
namespace SqliteSyntax
set_option autoImplicit false

/-! ## Changes to rows -/

/-- A single column stands bare, any other number of columns in parentheses. -/
def Assignment.pieces (a : Assignment) : List Piece :=
  (match a.columns with
    | [column] => [.name column]
    | columns => nameList columns) ++ .space :: .fixed "=" :: .space :: a.value.bare

def assignmentPieces (assignments : List Assignment) : List Piece :=
  commaSeparated (assignments.map Assignment.pieces)

def UpsertTarget.pieces (t : UpsertTarget) : List Piece :=
  indexedList t.columns ++ clause ["WHERE"] (t.filter.map Expr.bare)

def UpsertAction.pieces : UpsertAction → List Piece
  | .nothing => phrase ["DO", "NOTHING"]
  | .update assignments filter =>
    phrase ["DO", "UPDATE", "SET"] ++ .space :: assignmentPieces assignments ++
      clause ["WHERE"] (filter.map Expr.bare)

def Upsert.pieces (u : Upsert) : List Piece :=
  phrase ["ON", "CONFLICT"] ++ spaced (u.target.map UpsertTarget.pieces) ++ .space ::
    u.action.pieces

def InsertSource.pieces : InsertSource → List Piece
  | .values rows => .fixed "VALUES" :: .space :: rowsPieces (rowListPieces rows)
  | .select query => query.pieces
  | .defaultValues => phrase ["DEFAULT", "VALUES"]

/-- The columns handed back, if there are any. -/
def returningPieces (columns : List ResultColumn) : List Piece :=
  if columns.isEmpty then []
  else clause ["RETURNING"] (some (commaSeparated (columnPieces columns)))

def Insert.pieces (i : Insert) : List Piece :=
  withPieces i.withClause ++ Phrase.pieces i.verb ++ .space :: i.table.pieces ++
    asClause i.asName ++ (if i.columns.isEmpty then [] else .space :: nameList i.columns) ++
    .space :: i.source.pieces ++ (i.upserts.flatMap fun u => .space :: u.pieces) ++
    returningPieces i.returning

/-- What bounds the rows that an `UPDATE` or `DELETE` changes. -/
def tailPieces (filter : Option Expr) (returning : List ResultColumn) (orderBy : List OrderingTerm)
    (limit offset : Option Expr) : List Piece :=
  clause ["WHERE"] (filter.map Expr.bare) ++ returningPieces returning ++
    orderByPieces (termPieces orderBy) ++ clause ["LIMIT"] (limit.map Expr.bare) ++
    clause ["OFFSET"] (offset.map Expr.bare)

def Update.pieces (u : Update) : List Piece :=
  withPieces u.withClause ++
    phrase (match u.conflict with
      | none => ["UPDATE"]
      | some action => ["UPDATE", "OR"] ++ Phrase.words action) ++
    .space :: u.table.pieces ++ clause ["SET"] (some (assignmentPieces u.assignments)) ++
    clause ["FROM"] (u.source.map FromTree.pieces) ++
    tailPieces u.filter u.returning u.orderBy u.limit u.offset

def Delete.pieces (d : Delete) : List Piece :=
  withPieces d.withClause ++ phrase ["DELETE", "FROM"] ++ .space :: d.table.pieces ++
    tailPieces d.filter d.returning d.orderBy d.limit d.offset

/-! ## All statements -/

mutual

def Statement.pieces : Statement → List Piece
  | .select query => query.pieces
  | .insert i => i.pieces
  | .update u => u.pieces
  | .delete d => d.pieces
  | .createTable table => table.pieces
  | .createIndex index => index.pieces
  | .createView view => view.pieces
  | .createTrigger header steps =>
    header.pieces ++ .space :: .fixed "BEGIN" :: .space :: stepPieces steps ++ [.fixed "END"]
  | .createVirtualTable table => table.pieces
  | .alterTable table change =>
    phrase ["ALTER", "TABLE"] ++ .space :: table.pieces ++ .space :: change.pieces
  | .drop object => object.pieces
  | .begin mode => .fixed "BEGIN" :: Phrase.optional mode ++ [.space, .fixed "TRANSACTION"]
  | .commit => [.fixed "COMMIT"]
  | .rollback name =>
    .fixed "ROLLBACK" :: clause ["TO", "SAVEPOINT"] (name.map fun n => [.name n])
  | .savepoint name => [.fixed "SAVEPOINT", .space, .name name]
  | .release name => phrase ["RELEASE", "SAVEPOINT"] ++ [.space, .name name]
  | .attach file schema =>
    phrase ["ATTACH", "DATABASE"] ++ .space :: file.bare ++
      [.space, .fixed "AS", .space, .name schema]
  | .detach schema => phrase ["DETACH", "DATABASE"] ++ [.space, .name schema]
  | .vacuum schema file =>
    .fixed "VACUUM" :: spaced (schema.map fun n => [.name n]) ++
      clause ["INTO"] (file.map Expr.bare)
  | .reindex target => .fixed "REINDEX" :: spaced (target.map QualifiedName.pieces)
  | .analyze target => .fixed "ANALYZE" :: spaced (target.map QualifiedName.pieces)
  | .explain queryPlan statement =>
    phrase (if queryPlan then ["EXPLAIN", "QUERY", "PLAN"] else ["EXPLAIN"]) ++
      .space :: statement.pieces

/-- Each step of a trigger with a semicolon and a space after it. -/
def stepPieces : List Statement → List Piece
  | [] => []
  | step :: rest => step.pieces ++ .fixed ";" :: .space :: stepPieces rest

end

/-- The text of a statement. -/
def Statement.sql (s : Statement) : String := textOf s.pieces

end SqliteSyntax
