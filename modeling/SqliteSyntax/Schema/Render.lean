import SqliteSyntax.Schema.Basic
import SqliteSyntax.Expr.Render

/-! # Text of schema objects -/
namespace SqliteSyntax
set_option autoImplicit false

/-! ## Keys -/

def IndexedColumn.pieces (c : IndexedColumn) : List Piece :=
  collatedPieces c.expr c.expr.bare c.collation ++ Phrase.optional c.order

/-- Indexed columns in parentheses. -/
def indexedList (columns : List IndexedColumn) : List Piece :=
  parenthesized (commaSeparated (columns.map IndexedColumn.pieces))

/-- The action after `ON CONFLICT`, with a space before, if there is one. -/
def conflictPieces (conflict : Option ConflictAction) : List Piece :=
  clause ["ON", "CONFLICT"] (conflict.map Phrase.pieces)

def ForeignKey.pieces (k : ForeignKey) : List Piece :=
  .fixed "REFERENCES" :: .space :: .name k.table ::
    (if k.columns.isEmpty then [] else .space :: nameList k.columns) ++
    clause ["ON", "DELETE"] (k.onDelete.map Phrase.pieces) ++
    clause ["ON", "UPDATE"] (k.onUpdate.map Phrase.pieces) ++ Phrase.optional k.deferrability

/-- A condition after `CHECK`. -/
def checkPieces (condition : Expr) : List Piece :=
  .fixed "CHECK" :: .space :: parenthesized condition.bare

/-- The name of a constraint and the space after it, if it has one. -/
def constraintName (name : Option String) : List Piece :=
  match name with
  | none => []
  | some n => [.fixed "CONSTRAINT", .space, .name n, .space]

/-! ## Columns -/

/-- A literal stands bare after `DEFAULT`, any other expression in parentheses. -/
def DefaultValue.pieces : DefaultValue → List Piece
  | .literal value => value.pieces
  | .expr value => parenthesized value.bare

def ColumnRule.pieces : ColumnRule → List Piece
  | .primaryKey order conflict autoincrement =>
    phrase ["PRIMARY", "KEY"] ++ Phrase.optional order ++ conflictPieces conflict ++
      onlyIf autoincrement [.space, .fixed "AUTOINCREMENT"]
  | .notNull conflict => phrase ["NOT", "NULL"] ++ conflictPieces conflict
  | .null => [.fixed "NULL"]
  | .unique conflict => .fixed "UNIQUE" :: conflictPieces conflict
  | .check condition => checkPieces condition
  | .default value => .fixed "DEFAULT" :: .space :: value.pieces
  | .collate collation => [.fixed "COLLATE", .space, .name collation]
  | .references key => key.pieces
  | .generated value storage =>
    phrase ["GENERATED", "ALWAYS", "AS"] ++ .space :: parenthesized value.bare ++
      Phrase.optional storage

def ColumnConstraint.pieces (c : ColumnConstraint) : List Piece :=
  constraintName c.name ++ c.rule.pieces

/-- Each constraint of a column with a space before it. -/
def columnConstraintPieces (constraints : List ColumnConstraint) : List Piece :=
  constraints.flatMap fun c => .space :: c.pieces

def ColumnDef.pieces (c : ColumnDef) : List Piece :=
  .name c.name :: spaced (c.typeName.map fun t => [.verbatim t]) ++
    columnConstraintPieces c.constraints

def ColumnDef.sql (c : ColumnDef) : String := textOf c.pieces

/-! ## Tables -/

def TableRule.pieces : TableRule → List Piece
  | .primaryKey columns conflict =>
    phrase ["PRIMARY", "KEY"] ++ .space :: indexedList columns ++ conflictPieces conflict
  | .unique columns conflict =>
    .fixed "UNIQUE" :: .space :: indexedList columns ++ conflictPieces conflict
  | .check condition => checkPieces condition
  | .foreignKey columns key =>
    phrase ["FOREIGN", "KEY"] ++ .space :: nameList columns ++ .space :: key.pieces

def TableConstraint.pieces (c : TableConstraint) : List Piece :=
  constraintName c.name ++ c.rule.pieces

/-- Begins with `CREATE`, then `TEMP` if asked for, the object's words and `IF NOT EXISTS` if asked
for, with a space after them. -/
def createPieces (temporary : Bool) (object : List String) (ifNotExists : Bool) : List Piece :=
  phrase ("CREATE" :: (if temporary then ["TEMP"] else []) ++ object ++
    (if ifNotExists then ["IF", "NOT", "EXISTS"] else [])) ++ [.space]

/-- The options after the column list of a table. -/
def tableOptions (withoutRowid strict : Bool) : List (List Piece) :=
  (if withoutRowid then [phrase ["WITHOUT", "ROWID"]] else []) ++
    (if strict then [[.fixed "STRICT"]] else [])

/-- The list of column definitions, with each constraint after a comma. -/
def definitionPieces (columns : List ColumnDef) (constraints : List TableConstraint) :
    List Piece :=
  commaSeparated (columns.map ColumnDef.pieces) ++
    constraints.flatMap fun c => .fixed "," :: .space :: c.pieces

def TableBody.pieces : TableBody → List Piece
  | .definitions columns constraints withoutRowid strict =>
    .space :: parenthesized (definitionPieces columns constraints) ++
      (if withoutRowid || strict
        then .space :: commaSeparated (tableOptions withoutRowid strict) else [])
  | .asSelect query => clause ["AS"] (some query.pieces)

def CreateTable.pieces (t : CreateTable) : List Piece :=
  createPieces t.temporary ["TABLE"] t.ifNotExists ++ t.name.pieces ++ t.body.pieces

def TableChange.pieces : TableChange → List Piece
  | .renameTo name => phrase ["RENAME", "TO"] ++ [.space, .name name]
  | .renameColumn column name =>
    phrase ["RENAME", "COLUMN"] ++ [.space, .name column, .space, .fixed "TO", .space, .name name]
  | .addColumn column => phrase ["ADD", "COLUMN"] ++ .space :: column.pieces
  | .dropColumn column => phrase ["DROP", "COLUMN"] ++ [.space, .name column]

/-! ## Other objects -/

def CreateIndex.pieces (i : CreateIndex) : List Piece :=
  createPieces false (if i.unique then ["UNIQUE", "INDEX"] else ["INDEX"]) i.ifNotExists ++
    i.name.pieces ++ .space :: .fixed "ON" :: .space :: .name i.table :: .space ::
    indexedList i.columns ++ clause ["WHERE"] (i.filter.map Expr.bare)

def CreateView.pieces (v : CreateView) : List Piece :=
  createPieces v.temporary ["VIEW"] v.ifNotExists ++ v.name.pieces ++
    (if v.columns.isEmpty then [] else .space :: nameList v.columns) ++
    clause ["AS"] (some v.query.pieces)

def TriggerEvent.pieces : TriggerEvent → List Piece
  | .delete => [.fixed "DELETE"]
  | .insert => [.fixed "INSERT"]
  | .update => [.fixed "UPDATE"]
  | .updateOf columns =>
    if columns.isEmpty then [.fixed "UPDATE"]
    else phrase ["UPDATE", "OF"] ++ .space :: commaSeparated (columns.map fun c => [.name c])

def TriggerHeader.pieces (t : TriggerHeader) : List Piece :=
  createPieces t.temporary ["TRIGGER"] t.ifNotExists ++ t.name.pieces ++
    Phrase.optional t.timing ++ .space :: t.event.pieces ++
    .space :: .fixed "ON" :: .space :: .name t.table ::
    onlyIf t.forEachRow (.space :: phrase ["FOR", "EACH", "ROW"]) ++
    clause ["WHEN"] (t.condition.map Expr.bare)

def CreateVirtualTable.pieces (t : CreateVirtualTable) : List Piece :=
  createPieces false ["VIRTUAL", "TABLE"] t.ifNotExists ++ t.name.pieces ++
    .space :: .fixed "USING" :: .space :: .name t.moduleName ::
    (if t.arguments.isEmpty then []
      else parenthesized (commaSeparated (t.arguments.map fun a => [.verbatim a])))

def DropObject.pieces (d : DropObject) : List Piece :=
  .fixed "DROP" :: .space :: Phrase.pieces d.kind ++
    onlyIf d.ifExists (.space :: phrase ["IF", "EXISTS"]) ++ .space :: d.name.pieces

end SqliteSyntax
