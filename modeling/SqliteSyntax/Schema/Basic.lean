import SqliteSyntax.Expr.Equal

/-! # Schema objects

What the statements that create and alter schema objects are made of: indexed columns, foreign keys,
column definitions, table constraints, and the headers of indexes, views, triggers and virtual
tables. -/
namespace SqliteSyntax
set_option autoImplicit false

/-! ## Keys -/

/-- A column or expression of an index, of a table key or of a conflict target. -/
structure IndexedColumn where
  expr : Expr
  collation : Option String
  order : Option SortOrder
deriving BEq

namespace IndexedColumn

def ofExpr (e : Expr) : IndexedColumn := ⟨e, none, none⟩

/-- An indexed column of the table itself. -/
def named (column : String) : IndexedColumn := .ofExpr (.named column)

def collate (c : IndexedColumn) (collation : String) : IndexedColumn :=
  { c with collation := some collation }

def ordered (c : IndexedColumn) (order : SortOrder) : IndexedColumn :=
  { c with order := some order }

end IndexedColumn

/-- A reference to a parent table. No columns at all stand for the parent's primary key. -/
structure ForeignKey where
  table : String
  columns : List String
  onDelete : Option ForeignKeyAction
  onUpdate : Option ForeignKeyAction
  deferrability : Option Deferrability
deriving BEq

namespace ForeignKey

/-- A reference to the primary key of a table. -/
def toTable (table : String) : ForeignKey := ⟨table, [], none, none, none⟩

def toColumns (k : ForeignKey) (columns : List String) : ForeignKey := { k with columns }

def deleting (k : ForeignKey) (action : ForeignKeyAction) : ForeignKey :=
  { k with onDelete := some action }

def updating (k : ForeignKey) (action : ForeignKeyAction) : ForeignKey :=
  { k with onUpdate := some action }

def deferring (k : ForeignKey) (deferrability : Deferrability) : ForeignKey :=
  { k with deferrability := some deferrability }

end ForeignKey

/-! ## Columns -/

inductive DefaultValue where
  | literal (value : Literal)
  | expr (value : Expr)

/-- Equality of default values, real numbers compared as numbers. -/
def DefaultValue.same : DefaultValue → DefaultValue → Bool
  | .literal a, .literal b => a.same b
  | .expr a, .expr b => a == b
  | _, _ => false

instance : BEq DefaultValue := ⟨DefaultValue.same⟩

/-- What a column constraint demands. -/
inductive ColumnRule where
  | primaryKey (order : Option SortOrder) (conflict : Option ConflictAction) (autoincrement : Bool)
  | notNull (conflict : Option ConflictAction)
  | null
  | unique (conflict : Option ConflictAction)
  | check (condition : Expr)
  | default (value : DefaultValue)
  | collate (collation : String)
  | references (key : ForeignKey)
  | generated (value : Expr) (storage : Option GeneratedStorage)
deriving BEq

/-- A rule with the name it may have. -/
structure ColumnConstraint where
  name : Option String
  rule : ColumnRule
deriving BEq

/-- A column of a table. The type is free text. -/
structure ColumnDef where
  name : String
  typeName : Option String
  constraints : List ColumnConstraint
deriving BEq

namespace ColumnRule

def isPrimaryKey : ColumnRule → Bool
  | .primaryKey .. => true
  | _ => false

def isUnique : ColumnRule → Bool
  | .unique _ => true
  | _ => false

end ColumnRule

namespace ColumnDef

def isPrimaryKey (c : ColumnDef) : Bool := c.constraints.any (·.rule.isPrimaryKey)

def isUnique (c : ColumnDef) : Bool := c.constraints.any (·.rule.isUnique)

end ColumnDef

/-! ## Tables -/

/-- What a table constraint demands. -/
inductive TableRule where
  | primaryKey (columns : List IndexedColumn) (conflict : Option ConflictAction)
  | unique (columns : List IndexedColumn) (conflict : Option ConflictAction)
  | check (condition : Expr)
  | foreignKey (columns : List String) (key : ForeignKey)
deriving BEq

/-- A rule with the name it may have. -/
structure TableConstraint where
  name : Option String
  rule : TableRule
deriving BEq

def TableRule.isPrimaryKey : TableRule → Bool
  | .primaryKey .. => true
  | _ => false

inductive TableBody where
  | definitions (columns : List ColumnDef) (constraints : List TableConstraint)
      (withoutRowid strict : Bool)
  | asSelect (query : Select)
deriving BEq

structure CreateTable where
  temporary : Bool
  ifNotExists : Bool
  name : QualifiedName
  body : TableBody
deriving BEq

/-- The single change of an `ALTER TABLE`. -/
inductive TableChange where
  | renameTo (name : String)
  | renameColumn (column name : String)
  | addColumn (column : ColumnDef)
  | dropColumn (column : String)
deriving BEq

/-! ## Other objects -/

/-- An index. Its table lies in the schema of the index, so it is named without one. -/
structure CreateIndex where
  unique : Bool
  ifNotExists : Bool
  name : QualifiedName
  table : String
  columns : List IndexedColumn
  filter : Option Expr
deriving BEq

structure CreateView where
  temporary : Bool
  ifNotExists : Bool
  name : QualifiedName
  columns : List String
  query : Select
deriving BEq

/-- What a trigger fires on. An update of no columns at all is any update. -/
inductive TriggerEvent where
  | delete
  | insert
  | update
  | updateOf (columns : List String)
deriving BEq

/-- All of a trigger but its steps. -/
structure TriggerHeader where
  temporary : Bool
  ifNotExists : Bool
  name : QualifiedName
  timing : Option TriggerTiming
  event : TriggerEvent
  table : String
  forEachRow : Bool
  condition : Option Expr
deriving BEq

/-- A table that a module keeps. The arguments are read by the module alone. -/
structure CreateVirtualTable where
  ifNotExists : Bool
  name : QualifiedName
  moduleName : String
  arguments : List String
deriving BEq

structure DropObject where
  kind : ObjectKind
  ifExists : Bool
  name : QualifiedName
deriving BEq

end SqliteSyntax
