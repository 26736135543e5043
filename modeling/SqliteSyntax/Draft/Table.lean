import SqliteSyntax.Draft.Basic
import SqliteSyntax.Schema.Basic

/-! # Drafts of tables

Column definitions, table constraints, new tables and changes of tables. A new table has column
definitions or takes its columns from a query, never both. -/
namespace SqliteSyntax
set_option autoImplicit false

/-! ## Column definitions -/

/-- A column definition in the making. -/
inductive ColumnDraft where
  | column (definition : ColumnDef)
  /-- A constraint was named, and its rule is still to come. -/
  | naming (definition : ColumnDef) (constraint : String)

/-- The calls of a column definition, without their arguments. -/
inductive ColumnClause where
  | typeName
  | constraintName
  | rule
deriving DecidableEq

/-- A call on a column definition. -/
inductive ColumnCall where
  | typeName (typeName : String)
  | constraintName (name : String)
  | rule (rule : ColumnRule)

def ColumnDef.start (name : String) : ColumnDef := ⟨name, none, []⟩

/-- The column with one more constraint. -/
def ColumnDef.constrained (c : ColumnDef) (name : Option String) (rule : ColumnRule) : ColumnDef :=
  { c with constraints := c.constraints ++ [⟨name, rule⟩] }

namespace ColumnDraft

/-- After the name of a constraint only its rule can follow. -/
def offers : ColumnDraft → ColumnClause → Bool
  | .column _, _ => true
  | .naming .., .rule => true
  | .naming .., _ => false

def apply : ColumnDraft → ColumnCall → Except Failure ColumnDraft
  | .column c, .typeName typeName => .ok (.column { c with typeName := some typeName })
  | .column c, .constraintName name => .ok (.naming c name)
  | .column c, .rule rule => .ok (.column (c.constrained none rule))
  | .naming c name, .rule rule => .ok (.column (c.constrained (some name) rule))
  | .naming .., _ => .error .unavailable

def finish : ColumnDraft → Except Failure ColumnDef
  | .column c => .ok c
  | .naming .. => .error .unfinished

end ColumnDraft

/-! ## Table constraints -/

namespace TableConstraint

def primaryKey (columns : List IndexedColumn) : Except Error TableConstraint := do
  let columns ← required .primaryKeyColumns columns
  return ⟨none, .primaryKey columns none⟩

def unique (columns : List IndexedColumn) : Except Error TableConstraint := do
  let columns ← required .uniqueColumns columns
  return ⟨none, .unique columns none⟩

def check (condition : Expr) : TableConstraint := ⟨none, .check condition⟩

/-- A foreign key names no parent columns or as many as it has columns. -/
def foreignKey (columns : List String) (key : ForeignKey) : Except Error TableConstraint := do
  let columns ← required .foreignKeyColumns columns
  if !key.columns.isEmpty && key.columns.length != columns.length then
    .error (.construction (.foreignKeyArity columns.length key.columns.length))
  else
    return ⟨none, .foreignKey columns key⟩

def named (c : TableConstraint) (name : String) : TableConstraint := { c with name := some name }

/-- Only keys say what their violation does. -/
def onConflict (c : TableConstraint) (action : ConflictAction) : Except Error TableConstraint :=
  match c.rule with
  | .primaryKey columns _ => .ok { c with rule := .primaryKey columns (some action) }
  | .unique columns _ => .ok { c with rule := .unique columns (some action) }
  | .check _ | .foreignKey .. => .error (.construction .conflictActionMisplaced)

end TableConstraint

/-! ## New tables -/

/-- A table with column definitions in the making. -/
structure TableParts where
  temporary : Bool
  ifNotExists : Bool
  name : QualifiedName
  columns : List ColumnDef
  constraints : List TableConstraint
  withoutRowid : Bool
  strict : Bool

/-- A new table in the making. -/
inductive TableDraft where
  | definitions (parts : TableParts)
  /-- The columns come from a query, and nothing can follow. -/
  | fromSelect (temporary ifNotExists : Bool) (name : QualifiedName) (query : Select)

/-- A call on a new table. -/
inductive TableCall where
  | temporary
  | ifNotExists
  | column (definition : ColumnDef)
  | constraint (constraint : TableConstraint)
  | withoutRowid
  | strict
  | asSelect (query : Select)

namespace TableParts

def hasPrimaryKey (t : TableParts) : Bool :=
  t.columns.any ColumnDef.isPrimaryKey || t.constraints.any (·.rule.isPrimaryKey)

/-- The table of a query, if no part of a definition was given. -/
def asSelect (t : TableParts) (query : Select) : Except Failure TableDraft :=
  if !t.columns.isEmpty || !t.constraints.isEmpty then .error (.of .definitionsWithSelect)
  else if t.withoutRowid || t.strict then .error (.of .optionsWithSelect)
  else .ok (.fromSelect t.temporary t.ifNotExists t.name query)

end TableParts

/-- Temporary tables lie in the schema `temp`, in letters of any case. -/
def checkTemporarySchema (temporary : Bool) (name : QualifiedName) : Except Failure Unit :=
  match name.schema with
  | none => .ok ()
  | some schema =>
    if temporary && !sameIgnoringCase schema "temp" then
      .error (.of (.temporaryInSchema schema))
    else .ok ()

namespace TableDraft

def start (name : QualifiedName) : TableDraft :=
  .definitions ⟨false, false, name, [], [], false, false⟩

def apply : TableDraft → TableCall → Except Failure TableDraft
  | .definitions t, .temporary => .ok (.definitions { t with temporary := true })
  | .definitions t, .ifNotExists => .ok (.definitions { t with ifNotExists := true })
  | .definitions t, .column c => .ok (.definitions { t with columns := t.columns ++ [c] })
  | .definitions t, .constraint c =>
    .ok (.definitions { t with constraints := t.constraints ++ [c] })
  | .definitions t, .withoutRowid => .ok (.definitions { t with withoutRowid := true })
  | .definitions t, .strict => .ok (.definitions { t with strict := true })
  | .definitions t, .asSelect query => t.asSelect query
  | .fromSelect .., _ => .error .unavailable

/-- A table needs a column, a table without row numbers a primary key, and a temporary table no
schema but its own. -/
def finish : TableDraft → Except Failure CreateTable
  | .definitions t =>
    if t.columns.isEmpty then .error (.of .noTableColumns)
    else if t.withoutRowid && !t.hasPrimaryKey then .error (.of .rowidWithoutPrimaryKey)
    else do
      checkTemporarySchema t.temporary t.name
      return ⟨t.temporary, t.ifNotExists, t.name,
        .definitions t.columns t.constraints t.withoutRowid t.strict⟩
  | .fromSelect temporary ifNotExists name query => do
    checkTemporarySchema temporary name
    return ⟨temporary, ifNotExists, name, .asSelect query⟩

end TableDraft

/-! ## Changes of tables -/

/-- A change of a table in the making: it is one change, and a second cannot follow. -/
structure AlterDraft where
  table : QualifiedName
  change : Option TableChange

namespace AlterDraft

def start (table : QualifiedName) : AlterDraft := ⟨table, none⟩

def isOpen (d : AlterDraft) : Bool := d.change.isNone

/-- A column added to a table can be no key. -/
def checkChange : TableChange → Except Failure Unit
  | .addColumn c =>
    if c.isPrimaryKey || c.isUnique then .error (.of (.addedKeyColumn c.name)) else .ok ()
  | _ => .ok ()

def apply (d : AlterDraft) (change : TableChange) : Except Failure AlterDraft :=
  match d.change with
  | some _ => .error .unavailable
  | none => do
    checkChange change
    return { d with change := some change }

end AlterDraft
end SqliteSyntax
