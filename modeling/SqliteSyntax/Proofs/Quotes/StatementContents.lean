import SqliteSyntax.Proofs.Quotes.Contents

/-! # Contents of whole statements

`leaves` and `blank` for schema objects, for changes to rows and for statements of all kinds. -/
namespace SqliteSyntax
set_option autoImplicit false

/-! ## Schema objects -/

def IndexedColumn.leaves (c : IndexedColumn) : List Leaf := c.expr.leaves ++ optionalName c.collation

def IndexedColumn.blank (c : IndexedColumn) : IndexedColumn :=
  ⟨c.expr.blank, noName c.collation, c.order⟩

def ForeignKey.leaves (k : ForeignKey) : List Leaf := .name k.table :: nameLeaves k.columns

def ForeignKey.blank (k : ForeignKey) : ForeignKey :=
  ⟨"", noNames k.columns, k.onDelete, k.onUpdate, k.deferrability⟩

def DefaultValue.leaves : DefaultValue → List Leaf
  | .literal value => value.leaves
  | .expr value => value.leaves

def DefaultValue.blank : DefaultValue → DefaultValue
  | .literal value => .literal value.blank
  | .expr value => .expr value.blank

def ColumnRule.leaves : ColumnRule → List Leaf
  | .check condition => condition.leaves
  | .default value => value.leaves
  | .collate collation => [.name collation]
  | .references key => key.leaves
  | .generated value _ => value.leaves
  | .primaryKey .. | .notNull _ | .null | .unique _ => []

def ColumnRule.blank : ColumnRule → ColumnRule
  | .check condition => .check condition.blank
  | .default value => .default value.blank
  | .collate _ => .collate ""
  | .references key => .references key.blank
  | .generated value storage => .generated value.blank storage
  | .primaryKey order conflict autoincrement => .primaryKey order conflict autoincrement
  | .notNull conflict => .notNull conflict
  | .null => .null
  | .unique conflict => .unique conflict

def ColumnConstraint.leaves (c : ColumnConstraint) : List Leaf :=
  optionalName c.name ++ c.rule.leaves

def ColumnConstraint.blank (c : ColumnConstraint) : ColumnConstraint :=
  ⟨noName c.name, c.rule.blank⟩

def ColumnDef.leaves (c : ColumnDef) : List Leaf :=
  .name c.name :: c.typeName.toList.map .verbatim ++ c.constraints.flatMap ColumnConstraint.leaves

def ColumnDef.blank (c : ColumnDef) : ColumnDef :=
  ⟨"", c.typeName, c.constraints.map ColumnConstraint.blank⟩

def TableRule.leaves : TableRule → List Leaf
  | .primaryKey columns _ | .unique columns _ => columns.flatMap IndexedColumn.leaves
  | .check condition => condition.leaves
  | .foreignKey columns key => nameLeaves columns ++ key.leaves

def TableRule.blank : TableRule → TableRule
  | .primaryKey columns conflict => .primaryKey (columns.map IndexedColumn.blank) conflict
  | .unique columns conflict => .unique (columns.map IndexedColumn.blank) conflict
  | .check condition => .check condition.blank
  | .foreignKey columns key => .foreignKey (noNames columns) key.blank

def TableConstraint.leaves (c : TableConstraint) : List Leaf :=
  optionalName c.name ++ c.rule.leaves

def TableConstraint.blank (c : TableConstraint) : TableConstraint := ⟨noName c.name, c.rule.blank⟩

def TableBody.leaves : TableBody → List Leaf
  | .definitions columns constraints _ _ =>
    columns.flatMap ColumnDef.leaves ++ constraints.flatMap TableConstraint.leaves
  | .asSelect query => query.leaves

def TableBody.blank : TableBody → TableBody
  | .definitions columns constraints withoutRowid strict =>
    .definitions (columns.map ColumnDef.blank) (constraints.map TableConstraint.blank)
      withoutRowid strict
  | .asSelect query => .asSelect query.blank

def CreateTable.leaves (t : CreateTable) : List Leaf := t.name.leaves ++ t.body.leaves

def CreateTable.blank (t : CreateTable) : CreateTable :=
  ⟨t.temporary, t.ifNotExists, t.name.blank, t.body.blank⟩

def TableChange.leaves : TableChange → List Leaf
  | .renameTo name => [.name name]
  | .renameColumn column name => [.name column, .name name]
  | .addColumn column => column.leaves
  | .dropColumn column => [.name column]

def TableChange.blank : TableChange → TableChange
  | .renameTo _ => .renameTo ""
  | .renameColumn _ _ => .renameColumn "" ""
  | .addColumn column => .addColumn column.blank
  | .dropColumn _ => .dropColumn ""

def CreateIndex.leaves (i : CreateIndex) : List Leaf :=
  i.name.leaves ++ .name i.table :: i.columns.flatMap IndexedColumn.leaves ++ optionLeaves i.filter

def CreateIndex.blank (i : CreateIndex) : CreateIndex :=
  ⟨i.unique, i.ifNotExists, i.name.blank, "", i.columns.map IndexedColumn.blank,
    blankOption i.filter⟩

def CreateView.leaves (v : CreateView) : List Leaf :=
  v.name.leaves ++ nameLeaves v.columns ++ v.query.leaves

def CreateView.blank (v : CreateView) : CreateView :=
  ⟨v.temporary, v.ifNotExists, v.name.blank, noNames v.columns, v.query.blank⟩

def TriggerEvent.leaves : TriggerEvent → List Leaf
  | .updateOf columns => nameLeaves columns
  | .delete | .insert | .update => []

def TriggerEvent.blank : TriggerEvent → TriggerEvent
  | .updateOf columns => .updateOf (noNames columns)
  | .delete => .delete
  | .insert => .insert
  | .update => .update

def TriggerHeader.leaves (t : TriggerHeader) : List Leaf :=
  t.name.leaves ++ t.event.leaves ++ .name t.table :: optionLeaves t.condition

def TriggerHeader.blank (t : TriggerHeader) : TriggerHeader :=
  ⟨t.temporary, t.ifNotExists, t.name.blank, t.timing, t.event.blank, "", t.forEachRow,
    blankOption t.condition⟩

def CreateVirtualTable.leaves (t : CreateVirtualTable) : List Leaf :=
  t.name.leaves ++ .name t.moduleName :: t.arguments.map .verbatim

def CreateVirtualTable.blank (t : CreateVirtualTable) : CreateVirtualTable :=
  ⟨t.ifNotExists, t.name.blank, "", t.arguments⟩

def DropObject.blank (d : DropObject) : DropObject := ⟨d.kind, d.ifExists, d.name.blank⟩

/-! ## Changes to rows -/

def Assignment.leaves (a : Assignment) : List Leaf := nameLeaves a.columns ++ a.value.leaves

def Assignment.blank (a : Assignment) : Assignment := ⟨noNames a.columns, a.value.blank⟩

def UpsertTarget.leaves (t : UpsertTarget) : List Leaf :=
  t.columns.flatMap IndexedColumn.leaves ++ optionLeaves t.filter

def UpsertTarget.blank (t : UpsertTarget) : UpsertTarget :=
  ⟨t.columns.map IndexedColumn.blank, blankOption t.filter⟩

def UpsertAction.leaves : UpsertAction → List Leaf
  | .nothing => []
  | .update assignments filter => assignments.flatMap Assignment.leaves ++ optionLeaves filter

def UpsertAction.blank : UpsertAction → UpsertAction
  | .nothing => .nothing
  | .update assignments filter => .update (assignments.map Assignment.blank) (blankOption filter)

def Upsert.leaves (u : Upsert) : List Leaf :=
  u.target.toList.flatMap UpsertTarget.leaves ++ u.action.leaves

def Upsert.blank (u : Upsert) : Upsert := ⟨u.target.map UpsertTarget.blank, u.action.blank⟩

def InsertSource.leaves : InsertSource → List Leaf
  | .values rows => rowLeaves rows
  | .select query => query.leaves
  | .defaultValues => []

def InsertSource.blank : InsertSource → InsertSource
  | .values rows => .values (blankRows rows)
  | .select query => .select query.blank
  | .defaultValues => .defaultValues

def Insert.leaves (i : Insert) : List Leaf :=
  withLeaves i.withClause ++ i.table.leaves ++ optionalName i.asName ++ nameLeaves i.columns ++
    i.source.leaves ++ i.upserts.flatMap Upsert.leaves ++ columnLeaves i.returning

def Insert.blank (i : Insert) : Insert :=
  ⟨blankWith i.withClause, i.verb, i.table.blank, noName i.asName, noNames i.columns,
    i.source.blank, i.upserts.map Upsert.blank, blankColumns i.returning⟩

def Update.leaves (u : Update) : List Leaf :=
  withLeaves u.withClause ++ u.table.leaves ++ u.assignments.flatMap Assignment.leaves ++
    sourceLeaves u.source ++ optionLeaves u.filter ++ columnLeaves u.returning ++
    termLeaves u.orderBy ++ optionLeaves u.limit ++ optionLeaves u.offset

def Update.blank (u : Update) : Update :=
  ⟨blankWith u.withClause, u.conflict, u.table.blank, u.assignments.map Assignment.blank,
    blankSource u.source, blankOption u.filter, blankColumns u.returning, blankTerms u.orderBy,
    blankOption u.limit, blankOption u.offset⟩

def Delete.leaves (d : Delete) : List Leaf :=
  withLeaves d.withClause ++ d.table.leaves ++ optionLeaves d.filter ++ columnLeaves d.returning ++
    termLeaves d.orderBy ++ optionLeaves d.limit ++ optionLeaves d.offset

def Delete.blank (d : Delete) : Delete :=
  ⟨blankWith d.withClause, d.table.blank, blankOption d.filter, blankColumns d.returning,
    blankTerms d.orderBy, blankOption d.limit, blankOption d.offset⟩

/-! ## All statements -/

mutual

/-- Names, texts, byte strings and verbatim texts in the order of the text. -/
def Statement.leaves : Statement → List Leaf
  | .select query => query.leaves
  | .insert i => i.leaves
  | .update u => u.leaves
  | .delete d => d.leaves
  | .createTable table => table.leaves
  | .createIndex index => index.leaves
  | .createView view => view.leaves
  | .createTrigger header steps => header.leaves ++ stepLeaves steps
  | .createVirtualTable table => table.leaves
  | .alterTable table change => table.leaves ++ change.leaves
  | .drop object => object.name.leaves
  | .begin _ | .commit => []
  | .rollback name => optionalName name
  | .savepoint name | .release name | .detach name => [.name name]
  | .attach file schema => file.leaves ++ [.name schema]
  | .vacuum schema file => optionalName schema ++ optionLeaves file
  | .reindex target | .analyze target => target.toList.flatMap QualifiedName.leaves
  | .explain _ statement => statement.leaves

def stepLeaves : List Statement → List Leaf
  | [] => []
  | step :: rest => step.leaves ++ stepLeaves rest

end

mutual

/-- The statement with every name, text and byte string emptied. -/
def Statement.blank : Statement → Statement
  | .select query => .select query.blank
  | .insert i => .insert i.blank
  | .update u => .update u.blank
  | .delete d => .delete d.blank
  | .createTable table => .createTable table.blank
  | .createIndex index => .createIndex index.blank
  | .createView view => .createView view.blank
  | .createTrigger header steps => .createTrigger header.blank (blankSteps steps)
  | .createVirtualTable table => .createVirtualTable table.blank
  | .alterTable table change => .alterTable table.blank change.blank
  | .drop object => .drop object.blank
  | .begin mode => .begin mode
  | .commit => .commit
  | .rollback name => .rollback (noName name)
  | .savepoint _ => .savepoint ""
  | .release _ => .release ""
  | .attach file _ => .attach file.blank ""
  | .detach _ => .detach ""
  | .vacuum schema file => .vacuum (noName schema) (blankOption file)
  | .reindex target => .reindex (target.map QualifiedName.blank)
  | .analyze target => .analyze (target.map QualifiedName.blank)
  | .explain queryPlan statement => .explain queryPlan statement.blank

def blankSteps : List Statement → List Statement
  | [] => []
  | step :: rest => step.blank :: blankSteps rest

end

end SqliteSyntax
