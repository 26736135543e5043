import SqliteSyntax.Proofs.Pieces.Numerals
import SqliteSyntax.Statement.Basic

/-! # Canonical statements

Some statements are written alike, and their texts cannot be told apart. The canonical form of a
statement writes each such group in one way and leaves everything else as it is:

* in expressions a number is the decimal of its text, with a sign as an operator in front of it; a row of
  one item is that item; `NOT EXISTS` is `NOT` before `EXISTS`; the tests `IS NULL` and `IS NOT NULL` are
  comparisons with `NULL`;
* an empty list of result columns is a star;
* a collation of an ordering term or of an indexed column is a `COLLATE` in its expression;
* inserting rows is inserting from a query that is a bare `VALUES` list;
* an `UPDATE OF` no columns is an `UPDATE`. -/
namespace SqliteSyntax
set_option autoImplicit false

/-! ## Numbers -/

/-- The numeral of a number. -/
def Literal.numeral? : Literal → Option Numeral
  | .integer value =>
    some ⟨String.ofList (Decimal.integerText value.toInt), by
      rw [String.toList_ofList]
      exact isWritten_integerText value.toInt⟩
  | .real value => some ⟨value.text, value.isWritten_text⟩
  | .decimal value => some value
  | _ => none

/-- Numbers are told apart by their texts alone. -/
def Literal.canonical (value : Literal) : Literal :=
  match value.numeral? with
  | some numeral => .decimal numeral
  | none => value

namespace Expr

/-- The number with these digits, which are those of a numeral. -/
def ofDigits (digits : String) : Expr :=
  match Numeral.ofText? digits with
  | some numeral => .literal (.decimal numeral)
  | none => .literal (.text digits)

/-- The sign of a numeral as an operator, then the number without it. -/
def ofNumeral (numeral : Numeral) : Expr :=
  match numeral.text.toList with
  | '-' :: rest => .unary .neg (.ofDigits (String.ofList rest))
  | '+' :: rest => .unary .plus (.ofDigits (String.ofList rest))
  | _ => .literal (.decimal numeral)

def ofLiteral (value : Literal) : Expr :=
  match value.numeral? with
  | some numeral => .ofNumeral numeral
  | none => .literal value

/-! ## Forms written alike -/

def ofNullTest (test : NullTest) (operand : Expr) : Expr :=
  match test with
  | .isNull => .binary .is operand (.literal .null)
  | .isNotNull => .binary .isNot operand (.literal .null)
  | test => .nullTest test operand

def ofRow : List Expr → Expr
  | [item] => item
  | items => .row items

def ofExists (negated : Bool) (query : Select) : Expr :=
  if negated then .unary .not (.existsRow false query) else .existsRow false query

/-- The expression under a collation, if there is one. -/
def collated (e : Expr) : Option String → Expr
  | none => e
  | some collation => .collate e collation

end Expr

/-- The columns, or a star in place of none. -/
def orStar (columns : List ResultColumn) : List ResultColumn :=
  if columns.isEmpty then [.star] else columns

/-! ## Expressions and queries -/

mutual

def Expr.canonical : Expr → Expr
  | .literal value => .ofLiteral value
  | .column reference => .column reference
  | .unary op operand => .unary op operand.canonical
  | .binary op left right => .binary op left.canonical right.canonical
  | .nullTest test operand => .ofNullTest test operand.canonical
  | .collate operand collation => .collate operand.canonical collation
  | .pattern op negated subject against escape =>
    .pattern op negated subject.canonical against.canonical (canonicalOption escape)
  | .between negated subject low high =>
    .between negated subject.canonical low.canonical high.canonical
  | .inList negated subject items => .inList negated subject.canonical (canonicalList items)
  | .inSelect negated subject query => .inSelect negated subject.canonical query.canonical
  | .existsRow negated query => .ofExists negated query.canonical
  | .subquery query => .subquery query.canonical
  | .call function distinct arguments => .call function distinct (canonicalList arguments)
  | .callStar function distinct => .callStar function distinct
  | .caseWhen operand branches otherwise =>
    .caseWhen (canonicalOption operand) (canonicalBranches branches) (canonicalOption otherwise)
  | .cast operand typeName => .cast operand.canonical typeName
  | .row items => .ofRow (canonicalList items)
  | .raise action => .raise action

def canonicalList : List Expr → List Expr
  | [] => []
  | e :: rest => e.canonical :: canonicalList rest

def canonicalOption : Option Expr → Option Expr
  | none => none
  | some e => some e.canonical

def canonicalBranches : List (Expr × Expr) → List (Expr × Expr)
  | [] => []
  | (condition, result) :: rest =>
    (condition.canonical, result.canonical) :: canonicalBranches rest

def canonicalRows : List (List Expr) → List (List Expr)
  | [] => []
  | row :: rest => canonicalList row :: canonicalRows rest

def Select.canonical : Select → Select
  | ⟨withClause, body, compounds, orderBy, limit, offset⟩ =>
    ⟨canonicalWith withClause, body.canonical, canonicalCompounds compounds, canonicalTerms orderBy,
      canonicalOption limit, canonicalOption offset⟩

def canonicalWith : Option WithClause → Option WithClause
  | none => none
  | some ⟨recursive, tables⟩ => some ⟨recursive, canonicalTables tables⟩

def canonicalTables : List CommonTable → List CommonTable
  | [] => []
  | ⟨name, columns, materialized, query⟩ :: rest =>
    ⟨name, columns, materialized, query.canonical⟩ :: canonicalTables rest

def SelectBody.canonical : SelectBody → SelectBody
  | .core core => .core core.canonical
  | .values rows => .values (canonicalRows rows)

def canonicalCompounds : List (SetOperator × SelectBody) → List (SetOperator × SelectBody)
  | [] => []
  | (op, body) :: rest => (op, body.canonical) :: canonicalCompounds rest

def SelectCore.canonical : SelectCore → SelectCore
  | ⟨distinct, columns, source, filter, groupBy, having⟩ =>
    ⟨distinct, orStar (canonicalColumns columns), canonicalSource source, canonicalOption filter,
      canonicalList groupBy, canonicalOption having⟩

def canonicalSource : Option FromTree → Option FromTree
  | none => none
  | some tree => some tree.canonical

def ResultColumn.canonical : ResultColumn → ResultColumn
  | .star => .star
  | .tableStar table => .tableStar table
  | .expr value asName => .expr value.canonical asName

def canonicalColumns : List ResultColumn → List ResultColumn
  | [] => []
  | column :: rest => column.canonical :: canonicalColumns rest

def OrderingTerm.canonical : OrderingTerm → OrderingTerm
  | ⟨expr, collation, direction, nulls⟩ => ⟨expr.canonical.collated collation, none, direction, nulls⟩

def canonicalTerms : List OrderingTerm → List OrderingTerm
  | [] => []
  | term :: rest => term.canonical :: canonicalTerms rest

def FromTree.canonical : FromTree → FromTree
  | .table reference => .table reference
  | .subquery query asName => .subquery query.canonical asName
  | .function name arguments asName => .function name (canonicalList arguments) asName
  | .join left op right constraint =>
    .join left.canonical op right.canonical (canonicalConstraint constraint)

def canonicalConstraint : Option JoinConstraint → Option JoinConstraint
  | none => none
  | some (.condition condition) => some (.condition condition.canonical)
  | some (.columns names) => some (.columns names)

end

/-! ## Changes to rows -/

def Assignment.canonical (a : Assignment) : Assignment := ⟨a.columns, a.value.canonical⟩

def IndexedColumn.canonical (c : IndexedColumn) : IndexedColumn :=
  ⟨c.expr.canonical.collated c.collation, none, c.order⟩

def UpsertTarget.canonical (t : UpsertTarget) : UpsertTarget :=
  ⟨t.columns.map IndexedColumn.canonical, t.filter.map Expr.canonical⟩

def UpsertAction.canonical : UpsertAction → UpsertAction
  | .nothing => .nothing
  | .update assignments filter =>
    .update (assignments.map Assignment.canonical) (filter.map Expr.canonical)

def Upsert.canonical (u : Upsert) : Upsert :=
  ⟨u.target.map UpsertTarget.canonical, u.action.canonical⟩

def InsertSource.canonical : InsertSource → InsertSource
  | .values rows => .select (.canonical (.ofBody (.values rows)))
  | .select query => .select query.canonical
  | .defaultValues => .defaultValues

def Insert.canonical (i : Insert) : Insert :=
  ⟨canonicalWith i.withClause, i.verb, i.table, i.asName, i.columns, i.source.canonical,
    i.upserts.map Upsert.canonical, i.returning.map ResultColumn.canonical⟩

def Update.canonical (u : Update) : Update :=
  ⟨canonicalWith u.withClause, u.conflict, u.table, u.assignments.map Assignment.canonical,
    u.source.map FromTree.canonical, u.filter.map Expr.canonical,
    u.returning.map ResultColumn.canonical, u.orderBy.map OrderingTerm.canonical,
    u.limit.map Expr.canonical, u.offset.map Expr.canonical⟩

def Delete.canonical (d : Delete) : Delete :=
  ⟨canonicalWith d.withClause, d.table, d.filter.map Expr.canonical,
    d.returning.map ResultColumn.canonical, d.orderBy.map OrderingTerm.canonical,
    d.limit.map Expr.canonical, d.offset.map Expr.canonical⟩

/-! ## Schema objects -/

def DefaultValue.canonical : DefaultValue → DefaultValue
  | .literal value => .literal value.canonical
  | .expr value => .expr value.canonical

def ColumnRule.canonical : ColumnRule → ColumnRule
  | .check condition => .check condition.canonical
  | .default value => .default value.canonical
  | .generated value storage => .generated value.canonical storage
  | rule => rule

def ColumnConstraint.canonical (c : ColumnConstraint) : ColumnConstraint :=
  ⟨c.name, c.rule.canonical⟩

def ColumnDef.canonical (c : ColumnDef) : ColumnDef :=
  ⟨c.name, c.typeName, c.constraints.map ColumnConstraint.canonical⟩

def TableRule.canonical : TableRule → TableRule
  | .primaryKey columns conflict => .primaryKey (columns.map IndexedColumn.canonical) conflict
  | .unique columns conflict => .unique (columns.map IndexedColumn.canonical) conflict
  | .check condition => .check condition.canonical
  | .foreignKey columns key => .foreignKey columns key

def TableConstraint.canonical (c : TableConstraint) : TableConstraint :=
  ⟨c.name, c.rule.canonical⟩

def TableBody.canonical : TableBody → TableBody
  | .definitions columns constraints withoutRowid strict =>
    .definitions (columns.map ColumnDef.canonical) (constraints.map TableConstraint.canonical)
      withoutRowid strict
  | .asSelect query => .asSelect query.canonical

def CreateTable.canonical (t : CreateTable) : CreateTable := { t with body := t.body.canonical }

def TableChange.canonical : TableChange → TableChange
  | .addColumn column => .addColumn column.canonical
  | change => change

def CreateIndex.canonical (i : CreateIndex) : CreateIndex :=
  { i with columns := i.columns.map IndexedColumn.canonical, filter := i.filter.map Expr.canonical }

def CreateView.canonical (v : CreateView) : CreateView := { v with query := v.query.canonical }

def TriggerEvent.canonical : TriggerEvent → TriggerEvent
  | .updateOf [] => .update
  | event => event

def TriggerHeader.canonical (t : TriggerHeader) : TriggerHeader :=
  { t with event := t.event.canonical, condition := t.condition.map Expr.canonical }

/-! ## All statements -/

mutual

/-- The statement with everything that its text does not tell apart written in one way. -/
def Statement.canonical : Statement → Statement
  | .select query => .select query.canonical
  | .insert insert => .insert insert.canonical
  | .update update => .update update.canonical
  | .delete delete => .delete delete.canonical
  | .createTable table => .createTable table.canonical
  | .createIndex index => .createIndex index.canonical
  | .createView view => .createView view.canonical
  | .createTrigger header steps => .createTrigger header.canonical (canonicalSteps steps)
  | .createVirtualTable table => .createVirtualTable table
  | .alterTable table change => .alterTable table change.canonical
  | .drop object => .drop object
  | .begin mode => .begin mode
  | .commit => .commit
  | .rollback savepoint => .rollback savepoint
  | .savepoint name => .savepoint name
  | .release name => .release name
  | .attach file schema => .attach file.canonical schema
  | .detach schema => .detach schema
  | .vacuum schema file => .vacuum schema (file.map Expr.canonical)
  | .reindex target => .reindex target
  | .analyze target => .analyze target
  | .explain queryPlan statement => .explain queryPlan statement.canonical

def canonicalSteps : List Statement → List Statement
  | [] => []
  | step :: rest => step.canonical :: canonicalSteps rest

end

end SqliteSyntax
