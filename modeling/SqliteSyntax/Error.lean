import SqliteSyntax.Keyword
import SqliteSyntax.Number.Real

/-! # Errors

Why a value or a construction step is refused. Each cause carries what its message needs, and
`Error.message` holds all wording. -/
namespace SqliteSyntax
set_option autoImplicit false

/-- Lists that must not be empty. -/
inductive RequiredList where
  | insertColumns
  | conflictTarget
  | assignedColumns
  | usingColumns
  | primaryKeyColumns
  | uniqueColumns
  | foreignKeyColumns
  | indexColumns
  | viewColumns
deriving DecidableEq

/-- Where rows of values are given. -/
inductive RowPlace where
  | values
  | insert
deriving DecidableEq

/-- What is wrong with rows of values. -/
inductive RowFault where
  | noRows
  | emptyRow
  | width (found expected : Nat)
deriving DecidableEq

/-- What is wrong with the shape of a finished statement. -/
inductive ShapeFault where
  | offsetWithoutLimit
  | noRows
  | emptyRow
  | unevenRows
  | noAssignments
  | noTableColumns
  | noIndexColumns
  | noSteps
  | nestedExplain
deriving DecidableEq

/-- Why a statement cannot be a step of a trigger. -/
inductive StepFault where
  | withClause
  | qualifiedOrAliased
  | qualified
  | aliasedOrIndexed
  | defaultValues
  | returning
  | orderOrLimit
  | otherStatement (kind : StatementKind)
deriving DecidableEq

/-- Why a construction step is refused. -/
inductive Refusal where
  | emptyList (list : RequiredList)
  | rows (place : RowPlace) (fault : RowFault)
  | secondEscape
  | escapeWithoutPattern
  | joinAlias
  | naturalJoin (kind : JoinKind)
  | targetlessConflictBefore
  | targetConditionWithoutTarget
  | conflictActionMisplaced
  | foreignKeyArity (children parents : Nat)
  | definitionsWithSelect
  | optionsWithSelect
  | noTableColumns
  | rowidWithoutPrimaryKey
  | temporaryInSchema (schema : String)
  | noIndexColumns
  | addedKeyColumn (column : String)
  | explainInExplain
  | step (fault : StepFault)
  | shape (kind : StatementKind) (fault : ShapeFault)
  | raiseOutsideTrigger (kind : StatementKind)
deriving DecidableEq

/-- Why a value has no literal form. -/
inductive UnsupportedValue where
  | nonFinite (value : NonFinite)
  | notNumeral (text : String)
  | integerTooLarge (n : Nat)
  | jsonIntegerOutOfRange (n : Int)
  | jsonArray
  | jsonObject
deriving DecidableEq

inductive Error where
  | construction (cause : Refusal)
  | unsupportedValue (cause : UnsupportedValue)
  /-- No operator has this spelling. -/
  | unknownOperator (spelling : String)
deriving DecidableEq

/-! ## Wording -/

namespace RequiredList

/-- The construct that the list belongs to. -/
def owner : RequiredList → String
  | .insertColumns => "INSERT"
  | .conflictTarget => "ON CONFLICT"
  | .assignedColumns => "SET"
  | .usingColumns => "JOIN"
  | .primaryKeyColumns => "PRIMARY KEY"
  | .uniqueColumns => "UNIQUE"
  | .foreignKeyColumns => "FOREIGN KEY"
  | .indexColumns => "CREATE INDEX"
  | .viewColumns => "CREATE VIEW"

/-- What the list is called. -/
def title : RequiredList → String
  | .conflictTarget => "conflict target"
  | .assignedColumns => "column tuple"
  | .usingColumns => "USING column list"
  | _ => "column list"

end RequiredList

def RowPlace.owner : RowPlace → String
  | .values => "VALUES"
  | .insert => "INSERT"

def RowFault.message : RowFault → String
  | .noRows => "at least one row is required"
  | .emptyRow => "a row must have at least one value"
  | .width found expected =>
    "row has " ++ toString found ++ " values, expected " ++ toString expected

def ShapeFault.message : ShapeFault → String
  | .offsetWithoutLimit => "OFFSET requires LIMIT"
  | .noRows => "VALUES must not be empty"
  | .emptyRow => "a VALUES row must not be empty"
  | .unevenRows => "all VALUES rows must have the same width"
  | .noAssignments => "SET must not be empty"
  | .noTableColumns => "a table needs at least one column or an AS SELECT source"
  | .noIndexColumns => "an index needs at least one column"
  | .noSteps => "a trigger needs at least one step"
  | .nestedExplain => "EXPLAIN cannot be nested"

def StepFault.message : StepFault → String
  | .withClause => "WITH is not allowed in a trigger body"
  | .qualifiedOrAliased => "tables in a trigger body cannot be schema-qualified or aliased"
  | .qualified => "tables in a trigger body cannot be schema-qualified"
  | .aliasedOrIndexed => "tables in a trigger body cannot be aliased or indexed"
  | .defaultValues => "DEFAULT VALUES is not allowed in a trigger body"
  | .returning => "RETURNING is not allowed in a trigger body"
  | .orderOrLimit => "ORDER BY and LIMIT are not allowed in a trigger body"
  | .otherStatement kind => Phrase.sql kind ++ " cannot appear in a trigger body"

namespace Refusal

/-- The construct that refuses the step. -/
def owner : Refusal → String
  | .emptyList list => list.owner
  | .rows place _ => place.owner
  | .secondEscape | .escapeWithoutPattern => "ESCAPE"
  | .joinAlias => "FROM"
  | .naturalJoin _ => "JOIN"
  | .targetlessConflictBefore => "INSERT"
  | .targetConditionWithoutTarget | .conflictActionMisplaced => "ON CONFLICT"
  | .foreignKeyArity _ _ => "FOREIGN KEY"
  | .definitionsWithSelect | .optionsWithSelect | .noTableColumns | .rowidWithoutPrimaryKey
  | .temporaryInSchema _ => "CREATE TABLE"
  | .noIndexColumns => "CREATE INDEX"
  | .addedKeyColumn _ => "ALTER TABLE"
  | .explainInExplain => "EXPLAIN"
  | .step _ => "CREATE TRIGGER"
  | .shape kind _ | .raiseOutsideTrigger kind => Phrase.sql kind

def reason : Refusal → String
  | .emptyList list => list.title ++ " must not be empty"
  | .rows _ fault => fault.message
  | .secondEscape => "escape character already set"
  | .escapeWithoutPattern => "only LIKE, GLOB, MATCH and REGEXP take an escape"
  | .joinAlias => "a join cannot be aliased"
  | .naturalJoin kind => "`" ++ Phrase.sql kind ++ "` cannot be NATURAL"
  | .targetlessConflictBefore => "only the last ON CONFLICT clause may omit its conflict target"
  | .targetConditionWithoutTarget => "a target predicate needs a conflict target"
  | .conflictActionMisplaced => "only PRIMARY KEY and UNIQUE take a conflict clause"
  | .foreignKeyArity children parents =>
    toString children ++ " child columns but " ++ toString parents ++ " parent columns"
  | .definitionsWithSelect => "AS SELECT cannot be combined with column definitions"
  | .optionsWithSelect => "AS SELECT cannot be combined with table options"
  | .noTableColumns => ShapeFault.noTableColumns.message
  | .rowidWithoutPrimaryKey => "WITHOUT ROWID requires a PRIMARY KEY"
  | .temporaryInSchema schema =>
    "a temporary table cannot be created in schema `" ++ schema ++ "`"
  | .noIndexColumns => ShapeFault.noIndexColumns.message
  | .addedKeyColumn column => "added column `" ++ column ++ "` cannot be PRIMARY KEY or UNIQUE"
  | .explainInExplain => "EXPLAIN cannot wrap another EXPLAIN"
  | .step fault => fault.message
  | .shape _ fault => fault.message
  | .raiseOutsideTrigger _ => "RAISE is only valid inside a trigger body"

end Refusal

def UnsupportedValue.message : UnsupportedValue → String
  | .nonFinite value => "non-finite real " ++ value.text ++ " has no literal form"
  | .notNumeral text => "'" ++ text ++ "' is not a decimal numeral"
  | .integerTooLarge n => toString n ++ " does not fit a 64-bit signed integer"
  | .jsonIntegerOutOfRange n =>
    "JSON number " ++ toString n ++ " does not fit a 64-bit signed integer"
  | .jsonArray => "JSON array has no literal form"
  | .jsonObject => "JSON object has no literal form"

/-- The whole message of an error. -/
def Error.message : Error → String
  | .construction cause => cause.owner ++ ": " ++ cause.reason
  | .unsupportedValue cause => "Unsupported value: " ++ cause.message
  | .unknownOperator spelling =>
    "Invariant violated: operator `" ++ spelling ++ "` has no precedence tier"

end SqliteSyntax
