import SqliteSyntax.Statement.Basic

/-! # Contents of statements

The names, texts and byte strings of a statement and the texts that stand as they are given
(`leaves`, in the order in which a statement is written), and the statement with every name, text and
byte string emptied (`blank`). Two statements with the same blank differ in such contents only. -/
namespace SqliteSyntax
set_option autoImplicit false

/-- A text that a statement carries. -/
inductive Leaf where
  /-- The name of an object, a column, an alias, a collation or a function. -/
  | name (content : String)
  /-- A text value or the message of a `RAISE`. -/
  | text (content : String)
  | blob (bytes : List UInt8)
  /-- A type or an argument of a virtual table. -/
  | verbatim (content : String)
deriving DecidableEq

def nameLeaves (names : List String) : List Leaf := names.map .name

def optionalName (name : Option String) : List Leaf := name.toList.map .name

def noNames (names : List String) : List String := names.map fun _ => ""

def noName (name : Option String) : Option String := name.map fun _ => ""

/-! ## Names and literals -/

def QualifiedName.leaves (n : QualifiedName) : List Leaf := optionalName n.schema ++ [.name n.name]

def QualifiedName.blank (n : QualifiedName) : QualifiedName := ⟨noName n.schema, ""⟩

def Qualifier.leaves : Qualifier → List Leaf
  | .table name => name.leaves
  | .new | .old => []

def Qualifier.blank : Qualifier → Qualifier
  | .table name => .table name.blank
  | .new => .new
  | .old => .old

def ColumnRef.leaves (c : ColumnRef) : List Leaf :=
  c.qualifier.toList.flatMap Qualifier.leaves ++ [.name c.column]

def ColumnRef.blank (c : ColumnRef) : ColumnRef := ⟨c.qualifier.map Qualifier.blank, ""⟩

def IndexHint.leaves : IndexHint → List Leaf
  | .indexedBy index => [.name index]
  | .notIndexed => []

def IndexHint.blank : IndexHint → IndexHint
  | .indexedBy _ => .indexedBy ""
  | .notIndexed => .notIndexed

def TableRef.leaves (t : TableRef) : List Leaf :=
  t.name.leaves ++ optionalName t.asName ++ t.hint.toList.flatMap IndexHint.leaves

def TableRef.blank (t : TableRef) : TableRef :=
  ⟨t.name.blank, noName t.asName, t.hint.map IndexHint.blank⟩

def Literal.leaves : Literal → List Leaf
  | .text value => [.text value]
  | .blob bytes => [.blob bytes]
  | .null | .boolean _ | .integer _ | .real _ | .decimal _ | .currentTime | .currentDate
  | .currentTimestamp => []

def Literal.blank : Literal → Literal
  | .text _ => .text ""
  | .blob _ => .blob []
  | value => value

def FunctionName.leaves : FunctionName → List Leaf
  | .builtin _ => []
  | .defined name => [.name name]

def FunctionName.blank : FunctionName → FunctionName
  | .builtin f => .builtin f
  | .defined _ => .defined ""

def RaiseAction.leaves : RaiseAction → List Leaf
  | .ignore => []
  | .rollback message | .abort message | .fail message => [.text message]

def RaiseAction.blank : RaiseAction → RaiseAction
  | .ignore => .ignore
  | .rollback _ => .rollback ""
  | .abort _ => .abort ""
  | .fail _ => .fail ""

/-! ## Leaves of expressions and queries -/

mutual

def Expr.leaves : Expr → List Leaf
  | .literal value => value.leaves
  | .column reference => reference.leaves
  | .unary _ operand => operand.leaves
  | .binary _ left right => left.leaves ++ right.leaves
  | .nullTest _ operand => operand.leaves
  | .collate operand collation => operand.leaves ++ [.name collation]
  | .pattern _ _ subject against escape => subject.leaves ++ against.leaves ++ optionLeaves escape
  | .between _ subject low high => subject.leaves ++ low.leaves ++ high.leaves
  | .inList _ subject items => subject.leaves ++ listLeaves items
  | .inSelect _ subject query => subject.leaves ++ query.leaves
  | .existsRow _ query => query.leaves
  | .subquery query => query.leaves
  | .call function _ arguments => function.leaves ++ listLeaves arguments
  | .callStar function _ => function.leaves
  | .caseWhen operand branches otherwise =>
    optionLeaves operand ++ branchLeaves branches ++ optionLeaves otherwise
  | .cast operand typeName => operand.leaves ++ [.verbatim typeName]
  | .row items => listLeaves items
  | .raise action => action.leaves

def listLeaves : List Expr → List Leaf
  | [] => []
  | e :: rest => e.leaves ++ listLeaves rest

def optionLeaves : Option Expr → List Leaf
  | none => []
  | some e => e.leaves

def branchLeaves : List (Expr × Expr) → List Leaf
  | [] => []
  | (condition, result) :: rest => condition.leaves ++ result.leaves ++ branchLeaves rest

def rowLeaves : List (List Expr) → List Leaf
  | [] => []
  | row :: rest => listLeaves row ++ rowLeaves rest

def Select.leaves : Select → List Leaf
  | ⟨withClause, body, compounds, orderBy, limit, offset⟩ =>
    withLeaves withClause ++ body.leaves ++ compoundLeaves compounds ++ termLeaves orderBy ++
      optionLeaves limit ++ optionLeaves offset

def withLeaves : Option WithClause → List Leaf
  | none => []
  | some ⟨_, tables⟩ => tableLeaves tables

def tableLeaves : List CommonTable → List Leaf
  | [] => []
  | ⟨name, columns, _, query⟩ :: rest =>
    .name name :: nameLeaves columns ++ query.leaves ++ tableLeaves rest

def SelectBody.leaves : SelectBody → List Leaf
  | .core core => core.leaves
  | .values rows => rowLeaves rows

def compoundLeaves : List (SetOperator × SelectBody) → List Leaf
  | [] => []
  | (_, body) :: rest => body.leaves ++ compoundLeaves rest

def SelectCore.leaves : SelectCore → List Leaf
  | ⟨_, columns, source, filter, groupBy, having⟩ =>
    columnLeaves columns ++ sourceLeaves source ++ optionLeaves filter ++ listLeaves groupBy ++
      optionLeaves having

def sourceLeaves : Option FromTree → List Leaf
  | none => []
  | some tree => tree.leaves

def columnLeaves : List ResultColumn → List Leaf
  | [] => []
  | .star :: rest => columnLeaves rest
  | .tableStar table :: rest => .name table :: columnLeaves rest
  | .expr value asName :: rest => value.leaves ++ optionalName asName ++ columnLeaves rest

def termLeaves : List OrderingTerm → List Leaf
  | [] => []
  | ⟨expr, collation, _, _⟩ :: rest => expr.leaves ++ optionalName collation ++ termLeaves rest

def FromTree.leaves : FromTree → List Leaf
  | .table reference => reference.leaves
  | .subquery query asName => query.leaves ++ optionalName asName
  | .function name arguments asName =>
    name.leaves ++ listLeaves arguments ++ optionalName asName
  | .join left _ right constraint => left.leaves ++ right.leaves ++ constraintLeaves constraint

def constraintLeaves : Option JoinConstraint → List Leaf
  | none => []
  | some (.condition condition) => condition.leaves
  | some (.columns names) => nameLeaves names

end

/-! ## Blank expressions and queries -/

mutual

def Expr.blank : Expr → Expr
  | .literal value => .literal value.blank
  | .column reference => .column reference.blank
  | .unary op operand => .unary op operand.blank
  | .binary op left right => .binary op left.blank right.blank
  | .nullTest test operand => .nullTest test operand.blank
  | .collate operand _ => .collate operand.blank ""
  | .pattern op negated subject against escape =>
    .pattern op negated subject.blank against.blank (blankOption escape)
  | .between negated subject low high => .between negated subject.blank low.blank high.blank
  | .inList negated subject items => .inList negated subject.blank (blankList items)
  | .inSelect negated subject query => .inSelect negated subject.blank query.blank
  | .existsRow negated query => .existsRow negated query.blank
  | .subquery query => .subquery query.blank
  | .call function distinct arguments => .call function.blank distinct (blankList arguments)
  | .callStar function distinct => .callStar function.blank distinct
  | .caseWhen operand branches otherwise =>
    .caseWhen (blankOption operand) (blankBranches branches) (blankOption otherwise)
  | .cast operand typeName => .cast operand.blank typeName
  | .row items => .row (blankList items)
  | .raise action => .raise action.blank

def blankList : List Expr → List Expr
  | [] => []
  | e :: rest => e.blank :: blankList rest

def blankOption : Option Expr → Option Expr
  | none => none
  | some e => some e.blank

def blankBranches : List (Expr × Expr) → List (Expr × Expr)
  | [] => []
  | (condition, result) :: rest => (condition.blank, result.blank) :: blankBranches rest

def blankRows : List (List Expr) → List (List Expr)
  | [] => []
  | row :: rest => blankList row :: blankRows rest

def Select.blank : Select → Select
  | ⟨withClause, body, compounds, orderBy, limit, offset⟩ =>
    ⟨blankWith withClause, body.blank, blankCompounds compounds, blankTerms orderBy,
      blankOption limit, blankOption offset⟩

def blankWith : Option WithClause → Option WithClause
  | none => none
  | some ⟨recursive, tables⟩ => some ⟨recursive, blankTables tables⟩

def blankTables : List CommonTable → List CommonTable
  | [] => []
  | ⟨_, columns, materialized, query⟩ :: rest =>
    ⟨"", noNames columns, materialized, query.blank⟩ :: blankTables rest

def SelectBody.blank : SelectBody → SelectBody
  | .core core => .core core.blank
  | .values rows => .values (blankRows rows)

def blankCompounds : List (SetOperator × SelectBody) → List (SetOperator × SelectBody)
  | [] => []
  | (op, body) :: rest => (op, body.blank) :: blankCompounds rest

def SelectCore.blank : SelectCore → SelectCore
  | ⟨distinct, columns, source, filter, groupBy, having⟩ =>
    ⟨distinct, blankColumns columns, blankSource source, blankOption filter, blankList groupBy,
      blankOption having⟩

def blankSource : Option FromTree → Option FromTree
  | none => none
  | some tree => some tree.blank

def blankColumns : List ResultColumn → List ResultColumn
  | [] => []
  | .star :: rest => .star :: blankColumns rest
  | .tableStar _ :: rest => .tableStar "" :: blankColumns rest
  | .expr value asName :: rest => .expr value.blank (noName asName) :: blankColumns rest

def blankTerms : List OrderingTerm → List OrderingTerm
  | [] => []
  | ⟨expr, collation, direction, nulls⟩ :: rest =>
    ⟨expr.blank, noName collation, direction, nulls⟩ :: blankTerms rest

def FromTree.blank : FromTree → FromTree
  | .table reference => .table reference.blank
  | .subquery query asName => .subquery query.blank (noName asName)
  | .function name arguments asName =>
    .function name.blank (blankList arguments) (noName asName)
  | .join left op right constraint =>
    .join left.blank op right.blank (blankConstraint constraint)

def blankConstraint : Option JoinConstraint → Option JoinConstraint
  | none => none
  | some (.condition condition) => some (.condition condition.blank)
  | some (.columns names) => some (.columns (noNames names))

end

end SqliteSyntax
