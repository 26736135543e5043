import SqliteSyntax.Expr.Basic

/-! # Text of expressions and queries

`Expr.bare` writes an expression without parentheses around it; `Expr.within` puts the parentheses
of precedence around it when its tier is below the one its position asks for. Nothing here can fail,
and equal values have equal text. -/
namespace SqliteSyntax
set_option autoImplicit false

/-! ## Parts without expressions -/

/-- A keyword phrase, after `NOT` if it is negated. -/
def negatable (negated : Bool) (words : List String) : List Piece :=
  phrase (if negated then "NOT" :: words else words)

def RaiseAction.pieces : RaiseAction → List Piece
  | .ignore => [.fixed "IGNORE"]
  | .rollback message => [.fixed "ROLLBACK", .fixed ",", .space, .text message]
  | .abort message => [.fixed "ABORT", .fixed ",", .space, .text message]
  | .fail message => [.fixed "FAIL", .fixed ",", .space, .text message]

/-- Words that stand before the query of a common table. -/
def materializedWords : Option Bool → List String
  | none => ["AS"]
  | some true => ["AS", "MATERIALIZED"]
  | some false => ["AS", "NOT", "MATERIALIZED"]

/-- A name list, or nothing for an empty one. -/
def optionalNames (names : List String) : List Piece :=
  if names.isEmpty then [] else nameList names

/-- Between the two sides of a join: a comma stands without a space before it. -/
def JoinOperator.pieces (op : JoinOperator) : List Piece :=
  match op.kind with
  | .comma => [.fixed ",", .space]
  | kind =>
    .space :: phrase (if op.natural then "NATURAL" :: Phrase.words kind else Phrase.words kind) ++
      [.space]

namespace FromTree

def isJoin : FromTree → Bool
  | .join .. => true
  | _ => false

end FromTree

/-! ## Putting rendered parts together -/

/-- Parentheses around the pieces of `e` when it binds looser than `tier`. -/
def Expr.grouped (e : Expr) (tier : Precedence) (ps : List Piece) : List Piece :=
  groupedIf (e.precedence < tier) ps

/-- A sign or `~` stands directly before its operand, and a sign is kept apart from a second one by
parentheses; `NOT` has a space. -/
def UnaryOp.pieces (op : UnaryOp) (operand : List Piece) : List Piece :=
  match op with
  | .not => .fixed "NOT" :: .space :: operand
  | op =>
    Phrase.pieces op ++
      (if op.isSign && leadsWithSign operand then parenthesized operand else operand)

/-- A called function: its name and, in parentheses, its arguments. -/
def FunctionName.callPieces (f : FunctionName) (distinct : Bool) (arguments : List Piece) :
    List Piece :=
  f.pieces ++ parenthesized (onlyIf distinct [.fixed "DISTINCT", .space] ++ arguments)

/-- An expression with a collation after it, if there is one. The expression then stands before a
`COLLATE` of its own. -/
def collatedPieces (e : Expr) (bare : List Piece) (collation : Option String) : List Piece :=
  match collation with
  | none => bare
  | some name => e.grouped .collate bare ++ [.space, .fixed "COLLATE", .space, .name name]

/-- Ordering terms after `ORDER BY`, if there are any. -/
def orderByPieces (terms : List (List Piece)) : List Piece :=
  if terms.isEmpty then []
  else clause ["ORDER", "BY"] (some (commaSeparated terms))

/-- The rows of a `VALUES` list. -/
def rowsPieces (rows : List (List (List Piece))) : List Piece :=
  commaSeparated (rows.map fun row => parenthesized (commaSeparated row))

/-! ## The text of each type -/

mutual

/-- An expression without parentheses around it. -/
def Expr.bare : Expr → List Piece
  | .literal value => value.pieces
  | .column reference => reference.pieces
  | .unary op operand => op.pieces (operand.grouped op.precedence operand.bare)
  | .binary op left right =>
    left.grouped op.precedence left.bare ++ .space :: Phrase.pieces op ++ .space ::
      right.grouped op.rightTier right.bare
  | .nullTest test operand =>
    operand.grouped .equality operand.bare ++ .space :: Phrase.pieces test
  | .collate operand collation =>
    operand.grouped .collate operand.bare ++ [.space, .fixed "COLLATE", .space, .name collation]
  | .pattern op negated subject against escape =>
    subject.grouped .equality subject.bare ++ .space :: negatable negated (Phrase.words op) ++
      .space :: against.grouped .comparison against.bare ++
      clause ["ESCAPE"] (escapePieces escape)
  | .between negated subject low high =>
    subject.grouped .equality subject.bare ++ .space :: negatable negated ["BETWEEN"] ++
      .space :: low.grouped .comparison low.bare ++ .space :: .fixed "AND" ::
      .space :: high.grouped .comparison high.bare
  | .inList negated subject items =>
    subject.grouped .equality subject.bare ++ .space :: negatable negated ["IN"] ++
      .space :: parenthesized (commaSeparated (listPieces items))
  | .inSelect negated subject query =>
    subject.grouped .equality subject.bare ++ .space :: negatable negated ["IN"] ++
      .space :: parenthesized query.pieces
  | .existsRow negated query =>
    negatable negated ["EXISTS"] ++ .space :: parenthesized query.pieces
  | .subquery query => parenthesized query.pieces
  | .call function distinct arguments =>
    function.callPieces distinct (commaSeparated (listPieces arguments))
  | .callStar function distinct => function.callPieces distinct [.fixed "*"]
  | .caseWhen operand branches otherwise =>
    .fixed "CASE" :: spaced (optionPieces operand) ++ branchPieces branches ++
      clause ["ELSE"] (optionPieces otherwise) ++ [.space, .fixed "END"]
  | .cast operand typeName =>
    .fixed "CAST" :: parenthesized
      (operand.bare ++ [.space, .fixed "AS", .space, .verbatim typeName])
  | .row items => parenthesized (commaSeparated (listPieces items))
  | .raise action => .fixed "RAISE" :: parenthesized action.pieces

/-- The pieces of each expression of a list. -/
def listPieces : List Expr → List (List Piece)
  | [] => []
  | e :: rest => e.bare :: listPieces rest

/-- The pieces of an expression that may be absent. -/
def optionPieces : Option Expr → Option (List Piece)
  | none => none
  | some e => some e.bare

/-- An escape character is read like the pattern before it. -/
def escapePieces : Option Expr → Option (List Piece)
  | none => none
  | some e => some (e.grouped .comparison e.bare)

/-- The branches of a `CASE`. -/
def branchPieces : List (Expr × Expr) → List Piece
  | [] => []
  | (condition, result) :: rest =>
    .space :: .fixed "WHEN" :: .space :: condition.bare ++
      .space :: .fixed "THEN" :: .space :: result.bare ++ branchPieces rest

/-- The pieces of each row of a list. -/
def rowListPieces : List (List Expr) → List (List (List Piece))
  | [] => []
  | row :: rest => listPieces row :: rowListPieces rest

/-- A query: common tables, bodies with their operators, order, limit and offset. -/
def Select.pieces : Select → List Piece
  | ⟨withClause, body, compounds, orderBy, limit, offset⟩ =>
    withPieces withClause ++ body.pieces ++ compoundPieces compounds ++
      orderByPieces (termPieces orderBy) ++ clause ["LIMIT"] (optionPieces limit) ++
      clause ["OFFSET"] (optionPieces offset)

/-- Common tables and the space after them, if there are any. -/
def withPieces : Option WithClause → List Piece
  | none => []
  | some ⟨recursive, tables⟩ =>
    phrase (if recursive then ["WITH", "RECURSIVE"] else ["WITH"]) ++
      .space :: commaSeparated (tablePieces tables) ++ [.space]

/-- The pieces of each common table. -/
def tablePieces : List CommonTable → List (List Piece)
  | [] => []
  | ⟨name, columns, materialized, query⟩ :: rest =>
    (.name name :: optionalNames columns ++ .space :: phrase (materializedWords materialized) ++
      .space :: parenthesized query.pieces) :: tablePieces rest

def SelectBody.pieces : SelectBody → List Piece
  | .core core => core.pieces
  | .values rows => .fixed "VALUES" :: .space :: rowsPieces (rowListPieces rows)

/-- Each further body after its set operator. -/
def compoundPieces : List (SetOperator × SelectBody) → List Piece
  | [] => []
  | (op, body) :: rest =>
    .space :: Phrase.pieces op ++ .space :: body.pieces ++ compoundPieces rest

def SelectCore.pieces : SelectCore → List Piece
  | ⟨distinct, columns, source, filter, groupBy, having⟩ =>
    phrase (if distinct then ["SELECT", "DISTINCT"] else ["SELECT"]) ++
      .space :: (if columns.isEmpty then [.fixed "*"] else commaSeparated (columnPieces columns)) ++
      clause ["FROM"] (sourcePieces source) ++ clause ["WHERE"] (optionPieces filter) ++
      (if groupBy.isEmpty then []
        else clause ["GROUP", "BY"] (some (commaSeparated (listPieces groupBy)))) ++
      clause ["HAVING"] (optionPieces having)

/-- The pieces of a table tree that may be absent. -/
def sourcePieces : Option FromTree → Option (List Piece)
  | none => none
  | some tree => some tree.pieces

/-- The pieces of each result column. -/
def columnPieces : List ResultColumn → List (List Piece)
  | [] => []
  | .star :: rest => [.fixed "*"] :: columnPieces rest
  | .tableStar table :: rest => [.name table, .fixed ".", .fixed "*"] :: columnPieces rest
  | .expr value asName :: rest => (value.bare ++ asClause asName) :: columnPieces rest

/-- The pieces of each ordering term. -/
def termPieces : List OrderingTerm → List (List Piece)
  | [] => []
  | ⟨expr, collation, direction, nulls⟩ :: rest =>
    (collatedPieces expr expr.bare collation ++ Phrase.optional direction ++
      Phrase.optional nulls) :: termPieces rest

/-- A table tree. Joins nest to the left, so only a join on the right takes parentheses. -/
def FromTree.pieces : FromTree → List Piece
  | .table reference => reference.pieces
  | .subquery query asName => parenthesized query.pieces ++ asClause asName
  | .function name arguments asName =>
    name.pieces ++ parenthesized (commaSeparated (listPieces arguments)) ++ asClause asName
  | .join left op right constraint =>
    left.pieces ++ op.pieces ++
      (if right.isJoin then parenthesized right.pieces else right.pieces) ++
      constraintPieces constraint

/-- The constraint of a join with a space before it. -/
def constraintPieces : Option JoinConstraint → List Piece
  | none => []
  | some (.condition condition) => .space :: .fixed "ON" :: .space :: condition.bare
  | some (.columns names) => .space :: .fixed "USING" :: .space :: nameList names

end

/-! ## Text -/

namespace Expr

/-- An expression in a position that asks for a tier. -/
def within (e : Expr) (tier : Precedence) : List Piece := e.grouped tier e.bare

def sql (e : Expr) : String := textOf e.bare

end Expr

def Select.sql (q : Select) : String := textOf q.pieces

def FromTree.sql (tree : FromTree) : String := textOf tree.pieces

end SqliteSyntax
