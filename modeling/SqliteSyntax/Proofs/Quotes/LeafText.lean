import SqliteSyntax.Expr.Render
import SqliteSyntax.Proofs.Quotes.Contents

/-! # The text shows the contents

`leavesOf` picks out of a text what was neither fixed by the grammar nor a number. For expressions and
queries that is, in order, exactly what they carry: `Expr.leavesOf_bare`, `Select.leavesOf_pieces`. -/
namespace SqliteSyntax
set_option autoImplicit false

/-- The content that a piece shows, if the statement supplied it. -/
def Piece.leaf? : Piece → Option Leaf
  | .name content => some (.name content)
  | .text content => some (.text content)
  | .blob bytes => some (.blob bytes)
  | .verbatim content => some (.verbatim content)
  | .space | .fixed _ | .numeral _ | .groupOpen | .groupClose => none

/-- The contents that a text shows. -/
def leavesOf (ps : List Piece) : List Leaf := ps.filterMap Piece.leaf?

/-! ## Putting pieces together -/

@[simp] theorem leavesOf_nil : leavesOf [] = [] := rfl

@[simp] theorem leavesOf_append (a b : List Piece) :
    leavesOf (a ++ b) = leavesOf a ++ leavesOf b :=
  List.filterMap_append

@[simp] theorem leavesOf_space (ps : List Piece) : leavesOf (.space :: ps) = leavesOf ps := rfl

@[simp] theorem leavesOf_fixed (t : String) (ps : List Piece) :
    leavesOf (.fixed t :: ps) = leavesOf ps := rfl

@[simp] theorem leavesOf_numeral (t : String) (ps : List Piece) :
    leavesOf (.numeral t :: ps) = leavesOf ps := rfl

@[simp] theorem leavesOf_name (n : String) (ps : List Piece) :
    leavesOf (.name n :: ps) = .name n :: leavesOf ps := rfl

@[simp] theorem leavesOf_text (t : String) (ps : List Piece) :
    leavesOf (.text t :: ps) = .text t :: leavesOf ps := rfl

@[simp] theorem leavesOf_blob (b : List UInt8) (ps : List Piece) :
    leavesOf (.blob b :: ps) = .blob b :: leavesOf ps := rfl

@[simp] theorem leavesOf_verbatim (t : String) (ps : List Piece) :
    leavesOf (.verbatim t :: ps) = .verbatim t :: leavesOf ps := rfl

@[simp] theorem leavesOf_parenthesized (ps : List Piece) :
    leavesOf (parenthesized ps) = leavesOf ps := by
  simp [parenthesized]

@[simp] theorem leavesOf_groupedIf (needed : Bool) (ps : List Piece) :
    leavesOf (groupedIf needed ps) = leavesOf ps := by
  cases needed with
  | false => rfl
  | true =>
    have : leavesOf (ps ++ [.groupClose]) = leavesOf ps ++ [] := leavesOf_append ps _
    rwa [List.append_nil] at this

@[simp] theorem leavesOf_grouped (e : Expr) (tier : Precedence) (ps : List Piece) :
    leavesOf (e.grouped tier ps) = leavesOf ps :=
  leavesOf_groupedIf _ ps

theorem leavesOf_separated {separator : List Piece} (h : leavesOf separator = [])
    (parts : List (List Piece)) : leavesOf (separated separator parts) = parts.flatMap leavesOf := by
  induction parts with
  | nil => rfl
  | cons part rest ih =>
    cases rest with
    | nil => simp [separated]
    | cons next rest => simp [separated, h, ih]

@[simp] theorem leavesOf_commaSeparated (parts : List (List Piece)) :
    leavesOf (commaSeparated parts) = parts.flatMap leavesOf :=
  leavesOf_separated rfl parts

@[simp] theorem leavesOf_phrase (words : List String) : leavesOf (phrase words) = [] := by
  unfold phrase
  rw [leavesOf_separated rfl, List.flatMap_map]
  exact List.flatMap_eq_nil_iff.mpr fun _ _ => rfl

@[simp] theorem leavesOf_choice {α : Type} [Phrase α] (a : α) : leavesOf (Phrase.pieces a) = [] :=
  leavesOf_phrase _

@[simp] theorem leavesOf_spaced (part : Option (List Piece)) :
    leavesOf (spaced part) = part.toList.flatMap leavesOf := by
  cases part <;> simp [spaced]

@[simp] theorem leavesOf_optional {α : Type} [Phrase α] (a : Option α) :
    leavesOf (Phrase.optional a) = [] := by
  cases a <;> simp [Phrase.optional]

@[simp] theorem leavesOf_clause (words : List String) (body : Option (List Piece)) :
    leavesOf (clause words body) = body.toList.flatMap leavesOf := by
  cases body <;> simp [clause]

@[simp] theorem leavesOf_nameList (names : List String) :
    leavesOf (nameList names) = nameLeaves names := by
  rw [nameList, leavesOf_parenthesized, leavesOf_commaSeparated, List.flatMap_map, nameLeaves,
    List.map_eq_flatMap]
  rfl

@[simp] theorem leavesOf_asClause (asName : Option String) :
    leavesOf (asClause asName) = optionalName asName := by
  cases asName <;> simp [asClause, optionalName]

@[simp] theorem leavesOf_optionalNames (names : List String) :
    leavesOf (optionalNames names) = nameLeaves names := by
  cases names <;> simp [optionalNames, nameLeaves]

@[simp] theorem leavesOf_negatable (negated : Bool) (words : List String) :
    leavesOf (negatable negated words) = [] :=
  leavesOf_phrase _

@[simp] theorem leavesOf_joinOperator (op : JoinOperator) : leavesOf op.pieces = [] := by
  unfold JoinOperator.pieces
  split <;> simp

@[simp] theorem leavesOf_unary (op : UnaryOp) (ps : List Piece) :
    leavesOf (op.pieces ps) = leavesOf ps := by
  unfold UnaryOp.pieces
  split
  · simp
  · split <;> simp

theorem leavesOf_orderBy (terms : List (List Piece)) :
    leavesOf (orderByPieces terms) = terms.flatMap leavesOf := by
  cases terms <;> simp [orderByPieces]

theorem leavesOf_rows (rows : List (List (List Piece))) :
    leavesOf (rowsPieces rows) = rows.flatMap fun row => row.flatMap leavesOf := by
  simp [rowsPieces, List.flatMap_map]

theorem leavesOf_collated (e : Expr) (ps : List Piece) (collation : Option String) :
    leavesOf (collatedPieces e ps collation) = leavesOf ps ++ optionalName collation := by
  cases collation <;> simp [collatedPieces, optionalName]

/-! ## Names and literals -/

@[simp] theorem QualifiedName.leavesOf_pieces (n : QualifiedName) : leavesOf n.pieces = n.leaves := by
  obtain ⟨schema, name⟩ := n
  cases schema <;> rfl

@[simp] theorem ColumnRef.leavesOf_pieces (c : ColumnRef) : leavesOf c.pieces = c.leaves := by
  obtain ⟨qualifier, column⟩ := c
  rcases qualifier with _ | (t | _ | _)
  · rfl
  · simp [pieces, leaves, Qualifier.leaves]
  · rfl
  · rfl

@[simp] theorem TableRef.leavesOf_pieces (t : TableRef) : leavesOf t.pieces = t.leaves := by
  obtain ⟨name, asName, hint⟩ := t
  rcases hint with _ | (index | _) <;> simp [pieces, leaves, IndexHint.leaves, IndexHint.pieces]

@[simp] theorem Literal.leavesOf_pieces (value : Literal) : leavesOf value.pieces = value.leaves := by
  cases value with
  | boolean b => cases b <;> rfl
  | _ => rfl

@[simp] theorem FunctionName.leavesOf_callPieces (f : FunctionName) (distinct : Bool)
    (ps : List Piece) : leavesOf (f.callPieces distinct ps) = f.leaves ++ leavesOf ps := by
  cases f <;> cases distinct <;> simp [callPieces, pieces, leaves, onlyIf]

@[simp] theorem RaiseAction.leavesOf_pieces (action : RaiseAction) :
    leavesOf action.pieces = action.leaves := by
  cases action <;> rfl

/-! ## Expressions and queries -/

mutual

theorem Expr.leavesOf_bare : (e : Expr) → leavesOf e.bare = e.leaves
  | .literal value => by simp [Expr.bare, Expr.leaves]
  | .column reference => by simp [Expr.bare, Expr.leaves]
  | .unary op operand => by simp [Expr.bare, Expr.leaves, operand.leavesOf_bare]
  | .binary op left right => by
    simp [Expr.bare, Expr.leaves, left.leavesOf_bare, right.leavesOf_bare]
  | .nullTest test operand => by simp [Expr.bare, Expr.leaves, operand.leavesOf_bare]
  | .collate operand collation => by simp [Expr.bare, Expr.leaves, operand.leavesOf_bare]
  | .pattern op negated subject against escape => by
    simp [Expr.bare, Expr.leaves, subject.leavesOf_bare, against.leavesOf_bare,
      escapePieces_leaves escape]
  | .between negated subject low high => by
    simp [Expr.bare, Expr.leaves, subject.leavesOf_bare, low.leavesOf_bare, high.leavesOf_bare]
  | .inList negated subject items => by
    simp [Expr.bare, Expr.leaves, subject.leavesOf_bare, listPieces_leaves items]
  | .inSelect negated subject query => by
    simp [Expr.bare, Expr.leaves, subject.leavesOf_bare, query.leavesOf_pieces]
  | .existsRow negated query => by simp [Expr.bare, Expr.leaves, query.leavesOf_pieces]
  | .subquery query => by simp [Expr.bare, Expr.leaves, query.leavesOf_pieces]
  | .call function distinct arguments => by
    simp [Expr.bare, Expr.leaves, listPieces_leaves arguments]
  | .callStar function distinct => by simp [Expr.bare, Expr.leaves]
  | .caseWhen operand branches otherwise => by
    simp [Expr.bare, Expr.leaves, optionPieces_leaves operand, branchPieces_leaves branches,
      optionPieces_leaves otherwise]
  | .cast operand typeName => by simp [Expr.bare, Expr.leaves, operand.leavesOf_bare]
  | .row items => by simp [Expr.bare, Expr.leaves, listPieces_leaves items]
  | .raise action => by simp [Expr.bare, Expr.leaves]

theorem listPieces_leaves : (items : List Expr) →
    (listPieces items).flatMap leavesOf = listLeaves items
  | [] => rfl
  | e :: rest => by simp [listPieces, listLeaves, e.leavesOf_bare, listPieces_leaves rest]

theorem optionPieces_leaves : (item : Option Expr) →
    (optionPieces item).toList.flatMap leavesOf = optionLeaves item
  | none => rfl
  | some e => by simp [optionPieces, optionLeaves, e.leavesOf_bare]

theorem escapePieces_leaves : (item : Option Expr) →
    (escapePieces item).toList.flatMap leavesOf = optionLeaves item
  | none => rfl
  | some e => by simp [escapePieces, optionLeaves, e.leavesOf_bare]

theorem branchPieces_leaves : (branches : List (Expr × Expr)) →
    leavesOf (branchPieces branches) = branchLeaves branches
  | [] => rfl
  | (condition, result) :: rest => by
    simp [branchPieces, branchLeaves, condition.leavesOf_bare, result.leavesOf_bare,
      branchPieces_leaves rest]

theorem rowListPieces_leaves : (rows : List (List Expr)) →
    (rowListPieces rows).flatMap (fun row => row.flatMap leavesOf) = rowLeaves rows
  | [] => rfl
  | row :: rest => by
    simp [rowListPieces, rowLeaves, listPieces_leaves row, rowListPieces_leaves rest]

theorem Select.leavesOf_pieces : (q : Select) → leavesOf q.pieces = q.leaves
  | ⟨withClause, body, compounds, orderBy, limit, offset⟩ => by
    simp [Select.pieces, Select.leaves, withPieces_leaves withClause, body.leavesOf_pieces,
      compoundPieces_leaves compounds, leavesOf_orderBy, termPieces_leaves orderBy,
      optionPieces_leaves limit, optionPieces_leaves offset]

theorem withPieces_leaves : (withClause : Option WithClause) →
    leavesOf (withPieces withClause) = withLeaves withClause
  | none => rfl
  | some ⟨recursive, tables⟩ => by
    simp [withPieces, withLeaves, tablePieces_leaves tables]

theorem tablePieces_leaves : (tables : List CommonTable) →
    (tablePieces tables).flatMap leavesOf = tableLeaves tables
  | [] => rfl
  | ⟨name, columns, materialized, query⟩ :: rest => by
    simp [tablePieces, tableLeaves, query.leavesOf_pieces, tablePieces_leaves rest]

theorem SelectBody.leavesOf_pieces : (body : SelectBody) → leavesOf body.pieces = body.leaves
  | .core core => by simp [SelectBody.pieces, SelectBody.leaves, core.leavesOf_pieces]
  | .values rows => by
    simp [SelectBody.pieces, SelectBody.leaves, leavesOf_rows, rowListPieces_leaves rows]

theorem compoundPieces_leaves : (compounds : List (SetOperator × SelectBody)) →
    leavesOf (compoundPieces compounds) = compoundLeaves compounds
  | [] => rfl
  | (op, body) :: rest => by
    simp [compoundPieces, compoundLeaves, body.leavesOf_pieces, compoundPieces_leaves rest]

theorem SelectCore.leavesOf_pieces : (core : SelectCore) → leavesOf core.pieces = core.leaves
  | ⟨distinct, columns, source, filter, groupBy, having⟩ => by
    have columns : leavesOf (if columns.isEmpty then [.fixed "*"]
        else commaSeparated (columnPieces columns)) = columnLeaves columns := by
      split
      · next h =>
        rw [List.isEmpty_iff.mp h]
        rfl
      · rw [leavesOf_commaSeparated, columnPieces_leaves columns]
    have groups : leavesOf (if groupBy.isEmpty then []
        else clause ["GROUP", "BY"] (some (commaSeparated (listPieces groupBy)))) =
        listLeaves groupBy := by
      split
      · next h =>
        rw [List.isEmpty_iff.mp h]
        rfl
      · simp [listPieces_leaves groupBy]
    rw [SelectCore.pieces, SelectCore.leaves, leavesOf_append, leavesOf_append, leavesOf_append,
      leavesOf_append, leavesOf_append, leavesOf_space, columns, groups, leavesOf_phrase,
      leavesOf_clause, leavesOf_clause, leavesOf_clause, sourcePieces_leaves source,
      optionPieces_leaves filter, optionPieces_leaves having, List.nil_append]

theorem sourcePieces_leaves : (source : Option FromTree) →
    (sourcePieces source).toList.flatMap leavesOf = sourceLeaves source
  | none => rfl
  | some tree => by simp [sourcePieces, sourceLeaves, tree.leavesOf_pieces]

theorem columnPieces_leaves : (columns : List ResultColumn) →
    (columnPieces columns).flatMap leavesOf = columnLeaves columns
  | [] => rfl
  | .star :: rest => by simp [columnPieces, columnLeaves, columnPieces_leaves rest]
  | .tableStar table :: rest => by simp [columnPieces, columnLeaves, columnPieces_leaves rest]
  | .expr value asName :: rest => by
    simp [columnPieces, columnLeaves, value.leavesOf_bare, columnPieces_leaves rest]

theorem termPieces_leaves : (terms : List OrderingTerm) →
    (termPieces terms).flatMap leavesOf = termLeaves terms
  | [] => rfl
  | ⟨expr, collation, direction, nulls⟩ :: rest => by
    simp [termPieces, termLeaves, leavesOf_collated, expr.leavesOf_bare, termPieces_leaves rest]

theorem FromTree.leavesOf_pieces : (tree : FromTree) → leavesOf tree.pieces = tree.leaves
  | .table reference => by simp [FromTree.pieces, FromTree.leaves]
  | .subquery query asName => by simp [FromTree.pieces, FromTree.leaves, query.leavesOf_pieces]
  | .function name arguments asName => by
    simp [FromTree.pieces, FromTree.leaves, listPieces_leaves arguments]
  | .join left op right constraint => by
    have right : leavesOf (if right.isJoin then parenthesized right.pieces else right.pieces) =
        right.leaves := by
      split <;> simp [right.leavesOf_pieces]
    rw [FromTree.pieces, FromTree.leaves, leavesOf_append, leavesOf_append, leavesOf_append, right,
      leavesOf_joinOperator, left.leavesOf_pieces, constraintPieces_leaves constraint,
      List.append_nil]

theorem constraintPieces_leaves : (constraint : Option JoinConstraint) →
    leavesOf (constraintPieces constraint) = constraintLeaves constraint
  | none => rfl
  | some (.condition condition) => by
    simp [constraintPieces, constraintLeaves, condition.leavesOf_bare]
  | some (.columns names) => by simp [constraintPieces, constraintLeaves]

end

end SqliteSyntax
