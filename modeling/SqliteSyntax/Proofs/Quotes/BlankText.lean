import SqliteSyntax.Expr.Render
import SqliteSyntax.Proofs.Quotes.Contents

/-! # The text of a blank tree

Emptying the contents of an expression or a query and then writing it gives the same pieces as writing
it and then emptying the pieces: `Expr.bare_blank`, `Select.pieces_blank`. The contents thus decide
nothing about what stands around them, parentheses included. -/
namespace SqliteSyntax
set_option autoImplicit false

/-- A piece without its content. -/
def Piece.blank : Piece → Piece
  | .name _ => .name ""
  | .text _ => .text ""
  | .blob _ => .blob []
  | p => p

/-- A text with every content emptied. -/
def blankText (ps : List Piece) : List Piece := ps.map Piece.blank

/-! ## Putting pieces together -/

@[simp] theorem blankText_nil : blankText [] = [] := rfl

@[simp] theorem blankText_append (a b : List Piece) :
    blankText (a ++ b) = blankText a ++ blankText b :=
  List.map_append

@[simp] theorem blankText_cons (p : Piece) (ps : List Piece) :
    blankText (p :: ps) = p.blank :: blankText ps := rfl

@[simp] theorem blankText_parenthesized (ps : List Piece) :
    blankText (parenthesized ps) = parenthesized (blankText ps) := by
  simp [parenthesized, Piece.blank]

@[simp] theorem blankText_groupedIf (needed : Bool) (ps : List Piece) :
    blankText (groupedIf needed ps) = groupedIf needed (blankText ps) := by
  cases needed <;> simp [groupedIf, Piece.blank]

theorem blankText_separated {separator : List Piece} (h : blankText separator = separator)
    (parts : List (List Piece)) :
    blankText (separated separator parts) = separated separator (parts.map blankText) := by
  induction parts with
  | nil => rfl
  | cons part rest ih =>
    cases rest with
    | nil => rfl
    | cons next rest => simp only [separated, blankText_append, h, ih, List.map_cons]

@[simp] theorem blankText_commaSeparated (parts : List (List Piece)) :
    blankText (commaSeparated parts) = commaSeparated (parts.map blankText) :=
  blankText_separated rfl parts

@[simp] theorem blankText_phrase (words : List String) : blankText (phrase words) = phrase words := by
  unfold phrase
  rw [blankText_separated rfl, List.map_map]
  rfl

@[simp] theorem blankText_choice {α : Type} [Phrase α] (a : α) :
    blankText (Phrase.pieces a) = Phrase.pieces a :=
  blankText_phrase _

@[simp] theorem blankText_spaced (part : Option (List Piece)) :
    blankText (spaced part) = spaced (part.map blankText) := by
  cases part <;> simp [spaced, Piece.blank]

@[simp] theorem blankText_optional {α : Type} [Phrase α] (a : Option α) :
    blankText (Phrase.optional a) = Phrase.optional a := by
  cases a <;> simp [Phrase.optional]

@[simp] theorem blankText_clause (words : List String) (body : Option (List Piece)) :
    blankText (clause words body) = clause words (body.map blankText) := by
  cases body <;> simp [clause, Piece.blank]

@[simp] theorem blankText_nameList (names : List String) :
    blankText (nameList names) = nameList (noNames names) := by
  simp only [nameList, blankText_parenthesized, blankText_commaSeparated, noNames, List.map_map]
  rfl

@[simp] theorem blankText_asClause (asName : Option String) :
    blankText (asClause asName) = asClause (noName asName) := by
  cases asName <;> simp [asClause, noName, Piece.blank]

@[simp] theorem blankText_optionalNames (names : List String) :
    blankText (optionalNames names) = optionalNames (noNames names) := by
  cases names with
  | nil => rfl
  | cons n rest => exact blankText_nameList (n :: rest)

@[simp] theorem blankText_negatable (negated : Bool) (words : List String) :
    blankText (negatable negated words) = negatable negated words :=
  blankText_phrase _

@[simp] theorem blankText_joinOperator (op : JoinOperator) : blankText op.pieces = op.pieces := by
  unfold JoinOperator.pieces
  split <;> simp [Piece.blank]

/-- A piece begins with the same character when its content is emptied. -/
theorem Piece.head?_chars_blank (p : Piece) : p.blank.chars.head? = p.chars.head? := by
  cases p <;> rfl

theorem head?_charsOf_blankText (ps : List Piece) :
    (charsOf (blankText ps)).head? = (charsOf ps).head? := by
  induction ps with
  | nil => rfl
  | cons p rest ih =>
    rw [blankText_cons, charsOf_cons, charsOf_cons, List.head?_append, List.head?_append, ih,
      p.head?_chars_blank]

@[simp] theorem leadsWithSign_blankText (ps : List Piece) :
    leadsWithSign (blankText ps) = leadsWithSign ps := by
  have head : ∀ qs : List Piece, leadsWithSign qs =
      (charsOf qs).head?.any fun c => c == '-' || c == '+' := by
    intro qs
    unfold leadsWithSign
    cases charsOf qs <;> rfl
  rw [head, head, head?_charsOf_blankText]

@[simp] theorem blankText_unary (op : UnaryOp) (ps : List Piece) :
    blankText (op.pieces ps) = op.pieces (blankText ps) := by
  unfold UnaryOp.pieces
  split
  · simp [Piece.blank]
  · rw [leadsWithSign_blankText]
    split <;> simp

@[simp] theorem blankText_orderBy (terms : List (List Piece)) :
    blankText (orderByPieces terms) = orderByPieces (terms.map blankText) := by
  cases terms <;> simp [orderByPieces]

@[simp] theorem blankText_rows (rows : List (List (List Piece))) :
    blankText (rowsPieces rows) = rowsPieces (rows.map fun row => row.map blankText) := by
  simp [rowsPieces, Function.comp_def]

/-! ## Names and literals -/

@[simp] theorem QualifiedName.pieces_blank (n : QualifiedName) :
    blankText n.pieces = n.blank.pieces := by
  obtain ⟨schema, name⟩ := n
  cases schema <;> rfl

@[simp] theorem ColumnRef.pieces_blank (c : ColumnRef) : blankText c.pieces = c.blank.pieces := by
  obtain ⟨qualifier, column⟩ := c
  rcases qualifier with _ | (t | _ | _)
  · rfl
  · simp [pieces, blank, Qualifier.blank, Piece.blank]
  · rfl
  · rfl

@[simp] theorem TableRef.pieces_blank (t : TableRef) : blankText t.pieces = t.blank.pieces := by
  obtain ⟨name, asName, hint⟩ := t
  rcases hint with _ | (index | _) <;>
    simp [pieces, blank, IndexHint.blank, IndexHint.pieces, Piece.blank]

@[simp] theorem Literal.pieces_blank (value : Literal) :
    blankText value.pieces = value.blank.pieces := by
  cases value with
  | boolean b => cases b <;> rfl
  | _ => rfl

theorem Literal.isNegativeNumber_blank (value : Literal) :
    value.blank.isNegativeNumber = value.isNegativeNumber := by
  cases value <;> rfl

@[simp] theorem FunctionName.callPieces_blank (f : FunctionName) (distinct : Bool)
    (ps : List Piece) :
    blankText (f.callPieces distinct ps) = f.blank.callPieces distinct (blankText ps) := by
  cases f <;> cases distinct <;> simp [callPieces, pieces, blank, onlyIf, Piece.blank]

@[simp] theorem RaiseAction.pieces_blank (action : RaiseAction) :
    blankText action.pieces = action.blank.pieces := by
  cases action <;> rfl

/-! ## Expressions and queries -/

@[simp] theorem Expr.precedence_blank (e : Expr) : e.blank.precedence = e.precedence := by
  cases e with
  | literal value => simp [Expr.blank, precedence, Literal.isNegativeNumber_blank]
  | _ => rfl

theorem Expr.grouped_blank (e : Expr) (tier : Precedence) (ps : List Piece) :
    blankText (e.grouped tier ps) = e.blank.grouped tier (blankText ps) := by
  simp [grouped]

theorem collatedPieces_blank (e : Expr) (ps : List Piece) (collation : Option String) :
    blankText (collatedPieces e ps collation) =
      collatedPieces e.blank (blankText ps) (noName collation) := by
  cases collation <;> simp [collatedPieces, noName, Expr.grouped_blank, Piece.blank]

theorem FromTree.isJoin_blank (tree : FromTree) : tree.blank.isJoin = tree.isJoin := by
  cases tree <;> rfl

mutual

theorem Expr.bare_blank : (e : Expr) → blankText e.bare = e.blank.bare
  | .literal value => by simp [Expr.bare, Expr.blank]
  | .column reference => by simp [Expr.bare, Expr.blank]
  | .unary op operand => by
    simp [Expr.bare, Expr.blank, Expr.grouped_blank, operand.bare_blank]
  | .binary op left right => by
    simp [Expr.bare, Expr.blank, Expr.grouped_blank, left.bare_blank, right.bare_blank, Piece.blank]
  | .nullTest test operand => by
    simp [Expr.bare, Expr.blank, Expr.grouped_blank, operand.bare_blank, Piece.blank]
  | .collate operand collation => by
    simp [Expr.bare, Expr.blank, Expr.grouped_blank, operand.bare_blank, Piece.blank]
  | .pattern op negated subject against escape => by
    simp [Expr.bare, Expr.blank, Expr.grouped_blank, subject.bare_blank, against.bare_blank,
      escapePieces_blank escape, Piece.blank]
  | .between negated subject low high => by
    simp [Expr.bare, Expr.blank, Expr.grouped_blank, subject.bare_blank, low.bare_blank,
      high.bare_blank, Piece.blank]
  | .inList negated subject items => by
    simp [Expr.bare, Expr.blank, Expr.grouped_blank, subject.bare_blank, listPieces_blank items,
      Piece.blank]
  | .inSelect negated subject query => by
    simp [Expr.bare, Expr.blank, Expr.grouped_blank, subject.bare_blank, query.pieces_blank,
      Piece.blank]
  | .existsRow negated query => by
    simp [Expr.bare, Expr.blank, query.pieces_blank, Piece.blank]
  | .subquery query => by simp [Expr.bare, Expr.blank, query.pieces_blank]
  | .call function distinct arguments => by
    simp [Expr.bare, Expr.blank, listPieces_blank arguments]
  | .callStar function distinct => by simp [Expr.bare, Expr.blank, Piece.blank]
  | .caseWhen operand branches otherwise => by
    simp [Expr.bare, Expr.blank, optionPieces_blank operand, branchPieces_blank branches,
      optionPieces_blank otherwise, Piece.blank]
  | .cast operand typeName => by
    simp [Expr.bare, Expr.blank, operand.bare_blank, Piece.blank]
  | .row items => by simp [Expr.bare, Expr.blank, listPieces_blank items]
  | .raise action => by simp [Expr.bare, Expr.blank, Piece.blank]

theorem listPieces_blank : (items : List Expr) →
    (listPieces items).map blankText = listPieces (blankList items)
  | [] => rfl
  | e :: rest => by simp [listPieces, blankList, e.bare_blank, listPieces_blank rest]

theorem optionPieces_blank : (item : Option Expr) →
    (optionPieces item).map blankText = optionPieces (blankOption item)
  | none => rfl
  | some e => by simp [optionPieces, blankOption, e.bare_blank]

theorem escapePieces_blank : (item : Option Expr) →
    (escapePieces item).map blankText = escapePieces (blankOption item)
  | none => rfl
  | some e => by simp [escapePieces, blankOption, Expr.grouped_blank, e.bare_blank]

theorem branchPieces_blank : (branches : List (Expr × Expr)) →
    blankText (branchPieces branches) = branchPieces (blankBranches branches)
  | [] => rfl
  | (condition, result) :: rest => by
    simp [branchPieces, blankBranches, condition.bare_blank, result.bare_blank,
      branchPieces_blank rest, Piece.blank]

theorem rowListPieces_blank : (rows : List (List Expr)) →
    (rowListPieces rows).map (fun row => row.map blankText) = rowListPieces (blankRows rows)
  | [] => rfl
  | row :: rest => by
    simp [rowListPieces, blankRows, listPieces_blank row, rowListPieces_blank rest]

theorem Select.pieces_blank : (q : Select) → blankText q.pieces = q.blank.pieces
  | ⟨withClause, body, compounds, orderBy, limit, offset⟩ => by
    simp [Select.pieces, Select.blank, withPieces_blank withClause, body.pieces_blank,
      compoundPieces_blank compounds, termPieces_blank orderBy, optionPieces_blank limit,
      optionPieces_blank offset]

theorem withPieces_blank : (withClause : Option WithClause) →
    blankText (withPieces withClause) = withPieces (blankWith withClause)
  | none => rfl
  | some ⟨recursive, tables⟩ => by
    simp [withPieces, blankWith, tablePieces_blank tables, Piece.blank]

theorem tablePieces_blank : (tables : List CommonTable) →
    (tablePieces tables).map blankText = tablePieces (blankTables tables)
  | [] => rfl
  | ⟨name, columns, materialized, query⟩ :: rest => by
    simp [tablePieces, blankTables, query.pieces_blank, tablePieces_blank rest, Piece.blank]

theorem SelectBody.pieces_blank : (body : SelectBody) → blankText body.pieces = body.blank.pieces
  | .core core => by simp [SelectBody.pieces, SelectBody.blank, core.pieces_blank]
  | .values rows => by
    simp [SelectBody.pieces, SelectBody.blank, rowListPieces_blank rows, Piece.blank]

theorem compoundPieces_blank : (compounds : List (SetOperator × SelectBody)) →
    blankText (compoundPieces compounds) = compoundPieces (blankCompounds compounds)
  | [] => rfl
  | (op, body) :: rest => by
    simp [compoundPieces, blankCompounds, body.pieces_blank, compoundPieces_blank rest, Piece.blank]

theorem SelectCore.pieces_blank : (core : SelectCore) → blankText core.pieces = core.blank.pieces
  | ⟨distinct, columns, source, filter, groupBy, having⟩ => by
    have columns : blankText (if columns.isEmpty then [.fixed "*"]
        else commaSeparated (columnPieces columns)) =
        (if (blankColumns columns).isEmpty then [.fixed "*"]
          else commaSeparated (columnPieces (blankColumns columns))) := by
      have heq := columnPieces_blank columns
      rcases columns with _ | ⟨c, rest⟩
      · rfl
      · have hne : (blankColumns (c :: rest)).isEmpty = false := by cases c <;> rfl
        rw [hne, ← heq]
        simp
    have groups : blankText (if groupBy.isEmpty then []
        else clause ["GROUP", "BY"] (some (commaSeparated (listPieces groupBy)))) =
        (if (blankList groupBy).isEmpty then []
          else clause ["GROUP", "BY"] (some (commaSeparated (listPieces (blankList groupBy))))) := by
      have heq := listPieces_blank groupBy
      rcases groupBy with _ | ⟨e, rest⟩
      · rfl
      · have hne : (blankList (e :: rest)).isEmpty = false := rfl
        rw [hne, ← heq]
        simp
    rw [SelectCore.pieces, SelectCore.blank, SelectCore.pieces, blankText_append, blankText_append,
      blankText_append, blankText_append, blankText_append, blankText_cons, columns, groups,
      blankText_phrase, blankText_clause, blankText_clause, blankText_clause,
      sourcePieces_blank source, optionPieces_blank filter, optionPieces_blank having]
    rfl

theorem sourcePieces_blank : (source : Option FromTree) →
    (sourcePieces source).map blankText = sourcePieces (blankSource source)
  | none => rfl
  | some tree => by simp [sourcePieces, blankSource, tree.pieces_blank]

theorem columnPieces_blank : (columns : List ResultColumn) →
    (columnPieces columns).map blankText = columnPieces (blankColumns columns)
  | [] => rfl
  | .star :: rest => by simp [columnPieces, blankColumns, columnPieces_blank rest, Piece.blank]
  | .tableStar table :: rest => by
    simp [columnPieces, blankColumns, columnPieces_blank rest, Piece.blank]
  | .expr value asName :: rest => by
    simp [columnPieces, blankColumns, value.bare_blank, columnPieces_blank rest]

theorem termPieces_blank : (terms : List OrderingTerm) →
    (termPieces terms).map blankText = termPieces (blankTerms terms)
  | [] => rfl
  | ⟨expr, collation, direction, nulls⟩ :: rest => by
    simp [termPieces, blankTerms, collatedPieces_blank, expr.bare_blank, termPieces_blank rest]

theorem FromTree.pieces_blank : (tree : FromTree) → blankText tree.pieces = tree.blank.pieces
  | .table reference => by simp [FromTree.pieces, FromTree.blank]
  | .subquery query asName => by simp [FromTree.pieces, FromTree.blank, query.pieces_blank]
  | .function name arguments asName => by
    simp [FromTree.pieces, FromTree.blank, listPieces_blank arguments]
  | .join left op right constraint => by
    have hright : blankText (if right.isJoin then parenthesized right.pieces else right.pieces) =
        (if right.blank.isJoin then parenthesized right.blank.pieces else right.blank.pieces) := by
      rw [right.isJoin_blank, ← right.pieces_blank]
      split <;> simp
    rw [FromTree.pieces, FromTree.blank, FromTree.pieces, blankText_append, blankText_append,
      blankText_append, hright, blankText_joinOperator, left.pieces_blank,
      constraintPieces_blank constraint]

theorem constraintPieces_blank : (constraint : Option JoinConstraint) →
    blankText (constraintPieces constraint) = constraintPieces (blankConstraint constraint)
  | none => rfl
  | some (.condition condition) => by
    simp [constraintPieces, blankConstraint, condition.bare_blank, Piece.blank]
  | some (.columns names) => by simp [constraintPieces, blankConstraint, Piece.blank]

end

end SqliteSyntax
