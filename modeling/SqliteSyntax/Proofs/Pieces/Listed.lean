import SqliteSyntax.Expr.Nested
import SqliteSyntax.Expr.Render

/-! # Lists of rendered parts

The text and the nested expressions of a list of parts are the texts and the expressions of its
members, one after another. -/
namespace SqliteSyntax
set_option autoImplicit false

/-! ## Text -/

theorem listPieces_eq (items : List Expr) : listPieces items = items.map Expr.bare := by
  induction items with
  | nil => rw [listPieces, List.map_nil]
  | cons e rest ih => rw [listPieces, List.map_cons, ih]

theorem optionPieces_eq (item : Option Expr) : optionPieces item = item.map Expr.bare := by
  cases item with
  | none => rw [optionPieces, Option.map_none]
  | some e => rw [optionPieces, Option.map_some]

theorem escapePieces_eq (item : Option Expr) :
    escapePieces item = item.map fun e => e.grouped .comparison e.bare := by
  cases item with
  | none => rw [escapePieces, Option.map_none]
  | some e => rw [escapePieces, Option.map_some]

/-- The text of one branch of a `CASE`. -/
def branchText (branch : Expr × Expr) : List Piece :=
  .space :: .fixed "WHEN" :: .space :: branch.1.bare ++
    .space :: .fixed "THEN" :: .space :: branch.2.bare

theorem branchPieces_eq (branches : List (Expr × Expr)) :
    branchPieces branches = branches.flatMap branchText := by
  induction branches with
  | nil => rw [branchPieces, List.flatMap_nil]
  | cons b rest ih => rw [branchPieces, List.flatMap_cons, ih, branchText]

theorem rowListPieces_eq (rows : List (List Expr)) :
    rowListPieces rows = rows.map fun row => row.map Expr.bare := by
  induction rows with
  | nil => rw [rowListPieces, List.map_nil]
  | cons row rest ih => rw [rowListPieces, List.map_cons, ih, listPieces_eq]

/-- The text of one common table. -/
def CommonTable.pieces (t : CommonTable) : List Piece :=
  .name t.name :: optionalNames t.columns ++ .space :: phrase (materializedWords t.materialized) ++
    .space :: parenthesized t.query.pieces

theorem tablePieces_eq (tables : List CommonTable) :
    tablePieces tables = tables.map CommonTable.pieces := by
  induction tables with
  | nil => rw [tablePieces, List.map_nil]
  | cons t rest ih =>
    obtain ⟨⟩ := t
    rw [tablePieces, List.map_cons, ih, CommonTable.pieces]

/-- The text of one further body, after its set operator. -/
def compoundText (compound : SetOperator × SelectBody) : List Piece :=
  .space :: Phrase.pieces compound.1 ++ .space :: compound.2.pieces

theorem compoundPieces_eq (compounds : List (SetOperator × SelectBody)) :
    compoundPieces compounds = compounds.flatMap compoundText := by
  induction compounds with
  | nil => rw [compoundPieces, List.flatMap_nil]
  | cons c rest ih => rw [compoundPieces, List.flatMap_cons, ih, compoundText]

theorem sourcePieces_eq (source : Option FromTree) :
    sourcePieces source = source.map FromTree.pieces := by
  cases source with
  | none => rw [sourcePieces, Option.map_none]
  | some t => rw [sourcePieces, Option.map_some]

/-- The text of one result column. -/
def ResultColumn.pieces : ResultColumn → List Piece
  | .star => [.fixed "*"]
  | .tableStar table => [.name table, .fixed ".", .fixed "*"]
  | .expr value asName => value.bare ++ asClause asName

theorem columnPieces_eq (columns : List ResultColumn) :
    columnPieces columns = columns.map ResultColumn.pieces := by
  induction columns with
  | nil => rw [columnPieces, List.map_nil]
  | cons c rest ih => cases c <;> rw [columnPieces, List.map_cons, ih, ResultColumn.pieces]

/-- The text of one ordering term. -/
def OrderingTerm.pieces (t : OrderingTerm) : List Piece :=
  collatedPieces t.expr t.expr.bare t.collation ++ Phrase.optional t.direction ++
    Phrase.optional t.nulls

theorem termPieces_eq (terms : List OrderingTerm) :
    termPieces terms = terms.map OrderingTerm.pieces := by
  induction terms with
  | nil => rw [termPieces, List.map_nil]
  | cons t rest ih =>
    obtain ⟨⟩ := t
    rw [termPieces, List.map_cons, ih, OrderingTerm.pieces]

/-! ## Nested expressions -/

theorem nestedInList_eq (items : List Expr) : nestedInList items = items.flatMap Expr.nested := by
  induction items with
  | nil => rw [nestedInList, List.flatMap_nil]
  | cons e rest ih => rw [nestedInList, List.flatMap_cons, ih]

theorem nestedInOption_eq (item : Option Expr) :
    nestedInOption item = item.toList.flatMap Expr.nested := by
  cases item with
  | none => rw [nestedInOption, Option.toList_none, List.flatMap_nil]
  | some e => rw [nestedInOption, Option.toList_some, List.flatMap_singleton]

theorem nestedInBranches_eq (branches : List (Expr × Expr)) :
    nestedInBranches branches = branches.flatMap fun b => b.1.nested ++ b.2.nested := by
  induction branches with
  | nil => rw [nestedInBranches, List.flatMap_nil]
  | cons b rest ih => rw [nestedInBranches, List.flatMap_cons, ih]

theorem nestedInRows_eq (rows : List (List Expr)) :
    nestedInRows rows = rows.flatMap fun row => row.flatMap Expr.nested := by
  induction rows with
  | nil => rw [nestedInRows, List.flatMap_nil]
  | cons row rest ih => rw [nestedInRows, List.flatMap_cons, ih, nestedInList_eq]

theorem nestedInTables_eq (tables : List CommonTable) :
    nestedInTables tables = tables.flatMap fun t => t.query.nested := by
  induction tables with
  | nil => rw [nestedInTables, List.flatMap_nil]
  | cons t rest ih =>
    obtain ⟨⟩ := t
    rw [nestedInTables, List.flatMap_cons, ih]

theorem nestedInCompounds_eq (compounds : List (SetOperator × SelectBody)) :
    nestedInCompounds compounds = compounds.flatMap fun c => c.2.nested := by
  induction compounds with
  | nil => rw [nestedInCompounds, List.flatMap_nil]
  | cons c rest ih => rw [nestedInCompounds, List.flatMap_cons, ih]

theorem nestedInTerms_eq (terms : List OrderingTerm) :
    nestedInTerms terms = terms.flatMap fun t => t.expr.nested := by
  induction terms with
  | nil => rw [nestedInTerms, List.flatMap_nil]
  | cons t rest ih =>
    obtain ⟨⟩ := t
    rw [nestedInTerms, List.flatMap_cons, ih]

theorem nestedInSource_eq (source : Option FromTree) :
    nestedInSource source = source.toList.flatMap FromTree.nested := by
  cases source with
  | none => rw [nestedInSource, Option.toList_none, List.flatMap_nil]
  | some t => rw [nestedInSource, Option.toList_some, List.flatMap_singleton]

end SqliteSyntax
