import SqliteSyntax.Expr.Basic

/-! # Checked forms

Expressions and table trees that can be refused: an escape character on what is no pattern match, an
alias on a join, a join over no columns, a natural join of a kind that cannot be natural. -/
namespace SqliteSyntax
set_option autoImplicit false

/-- The list, unless it is empty. -/
def required {α : Type} (list : RequiredList) (items : List α) : Except Error (List α) :=
  if items.isEmpty then .error (.construction (.emptyList list)) else .ok items

/-- A pattern match takes one escape character, and nothing else takes any. -/
def Expr.withEscape (e escape : Expr) : Except Error Expr :=
  match e with
  | .pattern op negated subject against none =>
    .ok (.pattern op negated subject against (some escape))
  | .pattern _ _ _ _ (some _) => .error (.construction .secondEscape)
  | _ => .error (.construction .escapeWithoutPattern)

namespace FromTree

/-- The tree under another name, in place of any earlier one; a join has no name. -/
def named (tree : FromTree) (asName : String) : Except Error FromTree :=
  match tree with
  | .table reference => .ok (.table (reference.named asName))
  | .subquery query _ => .ok (.subquery query (some asName))
  | .function name arguments _ => .ok (.function name arguments (some asName))
  | .join .. => .error (.construction .joinAlias)

/-- A join without a constraint. -/
def joined (kind : JoinKind) (left right : FromTree) : FromTree :=
  .join left ⟨false, kind⟩ right none

/-- A join on a condition. -/
def joinedOn (kind : JoinKind) (left right : FromTree) (condition : Expr) : FromTree :=
  .join left ⟨false, kind⟩ right (some (.condition condition))

/-- A join on columns that both sides have. -/
def joinedUsing (kind : JoinKind) (left right : FromTree) (columns : List String) :
    Except Error FromTree := do
  let columns ← required .usingColumns columns
  return .join left ⟨false, kind⟩ right (some (.columns columns))

/-- A join on all columns that both sides have. -/
def natural (kind : JoinKind) (left right : FromTree) : Except Error FromTree :=
  if kind.canBeNatural then .ok (.join left ⟨true, kind⟩ right none)
  else .error (.construction (.naturalJoin kind))

end FromTree
end SqliteSyntax
