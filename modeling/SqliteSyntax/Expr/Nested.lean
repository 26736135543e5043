import SqliteSyntax.Expr.Basic

/-! # Nested expressions

All expressions inside an expression, a query or a table tree, each before those inside it and in
the order of the text, except that the condition of a join comes after both sides. A search asks a
predicate about them in this order and ends at the first yes. -/
namespace SqliteSyntax
set_option autoImplicit false

mutual

/-- The expression itself and all expressions inside it. -/
def Expr.nested : Expr → List Expr
  | .literal value => [.literal value]
  | .column reference => [.column reference]
  | .unary op operand => .unary op operand :: operand.nested
  | .binary op left right => .binary op left right :: left.nested ++ right.nested
  | .nullTest test operand => .nullTest test operand :: operand.nested
  | .collate operand collation => .collate operand collation :: operand.nested
  | .pattern op negated subject against escape =>
    .pattern op negated subject against escape ::
      subject.nested ++ against.nested ++ nestedInOption escape
  | .between negated subject low high =>
    .between negated subject low high :: subject.nested ++ low.nested ++ high.nested
  | .inList negated subject items =>
    .inList negated subject items :: subject.nested ++ nestedInList items
  | .inSelect negated subject query =>
    .inSelect negated subject query :: subject.nested ++ query.nested
  | .existsRow negated query => .existsRow negated query :: query.nested
  | .subquery query => .subquery query :: query.nested
  | .call function distinct arguments =>
    .call function distinct arguments :: nestedInList arguments
  | .callStar function distinct => [.callStar function distinct]
  | .caseWhen operand branches otherwise =>
    .caseWhen operand branches otherwise ::
      nestedInOption operand ++ nestedInBranches branches ++ nestedInOption otherwise
  | .cast operand typeName => .cast operand typeName :: operand.nested
  | .row items => .row items :: nestedInList items
  | .raise action => [.raise action]

def nestedInList : List Expr → List Expr
  | [] => []
  | e :: rest => e.nested ++ nestedInList rest

def nestedInOption : Option Expr → List Expr
  | none => []
  | some e => e.nested

def nestedInBranches : List (Expr × Expr) → List Expr
  | [] => []
  | (condition, result) :: rest => condition.nested ++ result.nested ++ nestedInBranches rest

def nestedInRows : List (List Expr) → List Expr
  | [] => []
  | row :: rest => nestedInList row ++ nestedInRows rest

/-- All expressions inside a query. -/
def Select.nested : Select → List Expr
  | ⟨withClause, body, compounds, orderBy, limit, offset⟩ =>
    nestedInWith withClause ++ body.nested ++ nestedInCompounds compounds ++
      nestedInTerms orderBy ++ nestedInOption limit ++ nestedInOption offset

def nestedInWith : Option WithClause → List Expr
  | none => []
  | some ⟨_, tables⟩ => nestedInTables tables

def nestedInTables : List CommonTable → List Expr
  | [] => []
  | ⟨_, _, _, query⟩ :: rest => query.nested ++ nestedInTables rest

def SelectBody.nested : SelectBody → List Expr
  | .core core => core.nested
  | .values rows => nestedInRows rows

def nestedInCompounds : List (SetOperator × SelectBody) → List Expr
  | [] => []
  | (_, body) :: rest => body.nested ++ nestedInCompounds rest

def SelectCore.nested : SelectCore → List Expr
  | ⟨_, columns, source, filter, groupBy, having⟩ =>
    nestedInColumns columns ++ nestedInSource source ++ nestedInOption filter ++
      nestedInList groupBy ++ nestedInOption having

def nestedInSource : Option FromTree → List Expr
  | none => []
  | some tree => tree.nested

def nestedInColumns : List ResultColumn → List Expr
  | [] => []
  | .expr value _ :: rest => value.nested ++ nestedInColumns rest
  | .star :: rest => nestedInColumns rest
  | .tableStar _ :: rest => nestedInColumns rest

def nestedInTerms : List OrderingTerm → List Expr
  | [] => []
  | ⟨expr, _, _, _⟩ :: rest => expr.nested ++ nestedInTerms rest

/-- All expressions inside a table tree. -/
def FromTree.nested : FromTree → List Expr
  | .table _ => []
  | .subquery query _ => query.nested
  | .function _ arguments _ => nestedInList arguments
  | .join left _ right constraint => left.nested ++ right.nested ++ nestedInConstraint constraint

def nestedInConstraint : Option JoinConstraint → List Expr
  | none => []
  | some (.condition condition) => condition.nested
  | some (.columns _) => []

end

/-! ## Searching -/

section Search
variable {m : Type → Type} [Monad m] (p : Expr → m Bool)

mutual

/-- Whether the predicate says yes to the expression or to one inside it. The predicate may keep a
memory of what it is asked, and after a yes it is asked no more. -/
def Expr.search : Expr → m Bool
  | .literal value => p (.literal value)
  | .column reference => p (.column reference)
  | .unary op operand => p (.unary op operand) <||> operand.search
  | .binary op left right => p (.binary op left right) <||> left.search <||> right.search
  | .nullTest test operand => p (.nullTest test operand) <||> operand.search
  | .collate operand collation => p (.collate operand collation) <||> operand.search
  | .pattern op negated subject against escape =>
    p (.pattern op negated subject against escape) <||> subject.search <||> against.search <||>
      searchOption escape
  | .between negated subject low high =>
    p (.between negated subject low high) <||> subject.search <||> low.search <||> high.search
  | .inList negated subject items =>
    p (.inList negated subject items) <||> subject.search <||> searchList items
  | .inSelect negated subject query =>
    p (.inSelect negated subject query) <||> subject.search <||> query.search
  | .existsRow negated query => p (.existsRow negated query) <||> query.search
  | .subquery query => p (.subquery query) <||> query.search
  | .call function distinct arguments =>
    p (.call function distinct arguments) <||> searchList arguments
  | .callStar function distinct => p (.callStar function distinct)
  | .caseWhen operand branches otherwise =>
    p (.caseWhen operand branches otherwise) <||> searchOption operand <||>
      searchBranches branches <||> searchOption otherwise
  | .cast operand typeName => p (.cast operand typeName) <||> operand.search
  | .row items => p (.row items) <||> searchList items
  | .raise action => p (.raise action)

def searchList : List Expr → m Bool
  | [] => pure false
  | e :: rest => e.search <||> searchList rest

def searchOption : Option Expr → m Bool
  | none => pure false
  | some e => e.search

def searchBranches : List (Expr × Expr) → m Bool
  | [] => pure false
  | (condition, result) :: rest => condition.search <||> result.search <||> searchBranches rest

def searchRows : List (List Expr) → m Bool
  | [] => pure false
  | row :: rest => searchList row <||> searchRows rest

/-- Whether the predicate says yes to an expression inside the query. -/
def Select.search : Select → m Bool
  | ⟨withClause, body, compounds, orderBy, limit, offset⟩ =>
    searchWith withClause <||> body.search <||> searchCompounds compounds <||>
      searchTerms orderBy <||> searchOption limit <||> searchOption offset

def searchWith : Option WithClause → m Bool
  | none => pure false
  | some ⟨_, tables⟩ => searchTables tables

def searchTables : List CommonTable → m Bool
  | [] => pure false
  | ⟨_, _, _, query⟩ :: rest => query.search <||> searchTables rest

def SelectBody.search : SelectBody → m Bool
  | .core core => core.search
  | .values rows => searchRows rows

def searchCompounds : List (SetOperator × SelectBody) → m Bool
  | [] => pure false
  | (_, body) :: rest => body.search <||> searchCompounds rest

def SelectCore.search : SelectCore → m Bool
  | ⟨_, columns, source, filter, groupBy, having⟩ =>
    searchColumns columns <||> searchSource source <||> searchOption filter <||>
      searchList groupBy <||> searchOption having

def searchSource : Option FromTree → m Bool
  | none => pure false
  | some tree => tree.search

def searchColumns : List ResultColumn → m Bool
  | [] => pure false
  | .expr value _ :: rest => value.search <||> searchColumns rest
  | .star :: rest => searchColumns rest
  | .tableStar _ :: rest => searchColumns rest

def searchTerms : List OrderingTerm → m Bool
  | [] => pure false
  | ⟨expr, _, _, _⟩ :: rest => expr.search <||> searchTerms rest

/-- Whether the predicate says yes to an expression inside the table tree. -/
def FromTree.search : FromTree → m Bool
  | .table _ => pure false
  | .subquery query _ => query.search
  | .function _ arguments _ => searchList arguments
  | .join left _ right constraint => left.search <||> right.search <||> searchConstraint constraint

def searchConstraint : Option JoinConstraint → m Bool
  | none => pure false
  | some (.condition condition) => condition.search
  | some (.columns _) => pure false

end

end Search

/-- Whether the predicate holds of the expression or of one inside it. -/
def Expr.any (p : Expr → Bool) (e : Expr) : Bool := Id.run (e.search fun x => pure (p x))

/-- Whether the predicate holds of an expression inside the query. -/
def Select.any (p : Expr → Bool) (q : Select) : Bool := Id.run (q.search fun x => pure (p x))

/-- Whether the predicate holds of an expression inside the table tree. -/
def FromTree.any (p : Expr → Bool) (tree : FromTree) : Bool :=
  Id.run (tree.search fun x => pure (p x))

end SqliteSyntax
