import SqliteSyntax.Proofs.Nodes.Raise

/-! # What a search finds

A search asks the nested expressions in their order, whatever the predicate does besides answering
(`Expr.search_eq` and its likes). So a search by a plain predicate has a hit exactly when one stands in
the node at some depth. -/
namespace SqliteSyntax
set_option autoImplicit false

section Search
variable {m : Type → Type} [Monad m] [LawfulMonad m] (p : Expr → m Bool)

/-! ## Searching a list -/

theorem false_orM (x : m Bool) : (pure false <||> x) = x := by
  rw [orM, pure_bind]
  rfl

theorem orM_false (x : m Bool) : (x <||> pure false) = x := by
  conv_rhs => rw [← bind_pure x]
  rw [orM]
  refine bind_congr fun found => ?_
  cases found <;> rfl

theorem orM_assoc (x y z : m Bool) : ((x <||> y) <||> z) = (x <||> (y <||> z)) := by
  show (x >>= _) >>= _ = x >>= _
  rw [bind_assoc]
  refine bind_congr fun found => ?_
  cases found with
  | true => exact pure_bind _ _
  | false => rfl

omit [LawfulMonad m] in
theorem anyM_cons_eq (e : Expr) (rest : List Expr) :
    (e :: rest).anyM p = (p e <||> rest.anyM p) := by
  rw [List.anyM_cons, orM]
  refine bind_congr fun found => ?_
  cases found <;> rfl

theorem anyM_one (e : Expr) : [e].anyM p = p e := by
  rw [anyM_cons_eq, List.anyM_nil, orM_false]

theorem anyM_append_eq (front back : List Expr) :
    (front ++ back).anyM p = (front.anyM p <||> back.anyM p) := by
  induction front with
  | nil => rw [List.nil_append, List.anyM_nil, false_orM]
  | cons e rest ih => rw [List.cons_append, anyM_cons_eq, anyM_cons_eq, ih, orM_assoc]

/-! ## Searching what is nested -/

-- not every theorem of the block names the laws itself
set_option linter.unusedSectionVars false

mutual

/-- The expressions are asked in the order of the list, each as long as none before said yes. -/
theorem Expr.search_eq : (e : Expr) → e.search p = e.nested.anyM p
  | .literal _ | .column _ | .callStar .. | .raise _ => by
    rw [Expr.search, Expr.nested, anyM_one]
  | .unary _ a | .nullTest _ a | .collate a _ | .cast a _ => by
    rw [Expr.search, Expr.nested, anyM_cons_eq, a.search_eq]
  | .binary _ a b => by
    rw [Expr.search, Expr.nested, List.cons_append, anyM_cons_eq, anyM_append_eq, a.search_eq,
      b.search_eq]
  | .pattern _ _ a b c => by
    rw [Expr.search, Expr.nested, List.cons_append, List.cons_append, anyM_cons_eq, anyM_append_eq,
      anyM_append_eq, orM_assoc, a.search_eq, b.search_eq, searchOption_eq c]
  | .between _ a b c => by
    rw [Expr.search, Expr.nested, List.cons_append, List.cons_append, anyM_cons_eq, anyM_append_eq,
      anyM_append_eq, orM_assoc, a.search_eq, b.search_eq, c.search_eq]
  | .inList _ a items => by
    rw [Expr.search, Expr.nested, List.cons_append, anyM_cons_eq, anyM_append_eq, a.search_eq,
      searchList_eq items]
  | .inSelect _ a q => by
    rw [Expr.search, Expr.nested, List.cons_append, anyM_cons_eq, anyM_append_eq, a.search_eq,
      q.search_eq]
  | .existsRow _ q | .subquery q => by
    rw [Expr.search, Expr.nested, anyM_cons_eq, q.search_eq]
  | .call _ _ items | .row items => by
    rw [Expr.search, Expr.nested, anyM_cons_eq, searchList_eq items]
  | .caseWhen a branches c => by
    rw [Expr.search, Expr.nested, List.cons_append, List.cons_append, anyM_cons_eq, anyM_append_eq,
      anyM_append_eq, orM_assoc, searchOption_eq a, searchBranches_eq branches, searchOption_eq c]

theorem searchList_eq : (items : List Expr) → searchList p items = (nestedInList items).anyM p
  | [] => by rw [searchList, nestedInList, List.anyM_nil]
  | e :: rest => by
    rw [searchList, nestedInList, anyM_append_eq, e.search_eq, searchList_eq rest]

theorem searchOption_eq : (item : Option Expr) →
    searchOption p item = (nestedInOption item).anyM p
  | none => by rw [searchOption, nestedInOption, List.anyM_nil]
  | some e => by rw [searchOption, nestedInOption, e.search_eq]

theorem searchBranches_eq : (branches : List (Expr × Expr)) →
    searchBranches p branches = (nestedInBranches branches).anyM p
  | [] => by rw [searchBranches, nestedInBranches, List.anyM_nil]
  | (a, b) :: rest => by
    rw [searchBranches, nestedInBranches, anyM_append_eq, anyM_append_eq, orM_assoc, a.search_eq,
      b.search_eq, searchBranches_eq rest]

theorem searchRows_eq : (rows : List (List Expr)) →
    searchRows p rows = (nestedInRows rows).anyM p
  | [] => by rw [searchRows, nestedInRows, List.anyM_nil]
  | row :: rest => by
    rw [searchRows, nestedInRows, anyM_append_eq, searchList_eq row, searchRows_eq rest]

theorem Select.search_eq : (q : Select) → q.search p = q.nested.anyM p
  | ⟨w, body, compounds, terms, limit, offset⟩ => by
    simp only [Select.search, Select.nested, anyM_append_eq, orM_assoc, searchWith_eq w,
      body.search_eq, searchCompounds_eq compounds, searchTerms_eq terms, searchOption_eq limit,
      searchOption_eq offset]

theorem searchWith_eq : (w : Option WithClause) → searchWith p w = (nestedInWith w).anyM p
  | none => by rw [searchWith, nestedInWith, List.anyM_nil]
  | some ⟨_, tables⟩ => by rw [searchWith, nestedInWith, searchTables_eq tables]

theorem searchTables_eq : (tables : List CommonTable) →
    searchTables p tables = (nestedInTables tables).anyM p
  | [] => by rw [searchTables, nestedInTables, List.anyM_nil]
  | ⟨_, _, _, q⟩ :: rest => by
    rw [searchTables, nestedInTables, anyM_append_eq, q.search_eq, searchTables_eq rest]

theorem SelectBody.search_eq : (body : SelectBody) → body.search p = body.nested.anyM p
  | .core core => by rw [SelectBody.search, SelectBody.nested, core.search_eq]
  | .values rows => by rw [SelectBody.search, SelectBody.nested, searchRows_eq rows]

theorem searchCompounds_eq : (compounds : List (SetOperator × SelectBody)) →
    searchCompounds p compounds = (nestedInCompounds compounds).anyM p
  | [] => by rw [searchCompounds, nestedInCompounds, List.anyM_nil]
  | (_, body) :: rest => by
    rw [searchCompounds, nestedInCompounds, anyM_append_eq, body.search_eq, searchCompounds_eq rest]

theorem SelectCore.search_eq : (core : SelectCore) → core.search p = core.nested.anyM p
  | ⟨_, columns, source, filter, groupBy, having⟩ => by
    simp only [SelectCore.search, SelectCore.nested, anyM_append_eq, orM_assoc,
      searchColumns_eq columns, searchSource_eq source, searchOption_eq filter,
      searchList_eq groupBy, searchOption_eq having]

theorem searchSource_eq : (source : Option FromTree) →
    searchSource p source = (nestedInSource source).anyM p
  | none => by rw [searchSource, nestedInSource, List.anyM_nil]
  | some tree => by rw [searchSource, nestedInSource, tree.search_eq]

theorem searchColumns_eq : (columns : List ResultColumn) →
    searchColumns p columns = (nestedInColumns columns).anyM p
  | [] => by rw [searchColumns, nestedInColumns, List.anyM_nil]
  | .expr e _ :: rest => by
    rw [searchColumns, nestedInColumns, anyM_append_eq, e.search_eq, searchColumns_eq rest]
  | .star :: rest | .tableStar _ :: rest => by
    rw [searchColumns, nestedInColumns, searchColumns_eq rest]

theorem searchTerms_eq : (terms : List OrderingTerm) →
    searchTerms p terms = (nestedInTerms terms).anyM p
  | [] => by rw [searchTerms, nestedInTerms, List.anyM_nil]
  | ⟨e, _, _, _⟩ :: rest => by
    rw [searchTerms, nestedInTerms, anyM_append_eq, e.search_eq, searchTerms_eq rest]

theorem FromTree.search_eq : (tree : FromTree) → tree.search p = tree.nested.anyM p
  | .table _ => by rw [FromTree.search, FromTree.nested, List.anyM_nil]
  | .subquery q _ => by rw [FromTree.search, FromTree.nested, q.search_eq]
  | .function _ items _ => by rw [FromTree.search, FromTree.nested, searchList_eq items]
  | .join left _ right constraint => by
    rw [FromTree.search, FromTree.nested, anyM_append_eq, anyM_append_eq, orM_assoc, left.search_eq,
      right.search_eq, searchConstraint_eq constraint]

theorem searchConstraint_eq : (constraint : Option JoinConstraint) →
    searchConstraint p constraint = (nestedInConstraint constraint).anyM p
  | none => by rw [searchConstraint, nestedInConstraint, List.anyM_nil]
  | some (.condition e) => by rw [searchConstraint, nestedInConstraint, e.search_eq]
  | some (.columns _) => by rw [searchConstraint, nestedInConstraint, List.anyM_nil]

end

end Search

/-! ## Plain predicates -/

variable (p : Expr → Bool)

theorem Expr.any_eq (e : Expr) : e.any p = e.nested.any p := by
  rw [Expr.any, search_eq, List.anyM_pure, Id.run_pure]

theorem Select.any_eq (q : Select) : q.any p = q.nested.any p := by
  rw [Select.any, search_eq, List.anyM_pure, Id.run_pure]

theorem FromTree.any_eq (t : FromTree) : t.any p = t.nested.any p := by
  rw [FromTree.any, search_eq, List.anyM_pure, Id.run_pure]

/-- Of the nested expressions of anything but a statement none stands in a trigger. -/
theorem Node.any_nested_iff {n : Node} (hn : n.isStatement = false) :
    n.nested.any p = true ↔ ∃ x, Inside (.expr x) n ∧ p x = true := by
  rw [List.any_eq_true]
  refine exists_congr fun x => and_congr_left fun _ => ?_
  rw [mem_nested_iff, plainly_iff_inside hn]

/-- A search of an expression, a query or a table tree finds a hit exactly when the predicate holds of
an expression that is reached by going from part to part: of the expression itself or of one that stands
in it, in its subqueries, their common tables, bodies, table trees and clauses, at any depth. -/
theorem any_iff_inside :
    (∀ e : Expr, e.any p = true ↔ ∃ x, Inside (.expr x) (.expr e) ∧ p x = true) ∧
    (∀ q : Select, q.any p = true ↔ ∃ x, Inside (.expr x) (.query q) ∧ p x = true) ∧
    ∀ t : FromTree, t.any p = true ↔ ∃ x, Inside (.expr x) (.tree t) ∧ p x = true := by
  refine ⟨fun e => ?_, fun q => ?_, fun t => ?_⟩
  · rw [e.any_eq]
    exact Node.any_nested_iff p (n := .expr e) rfl
  · rw [q.any_eq]
    exact Node.any_nested_iff p (n := .query q) rfl
  · rw [t.any_eq]
    exact Node.any_nested_iff p (n := .tree t) rfl

end SqliteSyntax
