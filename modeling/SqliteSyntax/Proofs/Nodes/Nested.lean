import SqliteSyntax.Proofs.Nodes.Parts
import SqliteSyntax.Proofs.Pieces.Listed

/-! # Nested expressions are the reachable ones

The search lists of `Nested` and `Raise` are taken apart node by node (`Node.nested_eq`), so an
expression is in the list of a node exactly when it stands in it at some depth, with no trigger on the
way (`mem_nested_iff`). -/
namespace SqliteSyntax
set_option autoImplicit false

namespace Node

/-- The expressions that a search of the node visits. -/
def nested : Node → List Expr
  | .expr e => e.nested
  | .query q => q.nested
  | .body b => b.nested
  | .tree t => t.nested
  | .statement s => s.nested

/-- The expression that the node is, if it is one. -/
def itself : Node → List Expr
  | .expr e => [e]
  | .query _ | .body _ | .tree _ | .statement _ => []

/-- What the parts of a node hold, one after another. -/
def nestedInParts (parts : List Node) : List Expr := parts.flatMap nested

theorem nestedInParts_append (a b : List Node) :
    nestedInParts (a ++ b) = nestedInParts a ++ nestedInParts b :=
  List.flatMap_append

theorem nestedInParts_cons (m : Node) (rest : List Node) :
    nestedInParts (m :: rest) = m.nested ++ nestedInParts rest :=
  List.flatMap_cons

theorem nestedInParts_map {α : Type} (f : α → Node) (items : List α) :
    nestedInParts (items.map f) = items.flatMap fun a => (f a).nested :=
  List.flatMap_map f nested items

theorem nestedInParts_flatMap {α : Type} (f : α → List Node) (items : List α) :
    nestedInParts (items.flatMap f) = items.flatMap fun a => nestedInParts (f a) :=
  List.flatMap_assoc

/-! ## Each type -/

theorem nestedInParts_exprs (items : List Expr) :
    nestedInParts (items.map .expr) = nestedInList items := by
  rw [nestedInParts_map, nestedInList_eq]
  rfl

theorem nestedInParts_option (item : Option Expr) :
    nestedInParts (optionParts item) = nestedInOption item := by
  rw [optionParts, nestedInParts_map, nestedInOption_eq]
  rfl

theorem nestedInParts_rows (rows : List (List Expr)) :
    nestedInParts (rowParts rows) = nestedInRows rows := by
  rw [rowParts, nestedInParts_flatMap, nestedInRows_eq]
  refine List.flatMap_congr fun row _ => ?_
  rw [nestedInParts_map]
  rfl

theorem nestedInParts_terms (terms : List OrderingTerm) :
    nestedInParts (termParts terms) = nestedInTerms terms := by
  rw [termParts, nestedInParts_map, nestedInTerms_eq]
  rfl

theorem nestedInParts_with (withClause : Option WithClause) :
    nestedInParts (withParts withClause) = nestedInWith withClause := by
  cases withClause with
  | none => rfl
  | some w =>
    obtain ⟨recursive, tables⟩ := w
    rw [withParts, Option.toList_some, List.flatMap_singleton, nestedInParts_map, nestedInWith,
      nestedInTables_eq]
    rfl

theorem nestedInParts_columns (columns : List ResultColumn) :
    nestedInParts (columnParts columns) = nestedInColumns columns := by
  induction columns with
  | nil => rfl
  | cons c rest ih =>
    rw [columnParts, List.flatMap_cons, nestedInParts_append, ← columnParts, ih]
    cases c with
    | expr value asName => rw [nestedInColumns, nestedInParts_cons, nestedInParts, nested]; simp
    | star => rw [nestedInColumns]; rfl
    | tableStar table => rw [nestedInColumns]; rfl

theorem nestedInParts_indexed (columns : List IndexedColumn) :
    nestedInParts (indexedParts columns) = nestedInIndexed columns := by
  rw [indexedParts, nestedInParts_map]
  rfl

theorem nestedInParts_assignments (assignments : List Assignment) :
    nestedInParts (assignmentParts assignments) = nestedInAssignments assignments := by
  rw [assignmentParts, nestedInParts_map]
  rfl

theorem nestedInParts_source (source : Option FromTree) :
    nestedInParts (source.toList.map .tree) = nestedInSource source := by
  rw [nestedInParts_map, nestedInSource_eq]
  rfl

theorem nestedInParts_one (m : Node) : nestedInParts [m] = m.nested := by
  rw [nestedInParts, List.flatMap_singleton]

theorem nestedInParts_branches (branches : List (Expr × Expr)) :
    nestedInParts (branches.flatMap fun b => [.expr b.1, .expr b.2]) = nestedInBranches branches := by
  rw [nestedInParts_flatMap, nestedInBranches_eq]
  refine List.flatMap_congr fun b _ => ?_
  rw [nestedInParts_cons, nestedInParts_one]
  rfl

theorem nested_expr_eq (e : Expr) : e.nested = e :: nestedInParts e.parts := by
  cases e with
  | literal v => rfl
  | column c => rfl
  | callStar f d => rfl
  | raise a => rfl
  | unary op a => rw [Expr.nested, Expr.parts, nestedInParts_one]; rfl
  | nullTest t a => rw [Expr.nested, Expr.parts, nestedInParts_one]; rfl
  | collate a c => rw [Expr.nested, Expr.parts, nestedInParts_one]; rfl
  | cast a t => rw [Expr.nested, Expr.parts, nestedInParts_one]; rfl
  | existsRow n q => rw [Expr.nested, Expr.parts, nestedInParts_one]; rfl
  | subquery q => rw [Expr.nested, Expr.parts, nestedInParts_one]; rfl
  | binary op a b => rw [Expr.nested, Expr.parts, nestedInParts_cons, nestedInParts_one]; rfl
  | inSelect n a q => rw [Expr.nested, Expr.parts, nestedInParts_cons, nestedInParts_one]; rfl
  | between n a b c =>
    rw [Expr.nested, Expr.parts, nestedInParts_cons, nestedInParts_cons, nestedInParts_one,
      ← List.append_assoc]
    rfl
  | pattern op n a b c =>
    rw [Expr.nested, Expr.parts, nestedInParts_cons, nestedInParts_cons, nestedInParts_option,
      ← List.append_assoc]
    rfl
  | inList n a items => rw [Expr.nested, Expr.parts, nestedInParts_cons, nestedInParts_exprs]; rfl
  | call f d items => rw [Expr.nested, Expr.parts, nestedInParts_exprs]
  | row items => rw [Expr.nested, Expr.parts, nestedInParts_exprs]
  | caseWhen a bs c =>
    rw [Expr.nested, Expr.parts, nestedInParts_append, nestedInParts_append, nestedInParts_option,
      nestedInParts_option, nestedInParts_branches]
    rfl

theorem nested_query_eq (q : Select) : q.nested = nestedInParts q.parts := by
  obtain ⟨w, b, cs, os, l, o⟩ := q
  have bodies : nestedInParts ((b :: cs.map Prod.snd).map .body) =
      b.nested ++ nestedInCompounds cs := by
    rw [nestedInParts_map, List.flatMap_cons, List.flatMap_map, nestedInCompounds_eq]
    rfl
  simp only [Select.parts, Select.bodies, nestedInParts_append, nestedInParts_with, bodies,
    nestedInParts_terms, nestedInParts_option, Select.nested, List.append_assoc]

theorem nested_body_eq (b : SelectBody) : b.nested = nestedInParts b.parts := by
  cases b with
  | core c =>
    obtain ⟨d, cs, s, f, gs, h⟩ := c
    simp only [SelectBody.parts, nestedInParts_append, nestedInParts_columns, nestedInParts_source,
      nestedInParts_option, nestedInParts_exprs, SelectBody.nested, SelectCore.nested]
  | values rows => rw [SelectBody.nested, SelectBody.parts, nestedInParts_rows]

theorem nested_tree_eq (t : FromTree) : t.nested = nestedInParts t.parts := by
  cases t with
  | table r => rfl
  | subquery q n => rw [FromTree.nested, FromTree.parts, nestedInParts_one]; rfl
  | function n items a => rw [FromTree.nested, FromTree.parts, nestedInParts_exprs]
  | join l op r c =>
    have constraint : nestedInParts (c.toList.flatMap JoinConstraint.parts) =
        nestedInConstraint c := by
      rcases c with _ | (e | names)
      · rfl
      · rw [Option.toList_some, List.flatMap_singleton, JoinConstraint.parts, nestedInParts_one,
          nestedInConstraint]
        rfl
      · rfl
    rw [FromTree.nested, FromTree.parts, nestedInParts_cons, nestedInParts_cons, constraint,
      ← List.append_assoc]
    rfl

theorem nested_column_eq (c : ColumnDef) : c.nested = nestedInParts c.parts := by
  rw [ColumnDef.nested, ColumnDef.parts, nestedInParts_flatMap]
  refine List.flatMap_congr fun constraint _ => ?_
  obtain ⟨name, rule⟩ := constraint
  cases rule with
  | check e => exact (nestedInParts_one (.expr e)).symm
  | generated e s => exact (nestedInParts_one (.expr e)).symm
  | default v =>
    cases v with
    | literal v => rfl
    | expr e => exact (nestedInParts_one (.expr e)).symm
  | primaryKey o c a => rfl
  | notNull c => rfl
  | null => rfl
  | unique c => rfl
  | collate c => rfl
  | references k => rfl

theorem nested_tableBody_eq (b : TableBody) : b.nested = nestedInParts b.parts := by
  cases b with
  | definitions columns constraints w s =>
    rw [TableBody.nested, TableBody.parts, nestedInParts_append, nestedInParts_flatMap,
      nestedInParts_flatMap]
    refine congrArg₂ (· ++ ·) (List.flatMap_congr fun c _ => nested_column_eq c)
      (List.flatMap_congr fun c _ => ?_)
    obtain ⟨name, rule⟩ := c
    cases rule with
    | primaryKey cs c => exact (nestedInParts_indexed cs).symm
    | unique cs c => exact (nestedInParts_indexed cs).symm
    | check e => exact (nestedInParts_one (.expr e)).symm
    | foreignKey cs k => rfl
  | asSelect q => rw [TableBody.nested, TableBody.parts, nestedInParts_one]; rfl

theorem nested_upsert_eq (u : Upsert) : u.nested = nestedInParts u.parts := by
  obtain ⟨target, action⟩ := u
  rw [Upsert.nested, Upsert.parts, nestedInParts_append]
  refine congrArg₂ (· ++ ·) ?_ ?_
  · cases target with
    | none => rfl
    | some t =>
      rw [Option.toList_some, List.flatMap_singleton, UpsertTarget.parts, nestedInParts_append,
        nestedInParts_indexed, nestedInParts_option]
      rfl
  · cases action with
    | nothing => rfl
    | update assignments filter =>
      rw [UpsertAction.nested, UpsertAction.parts, nestedInParts_append, nestedInParts_assignments,
        nestedInParts_option]

theorem nested_insert_eq (i : Insert) : i.nested = nestedInParts i.parts := by
  have source : nestedInParts i.source.parts = i.source.nested := by
    cases i.source with
    | values rows => exact nestedInParts_rows rows
    | select q => exact nestedInParts_one (.query q)
    | defaultValues => rfl
  have upserts : i.upserts.flatMap Upsert.nested =
      nestedInParts (i.upserts.flatMap Upsert.parts) := by
    rw [nestedInParts_flatMap]
    exact List.flatMap_congr fun u _ => nested_upsert_eq u
  simp only [Insert.nested, Insert.parts, nestedInParts_append, nestedInParts_with,
    nestedInParts_columns, source, upserts]

theorem nested_update_eq (u : Update) : u.nested = nestedInParts u.parts := by
  simp only [Update.nested, Update.parts, nestedInParts_append, nestedInParts_with,
    nestedInParts_assignments, nestedInParts_source, nestedInParts_option, nestedInParts_columns,
    nestedInParts_terms]

theorem nested_delete_eq (d : Delete) : d.nested = nestedInParts d.parts := by
  simp only [Delete.nested, Delete.parts, nestedInParts_append, nestedInParts_with,
    nestedInParts_option, nestedInParts_columns, nestedInParts_terms]

theorem nested_statement_eq (s : Statement) (h : (Node.statement s).isTrigger = false) :
    s.nested = nestedInParts s.parts := by
  cases s with
  | select q => exact (nestedInParts_one (.query q)).symm
  | insert i => exact nested_insert_eq i
  | update u => exact nested_update_eq u
  | delete d => exact nested_delete_eq d
  | createTable t => exact nested_tableBody_eq t.body
  | createIndex i =>
    rw [Statement.nested, Statement.parts, nestedInParts_append, nestedInParts_indexed,
      nestedInParts_option]
  | createView v => exact (nestedInParts_one (.query v.query)).symm
  | createTrigger header steps => exact Bool.noConfusion h
  | alterTable t change =>
    cases change with
    | addColumn c => exact nested_column_eq c
    | renameTo n => rfl
    | renameColumn c n => rfl
    | dropColumn c => rfl
  | attach file n => exact (nestedInParts_one (.expr file)).symm
  | vacuum n file => exact (nestedInParts_option file).symm
  | explain p s => exact (nestedInParts_one (.statement s)).symm
  | createVirtualTable t => rfl
  | drop d => rfl
  | begin mode => rfl
  | commit => rfl
  | rollback n => rfl
  | savepoint n => rfl
  | release n => rfl
  | detach n => rfl
  | reindex t => rfl
  | analyze t => rfl

/-! ## All nodes -/

/-- A search visits a node, if it is an expression, and then its parts in order. -/
theorem nested_eq (n : Node) (h : n.isTrigger = false) :
    n.nested = n.itself ++ nestedInParts n.parts := by
  cases n with
  | expr e => exact nested_expr_eq e
  | query q => exact nested_query_eq q
  | body b => exact nested_body_eq b
  | tree t => exact nested_tree_eq t
  | statement s => exact nested_statement_eq s h

/-- A search does not enter a trigger. -/
theorem nested_of_isTrigger {n : Node} (h : n.isTrigger = true) : n.nested = [] := by
  cases n with
  | statement s =>
    cases s with
    | createTrigger header steps => rfl
    | _ => exact absurd h (by simp [isTrigger])
  | _ => exact absurd h (by simp [isTrigger])

theorem mem_itself_iff {e : Expr} {n : Node} : e ∈ n.itself ↔ n = .expr e := by
  cases n <;> simp [itself, eq_comm]

end Node

/-- A search finds exactly the expressions that stand in the node with no trigger on the way. -/
theorem mem_nested_iff {e : Expr} {n : Node} : e ∈ n.nested ↔ Plainly (.expr e) n := by
  constructor
  · induction n using Node.induction with
    | step n ih =>
      intro h
      cases ht : n.isTrigger with
      | true =>
        rw [Node.nested_of_isTrigger ht] at h
        exact absurd h List.not_mem_nil
      | false =>
        rw [Node.nested_eq n ht, List.mem_append, Node.mem_itself_iff] at h
        rcases h with rfl | h
        · exact .refl
        · obtain ⟨m, hm, he⟩ := List.mem_flatMap.mp h
          exact (ih m hm he).tail ⟨hm, ht⟩
  · intro h
    induction h with
    | refl =>
      rw [Node.nested_eq _ rfl]
      exact List.mem_append_left _ (Node.mem_itself_iff.mpr rfl)
    | tail _ hstep ih =>
      obtain ⟨hm, ht⟩ := hstep
      rw [Node.nested_eq _ ht]
      exact List.mem_append_right _ (List.mem_flatMap_of_mem hm ih)

end SqliteSyntax
