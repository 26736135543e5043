import Mathlib.Data.List.Basic
import SqliteSyntax.Proofs.Quotes.LeafText
import SqliteSyntax.Proofs.Quotes.StatementContents
import SqliteSyntax.Statement.Render

/-! # The contents of a statement in its text

`Statement.leavesOf_pieces`: the text of a statement shows what the statement carries, in order. -/
namespace SqliteSyntax
set_option autoImplicit false

/-! ## Leaves of schema objects -/

theorem leavesOf_optionBare (item : Option Expr) :
    (item.map Expr.bare).toList.flatMap leavesOf = optionLeaves item := by
  cases item with
  | none => rfl
  | some e => simp [e.leavesOf_bare, optionLeaves]

theorem leavesOf_flatMap {α : Type} {f : α → List Piece} {g : α → List Leaf}
    (h : ∀ a, leavesOf (f a) = g a) (items : List α) :
    leavesOf (items.flatMap f) = items.flatMap g := by
  induction items with
  | nil => rfl
  | cons a rest ih => rw [List.flatMap_cons, List.flatMap_cons, leavesOf_append, h, ih]

theorem leavesOf_listed {α : Type} {f : α → List Piece} {g : α → List Leaf}
    (h : ∀ a, leavesOf (f a) = g a) (items : List α) :
    leavesOf (commaSeparated (items.map f)) = items.flatMap g := by
  rw [leavesOf_commaSeparated, List.flatMap_map]
  exact List.flatMap_congr fun a _ => h a

theorem leavesOf_namesOrNothing (names : List String) :
    leavesOf (if names.isEmpty then [] else .space :: nameList names) = nameLeaves names := by
  cases names with
  | nil => rfl
  | cons n rest => exact leavesOf_nameList (n :: rest)

theorem IndexedColumn.leavesOf_pieces (c : IndexedColumn) : leavesOf c.pieces = c.leaves := by
  simp [pieces, leaves, leavesOf_collated, c.expr.leavesOf_bare]

theorem leavesOf_indexedList (columns : List IndexedColumn) :
    leavesOf (indexedList columns) = columns.flatMap IndexedColumn.leaves := by
  rw [indexedList, leavesOf_parenthesized]
  exact leavesOf_listed IndexedColumn.leavesOf_pieces columns

theorem leavesOf_phraseOption {α : Type} [Phrase α] (a : Option α) :
    (a.map Phrase.pieces).toList.flatMap leavesOf = [] := by
  cases a <;> simp

theorem ForeignKey.leavesOf_pieces (k : ForeignKey) : leavesOf k.pieces = k.leaves := by
  rw [pieces, leavesOf_append, leavesOf_append, leavesOf_append, leavesOf_fixed, leavesOf_space,
    leavesOf_name, leavesOf_namesOrNothing, leavesOf_clause, leavesOf_clause,
    leavesOf_phraseOption, leavesOf_phraseOption, leavesOf_optional, leaves]
  simp

theorem DefaultValue.leavesOf_pieces (value : DefaultValue) :
    leavesOf value.pieces = value.leaves := by
  cases value with
  | literal value => simp [pieces, leaves]
  | expr value => simp [pieces, leaves, value.leavesOf_bare]

theorem leavesOf_onlyIf (condition : Bool) (ps : List Piece) :
    leavesOf (onlyIf condition ps) = if condition then leavesOf ps else [] := by
  cases condition <;> rfl

theorem ColumnRule.leavesOf_pieces (rule : ColumnRule) : leavesOf rule.pieces = rule.leaves := by
  cases rule with
  | primaryKey order conflict autoincrement =>
    simp [pieces, leaves, conflictPieces, leavesOf_phraseOption, leavesOf_onlyIf]
  | notNull conflict => simp [pieces, leaves, conflictPieces, leavesOf_phraseOption]
  | null => rfl
  | unique conflict => simp [pieces, leaves, conflictPieces, leavesOf_phraseOption]
  | check condition => simp [pieces, leaves, checkPieces, condition.leavesOf_bare]
  | default value => simp [pieces, leaves, value.leavesOf_pieces]
  | collate collation => rfl
  | references key => simp [pieces, leaves, key.leavesOf_pieces]
  | generated value storage => simp [pieces, leaves, value.leavesOf_bare]

theorem leavesOf_constraintName (name : Option String) :
    leavesOf (constraintName name) = optionalName name := by
  cases name <;> rfl

theorem ColumnConstraint.leavesOf_pieces (c : ColumnConstraint) : leavesOf c.pieces = c.leaves := by
  rw [pieces, leavesOf_append, leavesOf_constraintName, c.rule.leavesOf_pieces, leaves]

theorem ColumnDef.leavesOf_pieces (c : ColumnDef) : leavesOf c.pieces = c.leaves := by
  have constraints : leavesOf (c.constraints.flatMap fun c => .space :: c.pieces) =
      c.constraints.flatMap ColumnConstraint.leaves :=
    leavesOf_flatMap (fun constraint => constraint.leavesOf_pieces) c.constraints
  have typeName : leavesOf (spaced (c.typeName.map fun t => [.verbatim t])) =
      c.typeName.toList.map .verbatim := by
    cases c.typeName <;> rfl
  rw [pieces, columnConstraintPieces, leavesOf_append, constraints]
  simp [leaves, typeName]

theorem TableRule.leavesOf_pieces (rule : TableRule) : leavesOf rule.pieces = rule.leaves := by
  cases rule with
  | primaryKey columns conflict =>
    simp [pieces, leaves, conflictPieces, leavesOf_phraseOption, leavesOf_indexedList]
  | unique columns conflict =>
    simp [pieces, leaves, conflictPieces, leavesOf_phraseOption, leavesOf_indexedList]
  | check condition => simp [pieces, leaves, checkPieces, condition.leavesOf_bare]
  | foreignKey columns key => simp [pieces, leaves, key.leavesOf_pieces]

theorem TableConstraint.leavesOf_pieces (c : TableConstraint) : leavesOf c.pieces = c.leaves := by
  rw [pieces, leavesOf_append, leavesOf_constraintName, c.rule.leavesOf_pieces, leaves]

theorem TableBody.leavesOf_pieces (b : TableBody) : leavesOf b.pieces = b.leaves := by
  cases b with
  | definitions columns constraints withoutRowid strict =>
    have options : leavesOf (if withoutRowid || strict
        then .space :: commaSeparated (tableOptions withoutRowid strict) else []) = [] := by
      cases withoutRowid <;> cases strict <;> rfl
    have constraints : leavesOf (constraints.flatMap fun c => .fixed "," :: .space :: c.pieces) =
        constraints.flatMap TableConstraint.leaves :=
      leavesOf_flatMap (fun constraint => constraint.leavesOf_pieces) constraints
    rw [pieces, leavesOf_append, leavesOf_space, leavesOf_parenthesized, options, definitionPieces,
      leavesOf_append, constraints, leavesOf_listed ColumnDef.leavesOf_pieces, List.append_nil,
      leaves]
  | asSelect query => simp [pieces, leaves, query.leavesOf_pieces]

theorem leavesOf_create (temporary : Bool) (object : List String) (ifNotExists : Bool) :
    leavesOf (createPieces temporary object ifNotExists) = [] := by
  simp [createPieces]

theorem CreateTable.leavesOf_pieces (t : CreateTable) : leavesOf t.pieces = t.leaves := by
  simp [pieces, leaves, leavesOf_create, t.body.leavesOf_pieces]

theorem TableChange.leavesOf_pieces (change : TableChange) :
    leavesOf change.pieces = change.leaves := by
  cases change with
  | addColumn column => simp [pieces, leaves, column.leavesOf_pieces]
  | _ => rfl

theorem CreateIndex.leavesOf_pieces (i : CreateIndex) : leavesOf i.pieces = i.leaves := by
  simp [pieces, leaves, leavesOf_create, leavesOf_indexedList, leavesOf_optionBare]

theorem CreateView.leavesOf_pieces (v : CreateView) : leavesOf v.pieces = v.leaves := by
  rw [pieces, leavesOf_append, leavesOf_append, leavesOf_append, leavesOf_create,
    leavesOf_namesOrNothing, v.name.leavesOf_pieces, leavesOf_clause, leaves]
  simp [v.query.leavesOf_pieces]

theorem TriggerEvent.leavesOf_pieces (event : TriggerEvent) :
    leavesOf event.pieces = event.leaves := by
  cases event with
  | updateOf columns =>
    have listed : leavesOf (commaSeparated (columns.map fun c => [.name c])) =
        nameLeaves columns := by
      refine (leavesOf_listed (g := fun c => [.name c]) (fun _ => rfl) columns).trans ?_
      rw [nameLeaves, List.map_eq_flatMap]
    rw [pieces, leaves]
    split
    · next h =>
      rw [List.isEmpty_iff.mp h]
      rfl
    · simp [listed]
  | _ => rfl

theorem TriggerHeader.leavesOf_pieces (t : TriggerHeader) : leavesOf t.pieces = t.leaves := by
  simp [pieces, leaves, leavesOf_create, t.event.leavesOf_pieces, leavesOf_optionBare,
    leavesOf_onlyIf]

theorem CreateVirtualTable.leavesOf_pieces (t : CreateVirtualTable) :
    leavesOf t.pieces = t.leaves := by
  have arguments : leavesOf (if t.arguments.isEmpty then []
      else parenthesized (commaSeparated (t.arguments.map fun a => [.verbatim a]))) =
      t.arguments.map .verbatim := by
    split
    · next h =>
      rw [List.isEmpty_iff.mp h]
      rfl
    · rw [leavesOf_parenthesized]
      refine (leavesOf_listed (g := fun a => [.verbatim a]) (fun _ => rfl) t.arguments).trans ?_
      rw [List.map_eq_flatMap]
  rw [pieces, leavesOf_append, leavesOf_append, leavesOf_create, t.name.leavesOf_pieces,
    leavesOf_space, leavesOf_fixed, leavesOf_space, leavesOf_name, arguments, leaves]
  rfl

theorem DropObject.leavesOf_pieces (d : DropObject) : leavesOf d.pieces = d.name.leaves := by
  simp [pieces, leavesOf_onlyIf]

/-! ## Leaves of changes to rows -/

theorem Assignment.leavesOf_pieces (a : Assignment) : leavesOf a.pieces = a.leaves := by
  obtain ⟨columns, value⟩ := a
  rcases columns with _ | ⟨c, _ | ⟨d, rest⟩⟩ <;>
    simp [pieces, leaves, nameLeaves, value.leavesOf_bare]

theorem leavesOf_assignments (assignments : List Assignment) :
    leavesOf (assignmentPieces assignments) = assignments.flatMap Assignment.leaves :=
  leavesOf_listed Assignment.leavesOf_pieces assignments

theorem UpsertTarget.leavesOf_pieces (t : UpsertTarget) : leavesOf t.pieces = t.leaves := by
  simp [pieces, leaves, leavesOf_indexedList, leavesOf_optionBare]

theorem Upsert.leavesOf_pieces (u : Upsert) : leavesOf u.pieces = u.leaves := by
  have action : leavesOf u.action.pieces = u.action.leaves := by
    cases u.action with
    | nothing => rfl
    | update assignments filter =>
      simp [UpsertAction.pieces, UpsertAction.leaves, leavesOf_assignments, leavesOf_optionBare]
  have target : leavesOf (spaced (u.target.map UpsertTarget.pieces)) =
      u.target.toList.flatMap UpsertTarget.leaves := by
    cases u.target with
    | none => rfl
    | some t => simp [t.leavesOf_pieces]
  rw [pieces, leavesOf_append, leavesOf_append, leavesOf_phrase, leavesOf_space, target, action,
    leaves]
  rfl

theorem InsertSource.leavesOf_pieces (source : InsertSource) :
    leavesOf source.pieces = source.leaves := by
  cases source with
  | values rows => simp [pieces, leaves, leavesOf_rows, rowListPieces_leaves rows]
  | select query => simp [pieces, leaves, query.leavesOf_pieces]
  | defaultValues => rfl

theorem leavesOf_returning (columns : List ResultColumn) :
    leavesOf (returningPieces columns) = columnLeaves columns := by
  unfold returningPieces
  split
  · next h =>
    rw [List.isEmpty_iff.mp h]
    rfl
  · simp [columnPieces_leaves columns]

theorem Insert.leavesOf_pieces (i : Insert) : leavesOf i.pieces = i.leaves := by
  have upserts : leavesOf (i.upserts.flatMap fun u => .space :: u.pieces) =
      i.upserts.flatMap Upsert.leaves :=
    leavesOf_flatMap (fun u => u.leavesOf_pieces) i.upserts
  rw [pieces, leavesOf_append, leavesOf_append, leavesOf_append, leavesOf_append, leavesOf_append,
    leavesOf_append, leavesOf_append, withPieces_leaves, leavesOf_choice, leavesOf_space,
    i.table.leavesOf_pieces, leavesOf_asClause, leavesOf_namesOrNothing, leavesOf_space,
    i.source.leavesOf_pieces, upserts, leavesOf_returning, leaves, List.append_nil]

theorem leavesOf_tail (filter : Option Expr) (returning : List ResultColumn)
    (orderBy : List OrderingTerm) (limit offset : Option Expr) :
    leavesOf (tailPieces filter returning orderBy limit offset) =
      optionLeaves filter ++ columnLeaves returning ++ termLeaves orderBy ++ optionLeaves limit ++
        optionLeaves offset := by
  simp [tailPieces, leavesOf_optionBare, leavesOf_returning, leavesOf_orderBy,
    termPieces_leaves orderBy]

theorem Update.leavesOf_pieces (u : Update) : leavesOf u.pieces = u.leaves := by
  have source : leavesOf (clause ["FROM"] (u.source.map FromTree.pieces)) =
      sourceLeaves u.source := by
    cases u.source with
    | none => rfl
    | some tree => simp [tree.leavesOf_pieces, sourceLeaves]
  simp [pieces, leaves, withPieces_leaves, leavesOf_assignments, source, leavesOf_tail]

theorem Delete.leavesOf_pieces (d : Delete) : leavesOf d.pieces = d.leaves := by
  simp [pieces, leaves, withPieces_leaves, leavesOf_tail]

mutual

theorem Statement.leavesOf_pieces : (s : Statement) → leavesOf s.pieces = s.leaves
  | .select query => by simp [Statement.pieces, Statement.leaves, query.leavesOf_pieces]
  | .insert i => by simp [Statement.pieces, Statement.leaves, i.leavesOf_pieces]
  | .update u => by simp [Statement.pieces, Statement.leaves, u.leavesOf_pieces]
  | .delete d => by simp [Statement.pieces, Statement.leaves, d.leavesOf_pieces]
  | .createTable table => by simp [Statement.pieces, Statement.leaves, table.leavesOf_pieces]
  | .createIndex index => by simp [Statement.pieces, Statement.leaves, index.leavesOf_pieces]
  | .createView view => by simp [Statement.pieces, Statement.leaves, view.leavesOf_pieces]
  | .createTrigger header steps => by
    simp [Statement.pieces, Statement.leaves, header.leavesOf_pieces, stepPieces_leaves steps]
  | .createVirtualTable table => by
    simp [Statement.pieces, Statement.leaves, table.leavesOf_pieces]
  | .alterTable table change => by
    simp [Statement.pieces, Statement.leaves, change.leavesOf_pieces]
  | .drop object => by simp [Statement.pieces, Statement.leaves, object.leavesOf_pieces]
  | .begin mode => by simp [Statement.pieces, Statement.leaves]
  | .commit => rfl
  | .rollback name => by cases name <;> simp [Statement.pieces, Statement.leaves, optionalName]
  | .savepoint name => rfl
  | .release name => rfl
  | .attach file schema => by simp [Statement.pieces, Statement.leaves, file.leavesOf_bare]
  | .detach schema => rfl
  | .vacuum schema file => by
    cases schema <;> simp [Statement.pieces, Statement.leaves, leavesOf_optionBare, optionalName]
  | .reindex target => by cases target <;> simp [Statement.pieces, Statement.leaves]
  | .analyze target => by cases target <;> simp [Statement.pieces, Statement.leaves]
  | .explain queryPlan statement => by
    simp [Statement.pieces, Statement.leaves, statement.leavesOf_pieces]

theorem stepPieces_leaves : (steps : List Statement) →
    leavesOf (stepPieces steps) = stepLeaves steps
  | [] => rfl
  | step :: rest => by
    simp [stepPieces, stepLeaves, step.leavesOf_pieces, stepPieces_leaves rest]

end

end SqliteSyntax
