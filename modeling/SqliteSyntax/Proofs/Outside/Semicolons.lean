import SqliteSyntax.Proofs.Pieces.Lacking
import SqliteSyntax.Statement.Render

/-! # A statement writes one semicolon for each step

`Statement.count_semicolon`: the semicolons of the grammar are those after the steps of triggers, and
nothing else in a statement writes one. -/
namespace SqliteSyntax
set_option autoImplicit false

/-- The grammar writes no semicolon in the text. -/
abbrev Unended (ps : List Piece) : Prop := Lacks [";"] ps

theorem Lacks.unended {ps : List Piece} (h : Lacks statementWords ps) : Unended ps :=
  h.mono (by decide)

/-! ## Parts -/

@[simp] theorem QualifiedName.unended (n : QualifiedName) : Unended n.pieces := n.lacks.unended

@[simp] theorem TableRef.unended (t : TableRef) : Unended t.pieces := t.lacks.unended

@[simp] theorem Expr.unended (e : Expr) : Unended e.bare := e.lacks.unended

@[simp] theorem Select.unended (q : Select) : Unended q.pieces := q.lacks.unended

@[simp] theorem FromTree.unended (tree : FromTree) : Unended tree.pieces := tree.lacks.unended

@[simp] theorem unended_with (withClause : Option WithClause) : Unended (withPieces withClause) :=
  (withPieces_lacks withClause).unended

theorem unended_choice {α : Type} [Phrase α]
    (h : ∀ a ∈ (Phrase.all : List α), ∀ w ∈ [";"], w ∉ Phrase.words a) (a : α) :
    Unended (Phrase.pieces a) :=
  lacks_choice h a

theorem unended_optional {α : Type} [Phrase α]
    (h : ∀ a ∈ (Phrase.all : List α), ∀ w ∈ [";"], w ∉ Phrase.words a) (a : Option α) :
    Unended (Phrase.optional a) :=
  lacks_optional h a

theorem unended_optionBare (item : Option Expr) : Unended ((item.map Expr.bare).getD []) := by
  cases item <;> simp

/-! ## Schema objects -/

theorem unended_namesOrNothing (names : List String) :
    Unended (if names.isEmpty then [] else .space :: nameList names) := by
  split <;> simp

theorem IndexedColumn.unended (c : IndexedColumn) : Unended c.pieces := by
  have order := unended_optional (by decide) c.order
  simp [pieces, lacks_collated (by simp) c.expr.unended, order]

theorem unended_indexedList (columns : List IndexedColumn) : Unended (indexedList columns) := by
  simp [indexedList, IndexedColumn.unended]

theorem unended_conflict (conflict : Option ConflictAction) : Unended (conflictPieces conflict) := by
  rcases conflict with _ | action
  · simp [conflictPieces]
  · simp [conflictPieces, unended_choice (by decide) action]

theorem ForeignKey.unended (k : ForeignKey) : Unended k.pieces := by
  have action (words : List String) (h : ";" ∉ words) (a : Option ForeignKeyAction) :
      Unended (clause words (a.map Phrase.pieces)) := by
    rcases a with _ | a
    · simp [h]
    · simp [h, unended_choice (by decide) a]
  have deferrability := unended_optional (by decide) k.deferrability
  rw [pieces, Unended, lacks_append, lacks_append, lacks_append, lacks_fixed, lacks_space,
    lacks_name]
  exact ⟨⟨⟨⟨by decide, unended_namesOrNothing k.columns⟩, action _ (by decide) k.onDelete⟩,
    action _ (by decide) k.onUpdate⟩, deferrability⟩

theorem unended_check (condition : Expr) : Unended (checkPieces condition) := by
  simp [checkPieces, condition.unended]

theorem unended_constraintName (name : Option String) : Unended (constraintName name) := by
  cases name <;> simp [constraintName]

theorem DefaultValue.unended (value : DefaultValue) : Unended value.pieces := by
  cases value with
  | literal value => exact value.lacks.unended
  | expr value => simp [pieces]

theorem ColumnRule.unended (rule : ColumnRule) : Unended rule.pieces := by
  cases rule with
  | primaryKey order conflict autoincrement =>
    have order := unended_optional (by decide) order
    simp [pieces, order, unended_conflict]
  | notNull conflict => simp [pieces, unended_conflict]
  | null => simp [pieces]
  | unique conflict => simp [pieces, unended_conflict]
  | check condition => simp [pieces, unended_check]
  | default value => simp [pieces, value.unended]
  | collate collation => simp [pieces]
  | references key => simp [pieces, key.unended]
  | generated value storage =>
    have storage := unended_optional (by decide) storage
    simp [pieces, value.unended, storage]

theorem ColumnConstraint.unended (c : ColumnConstraint) : Unended c.pieces := by
  simp [pieces, unended_constraintName, c.rule.unended]

theorem ColumnDef.unended (c : ColumnDef) : Unended c.pieces := by
  have constraints : Unended (columnConstraintPieces c.constraints) :=
    lacks_flatMap (fun constraint => by simp [constraint.unended]) c.constraints
  have typeName : Unended (spaced (c.typeName.map fun t => [.verbatim t])) := by
    cases c.typeName <;> simp
  simp only [pieces, lacks_append, lacks_name, typeName, constraints, and_self]

theorem TableRule.unended (rule : TableRule) : Unended rule.pieces := by
  cases rule with
  | primaryKey columns conflict => simp [pieces, unended_indexedList, unended_conflict]
  | unique columns conflict => simp [pieces, unended_indexedList, unended_conflict]
  | check condition => simp [pieces, unended_check]
  | foreignKey columns key => simp [pieces, key.unended]

theorem TableConstraint.unended (c : TableConstraint) : Unended c.pieces := by
  simp [pieces, unended_constraintName, c.rule.unended]

theorem TableBody.unended (body : TableBody) : Unended body.pieces := by
  cases body with
  | definitions columns constraints withoutRowid strict =>
    have options : Unended (if withoutRowid || strict
        then .space :: commaSeparated (tableOptions withoutRowid strict) else []) := by
      cases withoutRowid <;> cases strict <;> simp [tableOptions]
    have rest : Unended (constraints.flatMap fun c => .fixed "," :: .space :: c.pieces) :=
      lacks_flatMap (fun constraint => by simp [constraint.unended]) constraints
    have definitions : Unended (definitionPieces columns constraints) :=
      lacks_append.mpr ⟨lacks_listed (by simp) ColumnDef.unended columns, rest⟩
    exact lacks_append.mpr
      ⟨lacks_space.mpr ((lacks_parenthesized (by simp) (by simp)).mpr definitions), options⟩
  | asSelect query => simp [pieces, query.unended]

theorem unended_create {temporary : Bool} {object : List String} {ifNotExists : Bool}
    (h : ";" ∉ object) : Unended (createPieces temporary object ifNotExists) := by
  cases temporary <;> cases ifNotExists <;> simp [createPieces, h]

theorem CreateTable.unended (t : CreateTable) : Unended t.pieces := by
  simp [pieces, unended_create, t.body.unended]

theorem TableChange.unended (change : TableChange) : Unended change.pieces := by
  cases change with
  | addColumn column => simp [pieces, column.unended]
  | _ => simp [pieces]

theorem CreateIndex.unended (i : CreateIndex) : Unended i.pieces := by
  have object : ";" ∉ (if i.unique then ["UNIQUE", "INDEX"] else ["INDEX"]) := by
    cases i.unique <;> decide
  simp [pieces, unended_create object, unended_indexedList, unended_optionBare]

theorem CreateView.unended (v : CreateView) : Unended v.pieces := by
  simp only [pieces, lacks_append, unended_namesOrNothing v.columns]
  simp [unended_create, v.query.unended]

theorem TriggerEvent.unended (event : TriggerEvent) : Unended event.pieces := by
  cases event with
  | updateOf columns =>
    rw [pieces]
    split <;> simp
  | _ => simp [pieces]

theorem TriggerHeader.unended (t : TriggerHeader) : Unended t.pieces := by
  have timing := unended_optional (by decide) t.timing
  simp [pieces, unended_create, timing, t.event.unended, unended_optionBare]

theorem CreateVirtualTable.unended (t : CreateVirtualTable) : Unended t.pieces := by
  have arguments : Unended (if t.arguments.isEmpty then []
      else parenthesized (commaSeparated (t.arguments.map fun a => [.verbatim a]))) := by
    split <;> simp
  simp only [pieces, lacks_append, lacks_space, lacks_fixed, lacks_name, arguments]
  simp [unended_create]

theorem DropObject.unended (d : DropObject) : Unended d.pieces := by
  have kind := unended_choice (by decide) d.kind
  simp [pieces, kind]

/-! ## Changes to rows -/

theorem Assignment.unended (a : Assignment) : Unended a.pieces := by
  obtain ⟨columns, value⟩ := a
  rcases columns with _ | ⟨c, _ | ⟨d, rest⟩⟩ <;> simp [pieces, value.unended]

theorem unended_assignments (assignments : List Assignment) :
    Unended (assignmentPieces assignments) :=
  lacks_listed (by simp) Assignment.unended assignments

theorem UpsertTarget.unended (t : UpsertTarget) : Unended t.pieces := by
  simp [pieces, unended_indexedList, unended_optionBare]

theorem UpsertAction.unended (action : UpsertAction) : Unended action.pieces := by
  cases action with
  | nothing => simp [pieces]
  | update assignments filter => simp [pieces, unended_assignments, unended_optionBare]

theorem Upsert.unended (u : Upsert) : Unended u.pieces := by
  have target : Unended ((u.target.map UpsertTarget.pieces).getD []) := by
    cases u.target with
    | none => simp
    | some t => simp [t.unended]
  simp [pieces, target, u.action.unended]

theorem InsertSource.unended (source : InsertSource) : Unended source.pieces := by
  cases source with
  | values rows => simp [pieces, (lacks_rows (by simp) (rowListPieces_lacks rows)).unended]
  | select query => simp [pieces, query.unended]
  | defaultValues => simp [pieces]

theorem unended_returning (columns : List ResultColumn) : Unended (returningPieces columns) := by
  unfold returningPieces
  split
  · simp
  · simpa using fun ps hps => (columnPieces_lacks columns ps hps).unended

theorem Insert.unended (i : Insert) : Unended i.pieces := by
  have verb := unended_choice (by decide) i.verb
  have asName : Unended (asClause i.asName) := lacks_asClause (by simp) i.asName
  have upserts : Unended (i.upserts.flatMap fun u => .space :: u.pieces) :=
    lacks_flatMap (fun u => by simp [u.unended]) i.upserts
  simp only [pieces, lacks_append, lacks_space, unended_with, verb,
    QualifiedName.unended, asName, unended_namesOrNothing, i.source.unended, upserts,
    unended_returning, and_self]

theorem unended_tail (filter : Option Expr) (returning : List ResultColumn)
    (orderBy : List OrderingTerm) (limit offset : Option Expr) :
    Unended (tailPieces filter returning orderBy limit offset) := by
  have order : Unended (orderByPieces (termPieces orderBy)) :=
    (lacks_orderBy (by simp) (by simp) (termPieces_lacks orderBy)).unended
  simp [tailPieces, unended_optionBare, unended_returning, order]

theorem Update.unended (u : Update) : Unended u.pieces := by
  obtain ⟨withClause, conflict, table, assignments, source, filter, returning, orderBy, limit,
    offset⟩ := u
  have source : Unended ((source.map FromTree.pieces).getD []) := by
    cases source with
    | none => simp
    | some tree => simp [tree.unended]
  rcases conflict with _ | action
  · simp [pieces, unended_with, unended_assignments, source, unended_tail]
  · have word : ";" ∉ Phrase.words action := by cases action <;> decide
    simp [pieces, unended_with, word, unended_assignments, source, unended_tail]

theorem Delete.unended (d : Delete) : Unended d.pieces := by
  simp [pieces, unended_with, unended_tail]

/-! ## Steps -/

mutual

/-- The steps of all triggers in a statement, at any depth. -/
def Statement.stepCount : Statement → Nat
  | .createTrigger _ steps => totalSteps steps
  | .explain _ statement => statement.stepCount
  | .select _ | .insert _ | .update _ | .delete _ | .createTable _ | .createIndex _ | .createView _
  | .createVirtualTable _ | .alterTable _ _ | .drop _ | .begin _ | .commit | .rollback _
  | .savepoint _ | .release _ | .attach _ _ | .detach _ | .vacuum _ _ | .reindex _ | .analyze _ => 0

/-- Some steps and the steps in them. -/
def totalSteps : List Statement → Nat
  | [] => 0
  | step :: rest => 1 + step.stepCount + totalSteps rest

end

theorem count_of_lacks {ps : List Piece} (h : Unended ps) : ps.count (.fixed ";") = 0 :=
  List.count_eq_zero.mpr (h ";" (List.mem_singleton.mpr rfl))

mutual

/-- Every semicolon of the grammar ends a step. -/
theorem Statement.count_semicolon : (s : Statement) → s.pieces.count (.fixed ";") = s.stepCount
  | .select query => count_of_lacks (by simp [Statement.pieces, query.unended])
  | .insert i => count_of_lacks (by simp [Statement.pieces, i.unended])
  | .update u => count_of_lacks (by simp [Statement.pieces, u.unended])
  | .delete d => count_of_lacks (by simp [Statement.pieces, d.unended])
  | .createTable table => count_of_lacks (by simp [Statement.pieces, table.unended])
  | .createIndex index => count_of_lacks (by simp [Statement.pieces, index.unended])
  | .createView view => count_of_lacks (by simp [Statement.pieces, view.unended])
  | .createTrigger header steps => by
    have head := count_of_lacks header.unended
    simp [Statement.pieces, Statement.stepCount, List.count_append, head, stepPieces_count steps]
  | .createVirtualTable table => count_of_lacks (by simp [Statement.pieces, table.unended])
  | .alterTable table change => count_of_lacks (by simp [Statement.pieces, change.unended])
  | .drop object => count_of_lacks (by simp [Statement.pieces, object.unended])
  | .begin mode =>
    count_of_lacks (by simp [Statement.pieces, unended_optional (by decide) mode])
  | .commit => count_of_lacks (by simp [Statement.pieces])
  | .rollback name => count_of_lacks (by cases name <;> simp [Statement.pieces])
  | .savepoint name => count_of_lacks (by simp [Statement.pieces])
  | .release name => count_of_lacks (by simp [Statement.pieces])
  | .attach file schema => count_of_lacks (by simp [Statement.pieces, file.unended])
  | .detach schema => count_of_lacks (by simp [Statement.pieces])
  | .vacuum schema file =>
    count_of_lacks (by cases schema <;> simp [Statement.pieces, unended_optionBare])
  | .reindex target => count_of_lacks (by cases target <;> simp [Statement.pieces])
  | .analyze target => count_of_lacks (by cases target <;> simp [Statement.pieces])
  | .explain queryPlan statement => by
    have words : (phrase (if queryPlan then ["EXPLAIN", "QUERY", "PLAN"] else ["EXPLAIN"])).count
        (.fixed ";") = 0 := count_of_lacks (by cases queryPlan <;> simp)
    simp [Statement.pieces, Statement.stepCount, List.count_append, words,
      statement.count_semicolon]

theorem stepPieces_count : (steps : List Statement) →
    (stepPieces steps).count (.fixed ";") = totalSteps steps
  | [] => rfl
  | step :: rest => by
    have here := step.count_semicolon
    have below := stepPieces_count rest
    rw [stepPieces, List.count_append, List.count_cons_self, List.count_cons_of_ne (by simp), here,
      below, totalSteps]
    omega

end

end SqliteSyntax
