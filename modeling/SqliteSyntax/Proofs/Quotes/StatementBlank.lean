import SqliteSyntax.Proofs.Quotes.BlankText
import SqliteSyntax.Proofs.Quotes.StatementContents
import SqliteSyntax.Statement.Render

/-! # The text of a blank statement

`Statement.pieces_blank`: the text of the blank statement is the blank text of the statement. -/
namespace SqliteSyntax
set_option autoImplicit false

/-! ## Schema objects -/

theorem blankText_optionBare (item : Option Expr) :
    (item.map Expr.bare).map blankText = (blankOption item).map Expr.bare := by
  cases item with
  | none => rfl
  | some e => simp [e.bare_blank, blankOption]

theorem blankText_phraseOption {α : Type} [Phrase α] (a : Option α) :
    (a.map Phrase.pieces).map blankText = a.map Phrase.pieces := by
  cases a <;> simp

theorem blankText_listed {α : Type} {f : α → List Piece} {g : α → α}
    (h : ∀ a, blankText (f a) = f (g a)) (items : List α) :
    blankText (commaSeparated (items.map f)) = commaSeparated ((items.map g).map f) := by
  rw [blankText_commaSeparated, List.map_map, List.map_map]
  exact congrArg commaSeparated (List.map_congr_left fun a _ => h a)

theorem blankText_flatMap {α : Type} {f : α → List Piece} {g : α → α}
    (h : ∀ a, blankText (f a) = f (g a)) (items : List α) :
    blankText (items.flatMap f) = (items.map g).flatMap f := by
  induction items with
  | nil => rfl
  | cons a rest ih =>
    rw [List.flatMap_cons, List.map_cons, List.flatMap_cons, blankText_append, h, ih]

theorem blankText_onlyIf (condition : Bool) (ps : List Piece) :
    blankText (onlyIf condition ps) = onlyIf condition (blankText ps) := by
  cases condition <;> rfl

theorem blankText_namesOrNothing (names : List String) :
    blankText (if names.isEmpty then [] else .space :: nameList names) =
      if (noNames names).isEmpty then [] else .space :: nameList (noNames names) := by
  cases names with
  | nil => rfl
  | cons n rest =>
    have heq := blankText_nameList (n :: rest)
    simp only [List.isEmpty_cons, noNames, List.map_cons, Bool.false_eq_true, if_false,
      blankText_cons, Piece.blank] at heq ⊢
    rw [heq]

theorem IndexedColumn.pieces_blank (c : IndexedColumn) : blankText c.pieces = c.blank.pieces := by
  simp [pieces, blank, collatedPieces_blank, c.expr.bare_blank]

theorem blankText_indexedList (columns : List IndexedColumn) :
    blankText (indexedList columns) = indexedList (columns.map IndexedColumn.blank) := by
  rw [indexedList, blankText_parenthesized, blankText_listed IndexedColumn.pieces_blank, indexedList]

theorem ForeignKey.pieces_blank (k : ForeignKey) : blankText k.pieces = k.blank.pieces := by
  rw [pieces, blankText_append, blankText_append, blankText_append, blankText_cons, blankText_cons,
    blankText_cons, blankText_namesOrNothing, blankText_clause, blankText_clause,
    blankText_phraseOption, blankText_phraseOption, blankText_optional]
  rfl

theorem DefaultValue.pieces_blank (value : DefaultValue) :
    blankText value.pieces = value.blank.pieces := by
  cases value with
  | literal value => simp [pieces, blank]
  | expr value => simp [pieces, blank, value.bare_blank]

theorem blankText_conflict (conflict : Option ConflictAction) :
    blankText (conflictPieces conflict) = conflictPieces conflict := by
  rw [conflictPieces, blankText_clause, blankText_phraseOption]

theorem ColumnRule.pieces_blank (rule : ColumnRule) : blankText rule.pieces = rule.blank.pieces := by
  cases rule with
  | primaryKey order conflict autoincrement =>
    simp [pieces, blank, blankText_conflict, blankText_onlyIf, Piece.blank]
  | notNull conflict => simp [pieces, blank, blankText_conflict]
  | null => rfl
  | unique conflict => simp [pieces, blank, blankText_conflict, Piece.blank]
  | check condition => simp [pieces, blank, checkPieces, condition.bare_blank, Piece.blank]
  | default value => simp [pieces, blank, value.pieces_blank, Piece.blank]
  | collate collation => rfl
  | references key => simp [pieces, blank, key.pieces_blank]
  | generated value storage => simp [pieces, blank, value.bare_blank, Piece.blank]

theorem blankText_constraintName (name : Option String) :
    blankText (constraintName name) = constraintName (noName name) := by
  cases name <;> rfl

theorem ColumnConstraint.pieces_blank (c : ColumnConstraint) :
    blankText c.pieces = c.blank.pieces := by
  rw [pieces, blankText_append, blankText_constraintName, c.rule.pieces_blank]
  rfl

theorem ColumnDef.pieces_blank (c : ColumnDef) : blankText c.pieces = c.blank.pieces := by
  have one : ∀ c : ColumnConstraint, blankText (.space :: c.pieces) = .space :: c.blank.pieces := by
    intro c
    rw [blankText_cons, c.pieces_blank]
    rfl
  have constraints : blankText (columnConstraintPieces c.constraints) =
      columnConstraintPieces (c.constraints.map ColumnConstraint.blank) :=
    blankText_flatMap one c.constraints
  have typeName : blankText (spaced (c.typeName.map fun t => [.verbatim t])) =
      spaced (c.typeName.map fun t => [.verbatim t]) := by
    cases c.typeName <;> rfl
  rw [pieces, blankText_append, blankText_cons, constraints, typeName]
  rfl

theorem TableRule.pieces_blank (rule : TableRule) : blankText rule.pieces = rule.blank.pieces := by
  cases rule with
  | primaryKey columns conflict =>
    simp [pieces, blank, blankText_conflict, blankText_indexedList, Piece.blank]
  | unique columns conflict =>
    simp [pieces, blank, blankText_conflict, blankText_indexedList, Piece.blank]
  | check condition => simp [pieces, blank, checkPieces, condition.bare_blank, Piece.blank]
  | foreignKey columns key => simp [pieces, blank, key.pieces_blank, Piece.blank]

theorem TableConstraint.pieces_blank (c : TableConstraint) :
    blankText c.pieces = c.blank.pieces := by
  rw [pieces, blankText_append, blankText_constraintName, c.rule.pieces_blank]
  rfl

theorem TableBody.pieces_blank (b : TableBody) : blankText b.pieces = b.blank.pieces := by
  cases b with
  | definitions columns constraints withoutRowid strict =>
    have options : blankText (if withoutRowid || strict
        then .space :: commaSeparated (tableOptions withoutRowid strict) else []) =
        (if withoutRowid || strict
          then .space :: commaSeparated (tableOptions withoutRowid strict) else []) := by
      cases withoutRowid <;> cases strict <;> rfl
    have one : ∀ c : TableConstraint, blankText (.fixed "," :: .space :: c.pieces) =
        .fixed "," :: .space :: c.blank.pieces := by
      intro c
      rw [blankText_cons, blankText_cons, c.pieces_blank]
      rfl
    have constraints : blankText (constraints.flatMap fun c => .fixed "," :: .space :: c.pieces) =
        (constraints.map TableConstraint.blank).flatMap fun c => .fixed "," :: .space :: c.pieces :=
      blankText_flatMap one constraints
    rw [pieces, blankText_append, blankText_cons, blankText_parenthesized, options,
      definitionPieces, blankText_append, constraints, blankText_listed ColumnDef.pieces_blank]
    rfl
  | asSelect query => simp [pieces, blank, query.pieces_blank]

theorem blankText_create (temporary : Bool) (object : List String) (ifNotExists : Bool) :
    blankText (createPieces temporary object ifNotExists) =
      createPieces temporary object ifNotExists := by
  simp [createPieces, Piece.blank]

theorem CreateTable.pieces_blank (t : CreateTable) : blankText t.pieces = t.blank.pieces := by
  simp [pieces, blank, blankText_create, t.body.pieces_blank]

theorem TableChange.pieces_blank (change : TableChange) :
    blankText change.pieces = change.blank.pieces := by
  cases change with
  | addColumn column => simp [pieces, blank, column.pieces_blank, Piece.blank]
  | _ => rfl

theorem CreateIndex.pieces_blank (i : CreateIndex) : blankText i.pieces = i.blank.pieces := by
  simp only [pieces, blankText_append, blankText_create, QualifiedName.pieces_blank,
    blankText_cons, blankText_indexedList, blankText_clause, blankText_optionBare]
  rfl

theorem CreateView.pieces_blank (v : CreateView) : blankText v.pieces = v.blank.pieces := by
  rw [pieces, blankText_append, blankText_append, blankText_append, blankText_create,
    blankText_namesOrNothing, v.name.pieces_blank, blankText_clause, Option.map_some,
    v.query.pieces_blank]
  rfl

theorem TriggerEvent.pieces_blank (event : TriggerEvent) :
    blankText event.pieces = event.blank.pieces := by
  cases event with
  | updateOf columns =>
    cases columns with
    | nil => rfl
    | cons c rest =>
      have listed := blankText_listed (f := fun c => [.name c]) (g := fun _ => "") (fun _ => rfl)
        (c :: rest)
      rw [pieces, if_neg (by simp), blankText_append, blankText_phrase, blankText_cons, listed]
      rfl
  | _ => rfl

theorem TriggerHeader.pieces_blank (t : TriggerHeader) : blankText t.pieces = t.blank.pieces := by
  simp only [pieces, blank, blankText_append, blankText_create, QualifiedName.pieces_blank,
    blankText_optional, blankText_cons, t.event.pieces_blank, blankText_onlyIf, blankText_phrase,
    blankText_clause, blankText_optionBare, Piece.blank]

theorem CreateVirtualTable.pieces_blank (t : CreateVirtualTable) :
    blankText t.pieces = t.blank.pieces := by
  have arguments : blankText (if t.arguments.isEmpty then []
      else parenthesized (commaSeparated (t.arguments.map fun a => [.verbatim a]))) =
      (if t.arguments.isEmpty then []
        else parenthesized (commaSeparated (t.arguments.map fun a => [.verbatim a]))) := by
    split
    · rfl
    · rw [blankText_parenthesized, blankText_listed (g := id) (fun _ => rfl), List.map_id]
  rw [pieces, blankText_append, blankText_append, blankText_create, t.name.pieces_blank,
    blankText_cons, blankText_cons, blankText_cons, blankText_cons, arguments]
  rfl

theorem DropObject.pieces_blank (d : DropObject) : blankText d.pieces = d.blank.pieces := by
  simp [pieces, blank, blankText_onlyIf, Piece.blank]

/-! ## Changes to rows -/

theorem Assignment.pieces_blank (a : Assignment) : blankText a.pieces = a.blank.pieces := by
  obtain ⟨columns, value⟩ := a
  rcases columns with _ | ⟨c, _ | ⟨d, rest⟩⟩
  · simp [pieces, blank, noNames, value.bare_blank, Piece.blank]
  · simp [pieces, blank, noNames, value.bare_blank, Piece.blank]
  · simp [pieces, blank, noNames, value.bare_blank, Piece.blank]

theorem blankText_assignments (assignments : List Assignment) :
    blankText (assignmentPieces assignments) =
      assignmentPieces (assignments.map Assignment.blank) :=
  blankText_listed Assignment.pieces_blank assignments

theorem UpsertTarget.pieces_blank (t : UpsertTarget) : blankText t.pieces = t.blank.pieces := by
  simp only [pieces, blank, blankText_append, blankText_indexedList, blankText_clause,
    blankText_optionBare]

theorem Upsert.pieces_blank (u : Upsert) : blankText u.pieces = u.blank.pieces := by
  have action : blankText u.action.pieces = u.action.blank.pieces := by
    cases u.action with
    | nothing => rfl
    | update assignments filter =>
      simp only [UpsertAction.pieces, UpsertAction.blank, blankText_append, blankText_phrase,
        blankText_cons, blankText_assignments, blankText_clause, blankText_optionBare, Piece.blank]
  have target : blankText (spaced (u.target.map UpsertTarget.pieces)) =
      spaced ((u.target.map UpsertTarget.blank).map UpsertTarget.pieces) := by
    cases u.target with
    | none => rfl
    | some t => simp [t.pieces_blank]
  rw [pieces, blankText_append, blankText_append, blankText_phrase, blankText_cons, target, action]
  rfl

theorem InsertSource.pieces_blank (source : InsertSource) :
    blankText source.pieces = source.blank.pieces := by
  cases source with
  | values rows => simp [pieces, blank, rowListPieces_blank rows, Piece.blank]
  | select query => simp [pieces, blank, query.pieces_blank]
  | defaultValues => rfl

theorem blankText_returning (columns : List ResultColumn) :
    blankText (returningPieces columns) = returningPieces (blankColumns columns) := by
  have heq := columnPieces_blank columns
  rcases columns with _ | ⟨c, rest⟩
  · rfl
  · have hne : (blankColumns (c :: rest)).isEmpty = false := by cases c <;> rfl
    rw [returningPieces, returningPieces, hne, ← heq]
    simp

theorem Insert.pieces_blank (i : Insert) : blankText i.pieces = i.blank.pieces := by
  have one : ∀ u : Upsert, blankText (.space :: u.pieces) = .space :: u.blank.pieces := by
    intro u
    rw [blankText_cons, u.pieces_blank]
    rfl
  have upserts : blankText (i.upserts.flatMap fun u => .space :: u.pieces) =
      (i.upserts.map Upsert.blank).flatMap fun u => .space :: u.pieces :=
    blankText_flatMap one i.upserts
  rw [pieces, blankText_append, blankText_append, blankText_append, blankText_append,
    blankText_append, blankText_append, blankText_append, withPieces_blank, blankText_choice,
    blankText_cons, i.table.pieces_blank, blankText_asClause, blankText_namesOrNothing,
    blankText_cons, i.source.pieces_blank, upserts, blankText_returning]
  rfl

theorem blankText_tail (filter : Option Expr) (returning : List ResultColumn)
    (orderBy : List OrderingTerm) (limit offset : Option Expr) :
    blankText (tailPieces filter returning orderBy limit offset) =
      tailPieces (blankOption filter) (blankColumns returning) (blankTerms orderBy)
        (blankOption limit) (blankOption offset) := by
  simp only [tailPieces, blankText_append, blankText_clause, blankText_optionBare,
    blankText_returning, blankText_orderBy, termPieces_blank]

theorem Update.pieces_blank (u : Update) : blankText u.pieces = u.blank.pieces := by
  have source : blankText (clause ["FROM"] (u.source.map FromTree.pieces)) =
      clause ["FROM"] ((blankSource u.source).map FromTree.pieces) := by
    cases u.source with
    | none => rfl
    | some tree => simp [tree.pieces_blank, blankSource]
  rw [pieces, blankText_append, blankText_append, blankText_append, blankText_append,
    blankText_append, blankText_cons, withPieces_blank, blankText_phrase, u.table.pieces_blank,
    blankText_clause, Option.map_some, blankText_assignments, source, blankText_tail]
  rfl

theorem Delete.pieces_blank (d : Delete) : blankText d.pieces = d.blank.pieces := by
  rw [pieces, blankText_append, blankText_append, blankText_append, blankText_cons,
    withPieces_blank, blankText_phrase, d.table.pieces_blank, blankText_tail]
  rfl

/-! ## All statements -/

mutual

theorem Statement.pieces_blank : (s : Statement) → blankText s.pieces = s.blank.pieces
  | .select query => by simp [Statement.pieces, Statement.blank, query.pieces_blank]
  | .insert i => by simp [Statement.pieces, Statement.blank, i.pieces_blank]
  | .update u => by simp [Statement.pieces, Statement.blank, u.pieces_blank]
  | .delete d => by simp [Statement.pieces, Statement.blank, d.pieces_blank]
  | .createTable table => by simp [Statement.pieces, Statement.blank, table.pieces_blank]
  | .createIndex index => by simp [Statement.pieces, Statement.blank, index.pieces_blank]
  | .createView view => by simp [Statement.pieces, Statement.blank, view.pieces_blank]
  | .createTrigger header steps => by
    simp [Statement.pieces, Statement.blank, header.pieces_blank, stepPieces_blank steps,
      Piece.blank]
  | .createVirtualTable table => by
    simp [Statement.pieces, Statement.blank, table.pieces_blank]
  | .alterTable table change => by
    simp [Statement.pieces, Statement.blank, change.pieces_blank, Piece.blank]
  | .drop object => by simp [Statement.pieces, Statement.blank, object.pieces_blank]
  | .begin mode => by simp [Statement.pieces, Statement.blank, Piece.blank]
  | .commit => rfl
  | .rollback name => by cases name <;> rfl
  | .savepoint name => rfl
  | .release name => rfl
  | .attach file schema => by
    simp [Statement.pieces, Statement.blank, file.bare_blank, Piece.blank]
  | .detach schema => rfl
  | .vacuum schema file => by
    have file := blankText_optionBare file
    cases schema <;> simp only [Statement.pieces, Statement.blank, blankText_append, blankText_cons,
      blankText_spaced, blankText_clause, file, noName, Option.map_some, Option.map_none,
      blankText_nil, Piece.blank]
  | .reindex target => by
    cases target <;> simp [Statement.pieces, Statement.blank, Piece.blank]
  | .analyze target => by
    cases target <;> simp [Statement.pieces, Statement.blank, Piece.blank]
  | .explain queryPlan statement => by
    simp [Statement.pieces, Statement.blank, statement.pieces_blank, Piece.blank]

theorem stepPieces_blank : (steps : List Statement) →
    blankText (stepPieces steps) = stepPieces (blankSteps steps)
  | [] => rfl
  | step :: rest => by
    simp [stepPieces, blankSteps, step.pieces_blank, stepPieces_blank rest, Piece.blank]

end

end SqliteSyntax
