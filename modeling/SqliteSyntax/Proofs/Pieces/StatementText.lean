import SqliteSyntax.Proofs.Pieces.Rendered
import SqliteSyntax.Statement.Render

/-! # Statements have tidy text

`Statement.tidy`, from the same fact about the parts of schema objects and of changes to rows. -/
namespace SqliteSyntax
set_option autoImplicit false

/-! ## Phrases -/

theorem ConflictAction.tidy (action : ConflictAction) : Tidy (Phrase.pieces action) :=
  .phrase (by cases action <;> decide)

theorem InsertVerb.tidy (verb : InsertVerb) : Tidy (Phrase.pieces verb) := by
  refine .phrase ?_
  rcases verb with _ | _ | action
  · decide
  · decide
  · cases action <;> decide

theorem ForeignKeyAction.tidy (action : ForeignKeyAction) : Tidy (Phrase.pieces action) :=
  .phrase (by cases action <;> decide)

theorem Deferrability.tidy (d : Deferrability) : Tidy (Phrase.pieces d) :=
  .phrase (by rcases d with _ | (_ | (_ | _)) <;> decide)

theorem GeneratedStorage.tidy (storage : GeneratedStorage) : Tidy (Phrase.pieces storage) :=
  .phrase (by cases storage <;> decide)

theorem TriggerTiming.tidy (timing : TriggerTiming) : Tidy (Phrase.pieces timing) :=
  .phrase (by cases timing <;> decide)

theorem ObjectKind.tidy (kind : ObjectKind) : Tidy (Phrase.pieces kind) :=
  .phrase (by cases kind <;> decide)

theorem TransactionMode.tidy (mode : TransactionMode) : Tidy (Phrase.pieces mode) :=
  .phrase (by cases mode <;> decide)

/-! ## Optional parts -/

/-- A clause that shows an optional value. -/
theorem Trailing.clauseOf {α : Type} {words : List String} {f : α → List Piece}
    (hw : ∀ w ∈ words, (Piece.fixed w).standsAlone = true) (hf : ∀ a, Tidy (f a)) (a : Option α) :
    Trailing (SqliteSyntax.clause words (a.map f)) := by
  refine .clause hw fun ps hps => ?_
  obtain ⟨x, -, rfl⟩ := Option.map_eq_some_iff.mp hps
  exact hf x

/-- An optional value after a space. -/
theorem Trailing.spacedOf {α : Type} {f : α → List Piece} (hf : ∀ a, Tidy (f a)) (a : Option α) :
    Trailing (SqliteSyntax.spaced (a.map f)) := by
  refine .spaced fun ps hps => ?_
  obtain ⟨x, -, rfl⟩ := Option.map_eq_some_iff.mp hps
  exact hf x

/-- Parts that each stand after a comma. -/
theorem Tidy.listedAfter {α : Type} {f : α → List Piece} {items : List α}
    (hf : ∀ a ∈ items, Tidy (f a)) {ps : List Piece} (h : Tidy ps) :
    Tidy (ps ++ items.flatMap fun a => .fixed "," :: .space :: f a) := by
  induction items generalizing ps with
  | nil =>
    rw [List.flatMap_nil, List.append_nil]
    exact h
  | cons a rest ih =>
    have next := h.listed (hf a (List.mem_cons_self ..))
    have := ih (fun b hb => hf b (List.mem_cons_of_mem a hb)) next
    simpa using this

theorem Tidy.commaSeparatedOf {α : Type} {f : α → List Piece} {items : List α}
    (hf : ∀ a, Tidy (f a)) : Tidy (SqliteSyntax.commaSeparated (items.map f)) := by
  refine .commaSeparated fun ps hps => ?_
  obtain ⟨a, -, rfl⟩ := List.mem_map.mp hps
  exact hf a

theorem Leading.create (temporary : Bool) {object : List String} (ifNotExists : Bool)
    (h : ∀ w ∈ object, (Piece.fixed w).standsAlone = true) :
    Leading (createPieces temporary object ifNotExists) := by
  have front : ∀ w ∈ "CREATE" :: (if temporary then ["TEMP"] else []),
      (Piece.fixed w).standsAlone = true := by
    cases temporary <;> decide
  have back : ∀ w ∈ (if ifNotExists then ["IF", "NOT", "EXISTS"] else []),
      (Piece.fixed w).standsAlone = true := by
    cases ifNotExists <;> decide
  refine Tidy.leading (.phrase fun w hw => ?_)
  rcases List.mem_append.mp hw with hw | hw
  · rcases List.mem_append.mp hw with hw | hw
    · exact front w hw
    · exact h w hw
  · exact back w hw

/-! ## Schema objects -/

theorem IndexedColumn.tidy (c : IndexedColumn) : Tidy c.pieces :=
  (c.expr.tidy.collated (e := c.expr) c.collation).append (.choice SortOrder.tidy c.order)

theorem Tidy.indexedList (columns : List IndexedColumn) : Tidy (indexedList columns) :=
  .parenthesized (.commaSeparatedOf IndexedColumn.tidy)

theorem Trailing.conflict (conflict : Option ConflictAction) : Trailing (conflictPieces conflict) :=
  .clauseOf (by decide) ConflictAction.tidy conflict

theorem ForeignKey.tidy (k : ForeignKey) : Tidy k.pieces := by
  have head := (Tidy.word (t := "REFERENCES") (by decide)).append (Tidy.name k.table).trailing
  have columns : Trailing (if k.columns.isEmpty then [] else .space :: nameList k.columns) := by
    split
    · exact .nil
    · exact (Tidy.nameList k.columns).trailing
  exact (((head.append columns).append (.clauseOf (by decide) ForeignKeyAction.tidy k.onDelete)).append
    (.clauseOf (by decide) ForeignKeyAction.tidy k.onUpdate)).append
    (.choice Deferrability.tidy k.deferrability)

theorem Tidy.check (condition : Expr) : Tidy (checkPieces condition) :=
  .spaced (.word (by decide)) condition.tidy.parenthesized

theorem Leading.constraintName (name : Option String) : Leading (constraintName name) := by
  cases name with
  | none => exact Or.inl rfl
  | some n => exact (Tidy.spaced (.word (by decide)) (.name n)).leading

theorem DefaultValue.tidy (value : DefaultValue) : Tidy value.pieces := by
  cases value with
  | literal value => exact value.tidy
  | expr value => exact value.tidy.parenthesized

theorem ColumnRule.tidy (rule : ColumnRule) : Tidy rule.pieces := by
  cases rule with
  | primaryKey order conflict autoincrement =>
    have words : Tidy (phrase ["PRIMARY", "KEY"]) := .phrase (by decide)
    exact ((words.append (.choice SortOrder.tidy order)).append (.conflict conflict)).append
      (.onlyIf autoincrement (Tidy.word (by decide)).trailing)
  | notNull conflict => exact (Tidy.phrase (by decide)).append (.conflict conflict)
  | null => exact .word (by decide)
  | unique conflict => exact (Tidy.word (by decide)).append (.conflict conflict)
  | check condition => exact .check condition
  | default value => exact .spaced (.word (by decide)) value.tidy
  | collate collation => exact .spaced (.word (by decide)) (.name collation)
  | references key => exact key.tidy
  | generated value storage =>
    have words : Tidy (phrase ["GENERATED", "ALWAYS", "AS"]) := .phrase (by decide)
    exact (words.append value.tidy.parenthesized.trailing).append
      (.choice GeneratedStorage.tidy storage)

theorem ColumnConstraint.tidy (c : ColumnConstraint) : Tidy c.pieces :=
  (Leading.constraintName c.name).append c.rule.tidy

theorem ColumnDef.tidy (c : ColumnDef) : Tidy c.pieces :=
  ((Tidy.name c.name).append (.spacedOf Tidy.verbatim c.typeName)).append
    (.flatMap fun constraint _ => constraint.tidy)

theorem TableRule.tidy (rule : TableRule) : Tidy rule.pieces := by
  cases rule with
  | primaryKey columns conflict =>
    have words : Tidy (phrase ["PRIMARY", "KEY"]) := .phrase (by decide)
    exact (words.append (Tidy.indexedList columns).trailing).append (.conflict conflict)
  | unique columns conflict =>
    have word : Tidy [.fixed "UNIQUE"] := .word (by decide)
    exact (word.append (Tidy.indexedList columns).trailing).append (.conflict conflict)
  | check condition => exact .check condition
  | foreignKey columns key =>
    have words : Tidy (phrase ["FOREIGN", "KEY"]) := .phrase (by decide)
    exact (words.append (Tidy.nameList columns).trailing).append key.tidy.trailing

theorem TableConstraint.tidy (c : TableConstraint) : Tidy c.pieces :=
  (Leading.constraintName c.name).append c.rule.tidy

theorem TableBody.trailing (body : TableBody) : Trailing body.pieces := by
  cases body with
  | definitions columns constraints withoutRowid strict =>
    have parts : Tidy (definitionPieces columns constraints) :=
      .listedAfter (fun c _ => c.tidy) (.commaSeparatedOf ColumnDef.tidy)
    refine (Tidy.parenthesized parts).trailing.append ?_
    split
    · refine Tidy.trailing (.commaSeparated fun ps hps => ?_)
      unfold tableOptions at hps
      rcases List.mem_append.mp hps with h | h
      · split at h
        · cases List.mem_singleton.mp h
          exact .phrase (by decide)
        · exact absurd h List.not_mem_nil
      · split at h
        · cases List.mem_singleton.mp h
          exact .word (by decide)
        · exact absurd h List.not_mem_nil
    · exact .nil
  | asSelect query =>
    refine .clause (by decide) fun ps hps => ?_
    cases hps
    exact query.tidy

theorem CreateTable.tidy (t : CreateTable) : Tidy t.pieces := by
  unfold CreateTable.pieces
  rw [List.append_assoc]
  exact (Leading.create t.temporary t.ifNotExists (by decide)).append
    (t.name.tidy.append t.body.trailing)

theorem TableChange.tidy (change : TableChange) : Tidy change.pieces := by
  cases change with
  | renameTo name => exact (Tidy.phrase (by decide)).append (Tidy.name name).trailing
  | renameColumn column name =>
    exact (Tidy.phrase (by decide)).append
      (Tidy.spaced (.name column) (.spaced (.word (by decide)) (.name name))).trailing
  | addColumn column => exact (Tidy.phrase (by decide)).append column.tidy.trailing
  | dropColumn column => exact (Tidy.phrase (by decide)).append (Tidy.name column).trailing

theorem CreateIndex.tidy (i : CreateIndex) : Tidy i.pieces := by
  have front : Leading (createPieces false (if i.unique then ["UNIQUE", "INDEX"] else ["INDEX"])
      i.ifNotExists) := .create false i.ifNotExists (by cases i.unique <;> decide)
  have table : Tidy [.fixed "ON", .space, .name i.table] := .spaced (.word (by decide)) (.name _)
  have columns := (Tidy.indexedList i.columns).trailing
  have filter : Trailing (clause ["WHERE"] (i.filter.map Expr.bare)) :=
    .clauseOf (by decide) Expr.tidy i.filter
  have whole := front.append ((i.name.tidy.append (table.trailing.append columns)).append filter)
  simpa [CreateIndex.pieces] using whole

theorem CreateView.tidy (v : CreateView) : Tidy v.pieces := by
  have front : Leading (createPieces v.temporary ["VIEW"] v.ifNotExists) :=
    .create v.temporary v.ifNotExists (by decide)
  have columns : Trailing (if v.columns.isEmpty then [] else .space :: nameList v.columns) := by
    split
    · exact .nil
    · exact (Tidy.nameList v.columns).trailing
  have query : Trailing (clause ["AS"] (some v.query.pieces)) := by
    refine .clause (by decide) fun ps hps => ?_
    cases hps
    exact v.query.tidy
  have whole := front.append ((v.name.tidy.append columns).append query)
  simpa [CreateView.pieces] using whole

theorem TriggerEvent.tidy (event : TriggerEvent) : Tidy event.pieces := by
  cases event with
  | delete => exact .word (by decide)
  | insert => exact .word (by decide)
  | update => exact .word (by decide)
  | updateOf columns =>
    have words : Tidy (phrase ["UPDATE", "OF"]) := .phrase (by decide)
    rw [TriggerEvent.pieces]
    split
    · exact .word (by decide)
    · exact words.append (Tidy.commaSeparatedOf Tidy.name).trailing

theorem TriggerHeader.tidy (t : TriggerHeader) : Tidy t.pieces := by
  have front : Leading (createPieces t.temporary ["TRIGGER"] t.ifNotExists) :=
    .create t.temporary t.ifNotExists (by decide)
  have table : Tidy [.fixed "ON", .space, .name t.table] := .spaced (.word (by decide)) (.name _)
  have rows : Trailing (onlyIf t.forEachRow (.space :: phrase ["FOR", "EACH", "ROW"])) :=
    .onlyIf _ (Tidy.phrase (by decide)).trailing
  have head := (t.name.tidy.append (.choice TriggerTiming.tidy t.timing)).append
    (t.event.tidy.trailing.append table.trailing)
  have condition : Trailing (clause ["WHEN"] (t.condition.map Expr.bare)) :=
    .clauseOf (by decide) Expr.tidy t.condition
  have whole := front.append ((head.append rows).append condition)
  simpa [TriggerHeader.pieces] using whole

theorem CreateVirtualTable.tidy (t : CreateVirtualTable) : Tidy t.pieces := by
  have front : Leading (createPieces false ["VIRTUAL", "TABLE"] t.ifNotExists) :=
    .create false t.ifNotExists (by decide)
  have module : Tidy (.name t.moduleName :: (if t.arguments.isEmpty then []
      else parenthesized (commaSeparated (t.arguments.map fun a => [.verbatim a])))) := by
    split
    · exact .name _
    · exact .called rfl (.commaSeparatedOf Tidy.verbatim)
  have usingModule : Trailing (.space :: .fixed "USING" :: .space :: .name t.moduleName ::
      (if t.arguments.isEmpty then []
        else parenthesized (commaSeparated (t.arguments.map fun a => [.verbatim a])))) :=
    (Tidy.spaced (a := [.fixed "USING"]) (.word (by decide)) module).trailing
  have whole := front.append (t.name.tidy.append usingModule)
  rw [← List.append_assoc] at whole
  exact whole

theorem DropObject.tidy (d : DropObject) : Tidy d.pieces := by
  have lenient : Trailing (onlyIf d.ifExists (.space :: phrase ["IF", "EXISTS"])) :=
    .onlyIf _ (Tidy.phrase (by decide)).trailing
  have head : Tidy (.fixed "DROP" :: .space :: Phrase.pieces d.kind) :=
    .spaced (a := [.fixed "DROP"]) (.word (by decide)) d.kind.tidy
  exact (head.append lenient).append d.name.tidy.trailing

/-! ## Changes to rows -/

theorem Assignment.tidy (a : Assignment) : Tidy a.pieces := by
  have value : Trailing (.space :: .fixed "=" :: .space :: a.value.bare) :=
    (Tidy.spaced (a := [.fixed "="]) (.one (by decide)) a.value.tidy).trailing
  unfold Assignment.pieces
  split
  · exact (Tidy.name _).append value
  · exact (Tidy.nameList _).append value

theorem Tidy.assignments (assignments : List Assignment) : Tidy (assignmentPieces assignments) :=
  .commaSeparatedOf Assignment.tidy

theorem Trailing.filter (filter : Option Expr) :
    Trailing (SqliteSyntax.clause ["WHERE"] (filter.map Expr.bare)) :=
  .clauseOf (by decide) Expr.tidy filter

theorem UpsertTarget.tidy (t : UpsertTarget) : Tidy t.pieces :=
  (Tidy.indexedList t.columns).append (.filter t.filter)

theorem UpsertAction.tidy (action : UpsertAction) : Tidy action.pieces := by
  cases action with
  | nothing => exact .phrase (by decide)
  | update assignments filter =>
    have words : Tidy (phrase ["DO", "UPDATE", "SET"]) := .phrase (by decide)
    exact (words.append (Tidy.assignments assignments).trailing).append (.filter filter)

theorem Upsert.tidy (u : Upsert) : Tidy u.pieces := by
  have words : Tidy (phrase ["ON", "CONFLICT"]) := .phrase (by decide)
  exact (words.append (.spacedOf UpsertTarget.tidy u.target)).append u.action.tidy.trailing

theorem InsertSource.tidy (source : InsertSource) : Tidy source.pieces := by
  cases source with
  | values rows => exact .spaced (.word (by decide)) (.rows (rowListPieces_tidy rows))
  | select query => exact query.tidy
  | defaultValues => exact .phrase (by decide)

theorem Trailing.returning (columns : List ResultColumn) : Trailing (returningPieces columns) := by
  unfold returningPieces
  split
  · exact .nil
  · refine .clause (by decide) fun ps hps => ?_
    cases hps
    exact .commaSeparated (columnPieces_tidy columns)

theorem Insert.tidy (i : Insert) : Tidy i.pieces := by
  have front := withPieces_leading i.withClause
  have columns : Trailing (if i.columns.isEmpty then [] else .space :: nameList i.columns) := by
    split
    · exact .nil
    · exact (Tidy.nameList i.columns).trailing
  have target := ((front.append i.verb.tidy).append i.table.tidy.trailing).append
    (.asClause i.asName)
  have rows := (target.append columns).append i.source.tidy.trailing
  exact (rows.append (.flatMap fun u _ => u.tidy)).append (.returning i.returning)

theorem Trailing.tail (filter : Option Expr) (returning : List ResultColumn)
    (orderBy : List OrderingTerm) (limit offset : Option Expr) :
    Trailing (tailPieces filter returning orderBy limit offset) :=
  ((((Trailing.filter filter).append (.returning returning)).append
    (.orderBy (termPieces_tidy orderBy))).append (.clauseOf (by decide) Expr.tidy limit)).append
    (.clauseOf (by decide) Expr.tidy offset)

theorem Update.tidy (u : Update) : Tidy u.pieces := by
  have front := withPieces_leading u.withClause
  have assignments : Trailing (clause ["SET"] (some (assignmentPieces u.assignments))) := by
    refine .clause (by decide) fun ps hps => ?_
    cases hps
    exact .assignments _
  have action : ∀ action : ConflictAction, ∀ w ∈ ["UPDATE", "OR"] ++ Phrase.words action,
      (Piece.fixed w).standsAlone = true := by
    rintro (_ | _ | _ | _ | _) <;> decide
  unfold Update.pieces
  refine (Tidy.append ?_ (.clauseOf (by decide) FromTree.tidy u.source)).append
    (.tail u.filter u.returning u.orderBy u.limit u.offset)
  refine Tidy.append (Tidy.append (front.append (.phrase ?_)) u.table.tidy.trailing) assignments
  split
  · decide
  · exact action _

theorem Delete.tidy (d : Delete) : Tidy d.pieces := by
  have front := withPieces_leading d.withClause
  have words : Tidy (phrase ["DELETE", "FROM"]) := .phrase (by decide)
  exact ((front.append words).append d.table.tidy.trailing).append
    (.tail d.filter d.returning d.orderBy d.limit d.offset)

/-! ## All statements -/

mutual

theorem Statement.tidy : (s : Statement) → Tidy s.pieces
  | .select query => query.tidy
  | .insert i => i.tidy
  | .update u => u.tidy
  | .delete d => d.tidy
  | .createTable table => table.tidy
  | .createIndex index => index.tidy
  | .createView view => view.tidy
  | .createTrigger header steps => by
    have opening := header.tidy.append (Tidy.word (t := "BEGIN") (by decide)).trailing
    have whole := opening.append (steps_tidy steps).trailing
    rw [Statement.pieces]
    simpa using whole
  | .createVirtualTable table => table.tidy
  | .alterTable table change => by
    have words : Tidy (phrase ["ALTER", "TABLE"]) := .phrase (by decide)
    exact (words.append table.tidy.trailing).append change.tidy.trailing
  | .drop object => object.tidy
  | .begin mode => by
    have word : Tidy [.fixed "BEGIN"] := .word (by decide)
    exact (word.append (.choice TransactionMode.tidy mode)).append
      (Tidy.word (by decide)).trailing
  | .commit => .word (by decide)
  | .rollback name => (Tidy.word (by decide)).append (.clauseOf (by decide) Tidy.name name)
  | .savepoint name => .spaced (.word (by decide)) (.name name)
  | .release name => (Tidy.phrase (by decide)).append (Tidy.name name).trailing
  | .attach file schema => by
    have words : Tidy (phrase ["ATTACH", "DATABASE"]) := .phrase (by decide)
    exact (words.append file.tidy.trailing).append
      (Tidy.spaced (.word (by decide)) (.name schema)).trailing
  | .detach schema => (Tidy.phrase (by decide)).append (Tidy.name schema).trailing
  | .vacuum schema file =>
    ((Tidy.word (by decide)).append (.spacedOf Tidy.name schema)).append
      (.clauseOf (by decide) Expr.tidy file)
  | .reindex target => (Tidy.word (by decide)).append (.spacedOf QualifiedName.tidy target)
  | .analyze target => (Tidy.word (by decide)).append (.spacedOf QualifiedName.tidy target)
  | .explain queryPlan statement => by
    have words : Tidy (phrase (if queryPlan then ["EXPLAIN", "QUERY", "PLAN"] else ["EXPLAIN"])) :=
      .phrase (by cases queryPlan <;> decide)
    exact words.append statement.tidy.trailing

/-- The steps of a trigger up to the word that ends it. -/
theorem steps_tidy : (steps : List Statement) → Tidy (stepPieces steps ++ [.fixed "END"])
  | [] => by
    rw [stepPieces]
    exact .word (by decide)
  | step :: rest => by
    rw [stepPieces, List.append_assoc]
    exact step.tidy.ended (steps_tidy rest)

end

end SqliteSyntax
