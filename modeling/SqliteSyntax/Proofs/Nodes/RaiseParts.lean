import SqliteSyntax.Proofs.Nodes.RaiseText

/-! # `RAISE` is written for `RAISE` alone

Node by node, outside of triggers: the word stands in the text of a node exactly when the node is a
`RAISE` or the word stands in the text of one of its parts. -/
namespace SqliteSyntax
set_option autoImplicit false

open ShowsRaise SomeShowsRaise

/-! ## One node -/

theorem Expr.showsRaise_iff (e : Expr) :
    ShowsRaise e.bare ↔ e.isRaise = true ∨ SomeShowsRaise e.parts := by
  cases e with
  | literal v => simp [Expr.bare, not_literal, Expr.isRaise, Expr.parts, SomeShowsRaise.nil_iff]
  | column c => simp [Expr.bare, not_columnRef, Expr.isRaise, Expr.parts, SomeShowsRaise.nil_iff]
  | raise a => simp [Expr.bare, Expr.isRaise, ShowsRaise]
  | callStar f d =>
    rw [Expr.bare, callPieces_iff]
    simp [ShowsRaise, Expr.isRaise, Expr.parts, SomeShowsRaise.nil_iff]
  | unary op a =>
    rw [Expr.bare, unary_iff, grouped_iff]
    simp [Expr.isRaise, Expr.parts, SomeShowsRaise, Node.pieces]
  | binary op a b =>
    have word : ¬ ShowsRaise (Phrase.pieces op) := not_choice (by decide) op
    rw [Expr.bare, ShowsRaise.append_iff, ShowsRaise.append_iff, space_iff, space_iff, grouped_iff,
      grouped_iff, or_iff_left word]
    simp [Expr.isRaise, Expr.parts, SomeShowsRaise, Node.pieces]
  | nullTest t a =>
    have word : ¬ ShowsRaise (Phrase.pieces t) := not_choice (by decide) t
    rw [Expr.bare, ShowsRaise.append_iff, space_iff, grouped_iff, or_iff_left word]
    simp [Expr.isRaise, Expr.parts, SomeShowsRaise, Node.pieces]
  | collate a n =>
    have collated : ShowsRaise (Expr.collate a n).bare ↔ ShowsRaise a.bare := by
      rw [Expr.bare]
      exact @collated_iff a a.bare (some n)
    rw [collated]
    simp [Expr.isRaise, Expr.parts, SomeShowsRaise, Node.pieces]
  | pattern op n a b c =>
    have words : ¬ ShowsRaise (negatable n (Phrase.words op)) :=
      not_negatable (by cases op <;> decide)
    have escape : ShowsRaise (clause ["ESCAPE"] (escapePieces c)) ↔
        SomeShowsRaise (optionParts c) := by
      rw [clause_iff (by decide), escapePieces_eq, optionParts, SomeShowsRaise.map_iff]
      cases c <;> simp [Node.pieces, grouped_iff]
    rw [Expr.bare, ShowsRaise.append_iff, ShowsRaise.append_iff, ShowsRaise.append_iff, space_iff,
      space_iff, grouped_iff, grouped_iff, or_iff_left words, escape]
    simp [Expr.isRaise, Expr.parts, SomeShowsRaise.cons_iff, Node.pieces, or_assoc]
  | between n a b c =>
    have words : ¬ ShowsRaise (negatable n ["BETWEEN"]) := not_negatable (by decide)
    simp only [Expr.bare, ShowsRaise.append_iff, space_iff, grouped_iff, words, or_false]
    rw [word_iff (by decide), space_iff, grouped_iff]
    simp [Expr.isRaise, Expr.parts, SomeShowsRaise, Node.pieces, or_assoc]
  | inList n a items =>
    have words : ¬ ShowsRaise (negatable n ["IN"]) := not_negatable (by decide)
    simp only [Expr.bare, ShowsRaise.append_iff, space_iff, grouped_iff, words, or_false,
      parenthesized_iff, items_iff]
    simp [Expr.isRaise, Expr.parts, SomeShowsRaise.cons_iff, Node.pieces]
  | inSelect n a q =>
    have words : ¬ ShowsRaise (negatable n ["IN"]) := not_negatable (by decide)
    simp only [Expr.bare, ShowsRaise.append_iff, space_iff, grouped_iff, words, or_false,
      parenthesized_iff]
    simp [Expr.isRaise, Expr.parts, SomeShowsRaise, Node.pieces]
  | existsRow n q =>
    have words : ¬ ShowsRaise (negatable n ["EXISTS"]) := not_negatable (by decide)
    simp only [Expr.bare, ShowsRaise.append_iff, space_iff, words, false_or, parenthesized_iff]
    simp [Expr.isRaise, Expr.parts, SomeShowsRaise, Node.pieces]
  | subquery q =>
    rw [Expr.bare, parenthesized_iff]
    simp [Expr.isRaise, Expr.parts, SomeShowsRaise, Node.pieces]
  | call f d items =>
    rw [Expr.bare, callPieces_iff, items_iff]
    simp [Expr.isRaise, Expr.parts]
  | row items =>
    rw [Expr.bare, parenthesized_iff, items_iff]
    simp [Expr.isRaise, Expr.parts]
  | cast a t =>
    rw [Expr.bare, word_iff (by decide), parenthesized_iff, ShowsRaise.append_iff]
    simp [Expr.isRaise, Expr.parts, SomeShowsRaise, Node.pieces, ShowsRaise]
  | caseWhen a bs c =>
    have ending : ¬ ShowsRaise [.space, .fixed "END"] := by simp [ShowsRaise]
    rw [Expr.bare, ShowsRaise.append_iff, ShowsRaise.append_iff, ShowsRaise.append_iff,
      word_iff (by decide), or_iff_left ending, optionPieces_eq, optionPieces_eq, spacedOf_iff,
      branches_iff, clauseOf_iff (by decide)]
    simp [Expr.isRaise, Expr.parts, SomeShowsRaise.append_iff, or_assoc]

theorem Select.showsRaise_iff (q : Select) : ShowsRaise q.pieces ↔ SomeShowsRaise q.parts := by
  obtain ⟨w, b, cs, os, l, o⟩ := q
  have compounds : ShowsRaise (compoundPieces cs) ↔
      SomeShowsRaise ((cs.map Prod.snd).map .body) := by
    have compound : ∀ c : SetOperator × SelectBody, ShowsRaise (compoundText c) ↔
        ShowsRaise c.2.pieces := by
      intro c
      have word : ¬ ShowsRaise (Phrase.pieces c.1) := not_choice (by decide) c.1
      rw [compoundText, ShowsRaise.append_iff, space_iff, space_iff, or_iff_right word]
    rw [compoundPieces_eq, List.map_map, SomeShowsRaise.map_iff]
    constructor
    · intro h
      obtain ⟨c, hc, hp⟩ := List.mem_flatMap.mp h
      exact ⟨c, hc, (compound c).mp hp⟩
    · rintro ⟨c, hc, hp⟩
      exact List.mem_flatMap_of_mem hc ((compound c).mpr hp)
  have limit : ShowsRaise (clause ["LIMIT"] (l.map Expr.bare)) ↔ SomeShowsRaise (optionParts l) :=
    clauseOf_iff (by decide)
  have offset : ShowsRaise (clause ["OFFSET"] (o.map Expr.bare)) ↔ SomeShowsRaise (optionParts o) :=
    clauseOf_iff (by decide)
  simp only [Select.pieces, ShowsRaise.append_iff, with_iff, compounds, terms_iff, optionPieces_eq,
    limit, offset, Select.parts, Select.bodies, List.map_cons, SomeShowsRaise.append_iff,
    SomeShowsRaise.cons_iff, Node.pieces]
  simp only [or_assoc]

theorem SelectBody.showsRaise_iff (b : SelectBody) :
    ShowsRaise b.pieces ↔ SomeShowsRaise b.parts := by
  cases b with
  | values rows =>
    rw [SelectBody.pieces, word_iff (by decide), space_iff, rows_iff, SelectBody.parts]
  | core c =>
    obtain ⟨d, cs, s, f, gs, h⟩ := c
    have words : ¬ ShowsRaise (phrase (if d then ["SELECT", "DISTINCT"] else ["SELECT"])) :=
      not_phrase (by cases d <;> decide)
    have columns : ShowsRaise (if cs.isEmpty then [.fixed "*"]
        else commaSeparated (columnPieces cs)) ↔ SomeShowsRaise (columnParts cs) := by
      split
      · next hcs =>
        have : cs = [] := by simpa using hcs
        subst this
        simp [ShowsRaise, columnParts, SomeShowsRaise.nil_iff]
      · exact columns_iff
    have groups : ShowsRaise (if gs.isEmpty then []
        else clause ["GROUP", "BY"] (some (commaSeparated (listPieces gs)))) ↔
        SomeShowsRaise (gs.map .expr) := by
      split
      · next hgs =>
        have : gs = [] := by simpa using hgs
        subst this
        simp [ShowsRaise, SomeShowsRaise.nil_iff]
      · rw [clause_iff (by decide)]
        simp [items_iff]
    have filter : ShowsRaise (clause ["WHERE"] (f.map Expr.bare)) ↔ SomeShowsRaise (optionParts f) :=
      clauseOf_iff (by decide)
    have having : ShowsRaise (clause ["HAVING"] (h.map Expr.bare)) ↔ SomeShowsRaise (optionParts h) :=
      clauseOf_iff (by decide)
    simp only [SelectBody.pieces, SelectCore.pieces, ShowsRaise.append_iff, space_iff, words,
      columns, sourcePieces_eq, source_iff, optionPieces_eq, filter, groups, having,
      SelectBody.parts, SomeShowsRaise.append_iff, false_or]

theorem FromTree.showsRaise_iff (t : FromTree) : ShowsRaise t.pieces ↔ SomeShowsRaise t.parts := by
  cases t with
  | table r => simp [FromTree.pieces, not_tableRef, FromTree.parts, SomeShowsRaise.nil_iff]
  | subquery q n =>
    rw [FromTree.pieces, ShowsRaise.append_iff, parenthesized_iff, or_iff_left (not_asClause n)]
    simp [FromTree.parts, SomeShowsRaise, Node.pieces]
  | function n items a =>
    rw [FromTree.pieces, ShowsRaise.append_iff, ShowsRaise.append_iff, parenthesized_iff,
      or_iff_left (not_asClause a), or_iff_right (not_qualifiedName n), items_iff, FromTree.parts]
  | join l op r c =>
    have right : ShowsRaise (if r.isJoin then parenthesized r.pieces else r.pieces) ↔
        ShowsRaise r.pieces := by
      split
      · exact parenthesized_iff
      · exact Iff.rfl
    have constraint : ShowsRaise (constraintPieces c) ↔
        SomeShowsRaise (c.toList.flatMap JoinConstraint.parts) := by
      rcases c with _ | (e | names)
      · simp [constraintPieces, ShowsRaise, SomeShowsRaise.nil_iff]
      · rw [constraintPieces, space_iff, word_iff (by decide), space_iff]
        simp [JoinConstraint.parts, SomeShowsRaise, Node.pieces]
      · rw [constraintPieces, space_iff, word_iff (by decide), space_iff]
        simp [JoinConstraint.parts, not_nameList, SomeShowsRaise.nil_iff]
    rw [FromTree.pieces, ShowsRaise.append_iff, ShowsRaise.append_iff, ShowsRaise.append_iff,
      or_iff_left (not_joinOperator op), right, constraint]
    simp [FromTree.parts, SomeShowsRaise.cons_iff, Node.pieces, or_assoc]

/-! ## Schema objects and changes to rows -/

theorem ShowsRaise.indexedList_iff {columns : List IndexedColumn} :
    ShowsRaise (indexedList columns) ↔ SomeShowsRaise (indexedParts columns) := by
  have column : ∀ c : IndexedColumn, ShowsRaise c.pieces ↔ ShowsRaise c.expr.bare := by
    intro c
    have order := not_optional (α := SortOrder) (by decide) c.order
    rw [IndexedColumn.pieces, ShowsRaise.append_iff, or_iff_left order, collated_iff]
  rw [indexedList, parenthesized_iff, commaSeparated_map_iff, indexedParts, SomeShowsRaise.map_iff]
  simp [column, Node.pieces]

theorem ShowsRaise.not_conflict (conflict : Option ConflictAction) :
    ¬ ShowsRaise (conflictPieces conflict) := by
  rw [conflictPieces, clause_iff (by decide)]
  cases conflict with
  | none => simp
  | some action => simp [not_choice (α := ConflictAction) (by decide) action]

theorem ShowsRaise.not_namesOrNothing (names : List String) :
    ¬ ShowsRaise (if names.isEmpty then [] else .space :: nameList names) := by
  split
  · simp [ShowsRaise]
  · rw [space_iff]
    exact not_nameList _

theorem ShowsRaise.not_foreignKey (k : ForeignKey) : ¬ ShowsRaise k.pieces := by
  have action : ∀ words : List String, "RAISE" ∉ words → ∀ a : Option ForeignKeyAction,
      ¬ ShowsRaise (clause words (a.map Phrase.pieces)) := by
    intro words h a
    rw [clause_iff h]
    cases a with
    | none => simp
    | some a => simp [not_choice (α := ForeignKeyAction) (by decide) a]
  have deferrability := not_optional (α := Deferrability) (by decide) k.deferrability
  rw [ForeignKey.pieces, ShowsRaise.append_iff, ShowsRaise.append_iff, ShowsRaise.append_iff,
    or_iff_left deferrability, or_iff_left (action _ (by decide) _),
    or_iff_left (action _ (by decide) _), word_iff (by decide), space_iff, name_iff]
  exact not_namesOrNothing _

theorem ShowsRaise.check_iff {e : Expr} : ShowsRaise (checkPieces e) ↔ ShowsRaise e.bare := by
  rw [checkPieces, word_iff (by decide), space_iff, parenthesized_iff]

theorem ShowsRaise.not_constraintName (name : Option String) :
    ¬ ShowsRaise (constraintName name) := by
  cases name <;> simp [ShowsRaise, constraintName]

theorem ColumnRule.showsRaise_iff (rule : ColumnRule) :
    ShowsRaise rule.pieces ↔ SomeShowsRaise rule.parts := by
  have one : ∀ e : Expr, SomeShowsRaise [.expr e] ↔ ShowsRaise e.bare := by
    intro e
    simp [SomeShowsRaise, Node.pieces]
  cases rule with
  | primaryKey order conflict autoincrement =>
    have order := not_optional (α := SortOrder) (by decide) order
    have auto : ¬ ShowsRaise (onlyIf autoincrement [.space, .fixed "AUTOINCREMENT"]) := by
      cases autoincrement <;> simp [ShowsRaise, onlyIf]
    simp [ColumnRule.pieces, ShowsRaise.append_iff, phrase_iff, order, not_conflict, auto,
      ColumnRule.parts, SomeShowsRaise.nil_iff]
  | notNull conflict =>
    simp [ColumnRule.pieces, ShowsRaise.append_iff, phrase_iff, not_conflict, ColumnRule.parts,
      SomeShowsRaise.nil_iff]
  | null => simp [ColumnRule.pieces, ShowsRaise, ColumnRule.parts, SomeShowsRaise.nil_iff]
  | unique conflict =>
    simp [ColumnRule.pieces, word_iff, not_conflict, ColumnRule.parts, SomeShowsRaise.nil_iff]
  | check e => rw [ColumnRule.pieces, check_iff, ColumnRule.parts, one]
  | default v =>
    rw [ColumnRule.pieces, word_iff (by decide), space_iff]
    cases v with
    | literal v =>
      simp [DefaultValue.pieces, not_literal, ColumnRule.parts, SomeShowsRaise.nil_iff]
    | expr e => rw [DefaultValue.pieces, parenthesized_iff, ColumnRule.parts, one]
  | collate c => simp [ColumnRule.pieces, ShowsRaise, ColumnRule.parts, SomeShowsRaise.nil_iff]
  | references k =>
    simp [ColumnRule.pieces, not_foreignKey, ColumnRule.parts, SomeShowsRaise.nil_iff]
  | generated e storage =>
    have storage := not_optional (α := GeneratedStorage) (by decide) storage
    rw [ColumnRule.pieces, ShowsRaise.append_iff, ShowsRaise.append_iff, or_iff_left storage,
      or_iff_right (not_phrase (by decide)), space_iff, parenthesized_iff, ColumnRule.parts, one]

theorem ColumnDef.showsRaise_iff (c : ColumnDef) :
    ShowsRaise c.pieces ↔ SomeShowsRaise c.parts := by
  have typeName : ¬ ShowsRaise (spaced (c.typeName.map fun t => [.verbatim t])) := by
    cases c.typeName <;> simp [ShowsRaise, spaced]
  rw [ColumnDef.pieces, ShowsRaise.append_iff, name_iff, or_iff_right typeName, ColumnDef.parts,
    SomeShowsRaise.flatMap_iff]
  simp only [columnConstraintPieces, ShowsRaise, List.mem_flatMap]
  refine exists_congr fun constraint => and_congr_right fun _ => ?_
  show ShowsRaise (.space :: constraint.pieces) ↔ _
  rw [space_iff, ColumnConstraint.pieces, ShowsRaise.append_iff,
    or_iff_right (not_constraintName _), ColumnRule.showsRaise_iff]

theorem TableRule.showsRaise_iff (rule : TableRule) :
    ShowsRaise rule.pieces ↔ SomeShowsRaise rule.parts := by
  cases rule with
  | primaryKey columns conflict =>
    rw [TableRule.pieces, ShowsRaise.append_iff, ShowsRaise.append_iff,
      or_iff_left (not_conflict conflict), or_iff_right (not_phrase (by decide)), space_iff,
      indexedList_iff, TableRule.parts]
  | unique columns conflict =>
    rw [TableRule.pieces, ShowsRaise.append_iff, or_iff_left (not_conflict conflict),
      word_iff (by decide), space_iff, indexedList_iff, TableRule.parts]
  | check e =>
    rw [TableRule.pieces, check_iff, TableRule.parts]
    simp [SomeShowsRaise, Node.pieces]
  | foreignKey columns key =>
    simp [TableRule.pieces, ShowsRaise.append_iff, phrase_iff, space_iff, not_nameList,
      not_foreignKey, TableRule.parts, SomeShowsRaise.nil_iff]

theorem TableBody.showsRaise_iff (b : TableBody) :
    ShowsRaise b.pieces ↔ SomeShowsRaise b.parts := by
  cases b with
  | definitions columns constraints w s =>
    have options : ¬ ShowsRaise (if w || s then .space :: commaSeparated (tableOptions w s)
        else []) := by
      cases w <;> cases s <;> simp [ShowsRaise, tableOptions, commaSeparated, separated, phrase,
        token]
    have columns : ShowsRaise (commaSeparated (columns.map ColumnDef.pieces)) ↔
        SomeShowsRaise (columns.flatMap ColumnDef.parts) := by
      rw [commaSeparated_map_iff, SomeShowsRaise.flatMap_iff]
      exact exists_congr fun c => and_congr_right fun _ => c.showsRaise_iff
    have constraints : ShowsRaise (constraints.flatMap fun c => .fixed "," :: .space :: c.pieces) ↔
        SomeShowsRaise (constraints.flatMap (·.rule.parts)) := by
      rw [SomeShowsRaise.flatMap_iff]
      simp only [ShowsRaise, List.mem_flatMap]
      refine exists_congr fun c => and_congr_right fun _ => ?_
      show ShowsRaise (.fixed "," :: .space :: c.pieces) ↔ _
      rw [word_iff (by decide), space_iff, TableConstraint.pieces, ShowsRaise.append_iff,
        or_iff_right (not_constraintName _), TableRule.showsRaise_iff]
    rw [TableBody.pieces, ShowsRaise.append_iff, space_iff, parenthesized_iff, or_iff_left options,
      definitionPieces, ShowsRaise.append_iff, columns, constraints, TableBody.parts,
      SomeShowsRaise.append_iff]
  | asSelect q =>
    rw [TableBody.pieces, clause_iff (by decide)]
    simp [TableBody.parts, SomeShowsRaise, Node.pieces]

theorem ShowsRaise.not_create {temporary ifNotExists : Bool} {object : List String}
    (h : "RAISE" ∉ object) : ¬ ShowsRaise (createPieces temporary object ifNotExists) := by
  cases temporary <;> cases ifNotExists <;>
    simp [createPieces, ShowsRaise.append_iff, phrase_iff, space_iff, ShowsRaise.nil_iff, h]

theorem ShowsRaise.assignments_iff {assignments : List Assignment} :
    ShowsRaise (assignmentPieces assignments) ↔ SomeShowsRaise (assignmentParts assignments) := by
  have assignment : ∀ a : Assignment, ShowsRaise a.pieces ↔ ShowsRaise a.value.bare := by
    intro a
    rw [Assignment.pieces, ShowsRaise.append_iff, space_iff, word_iff (by decide), space_iff]
    refine or_iff_right ?_
    split
    · simp [ShowsRaise]
    · exact not_nameList _
  rw [assignmentPieces, commaSeparated_map_iff, assignmentParts, SomeShowsRaise.map_iff]
  simp [assignment, Node.pieces]

theorem ShowsRaise.filter_iff {filter : Option Expr} :
    ShowsRaise (clause ["WHERE"] (filter.map Expr.bare)) ↔ SomeShowsRaise (optionParts filter) :=
  clauseOf_iff (by decide)

theorem Upsert.showsRaise_iff (u : Upsert) : ShowsRaise u.pieces ↔ SomeShowsRaise u.parts := by
  obtain ⟨target, action⟩ := u
  have target : ShowsRaise (spaced (target.map UpsertTarget.pieces)) ↔
      SomeShowsRaise (target.toList.flatMap UpsertTarget.parts) := by
    cases target with
    | none => simp [spaced, ShowsRaise, SomeShowsRaise.nil_iff]
    | some t =>
      rw [spaced_iff]
      simp [UpsertTarget.pieces, ShowsRaise.append_iff, indexedList_iff, filter_iff,
        UpsertTarget.parts, SomeShowsRaise.append_iff]
  have action : ShowsRaise action.pieces ↔ SomeShowsRaise action.parts := by
    cases action with
    | nothing =>
      simp [UpsertAction.pieces, phrase_iff, UpsertAction.parts, SomeShowsRaise.nil_iff]
    | update assignments filter =>
      rw [UpsertAction.pieces, ShowsRaise.append_iff, ShowsRaise.append_iff, space_iff,
        or_iff_right (not_phrase (by decide)), assignments_iff, filter_iff, UpsertAction.parts,
        SomeShowsRaise.append_iff]
  rw [Upsert.pieces, ShowsRaise.append_iff, ShowsRaise.append_iff, space_iff,
    or_iff_right (not_phrase (by decide)), target, action, Upsert.parts, SomeShowsRaise.append_iff]

theorem ShowsRaise.returning_iff {columns : List ResultColumn} :
    ShowsRaise (returningPieces columns) ↔ SomeShowsRaise (columnParts columns) := by
  unfold returningPieces
  split
  · next h =>
    have : columns = [] := by simpa using h
    subst this
    simp [ShowsRaise, columnParts, SomeShowsRaise.nil_iff]
  · rw [clause_iff (by decide)]
    simp [columns_iff]

theorem Insert.showsRaise_iff (i : Insert) : ShowsRaise i.pieces ↔ SomeShowsRaise i.parts := by
  have columns : ¬ ShowsRaise (if i.columns.isEmpty then [] else .space :: nameList i.columns) := by
    split
    · simp [ShowsRaise]
    · rw [space_iff]
      exact not_nameList _
  have source : ShowsRaise i.source.pieces ↔ SomeShowsRaise i.source.parts := by
    cases i.source with
    | values rows =>
      rw [InsertSource.pieces, word_iff (by decide), space_iff, rows_iff, InsertSource.parts]
    | select q => simp [InsertSource.pieces, InsertSource.parts, SomeShowsRaise, Node.pieces]
    | defaultValues =>
      simp [InsertSource.pieces, phrase_iff, InsertSource.parts, SomeShowsRaise.nil_iff]
  have upserts : ShowsRaise (i.upserts.flatMap fun u => .space :: u.pieces) ↔
      SomeShowsRaise (i.upserts.flatMap Upsert.parts) := by
    rw [SomeShowsRaise.flatMap_iff]
    simp only [ShowsRaise, List.mem_flatMap]
    refine exists_congr fun u => and_congr_right fun _ => ?_
    show ShowsRaise (.space :: u.pieces) ↔ _
    rw [space_iff, Upsert.showsRaise_iff]
  have verb : ¬ ShowsRaise (Phrase.pieces i.verb) := not_choice (by decide) i.verb
  simp only [Insert.pieces, ShowsRaise.append_iff, with_iff, verb, space_iff, not_qualifiedName,
    not_asClause, columns, source, upserts, returning_iff, Insert.parts, SomeShowsRaise.append_iff,
    or_false]

theorem ShowsRaise.tail_iff {filter : Option Expr} {returning : List ResultColumn}
    {orderBy : List OrderingTerm} {limit offset : Option Expr} :
    ShowsRaise (tailPieces filter returning orderBy limit offset) ↔
      SomeShowsRaise (optionParts filter ++ columnParts returning ++ termParts orderBy ++
        optionParts limit ++ optionParts offset) := by
  have limit : ShowsRaise (clause ["LIMIT"] (limit.map Expr.bare)) ↔
      SomeShowsRaise (optionParts limit) := clauseOf_iff (by decide)
  have offset : ShowsRaise (clause ["OFFSET"] (offset.map Expr.bare)) ↔
      SomeShowsRaise (optionParts offset) := clauseOf_iff (by decide)
  simp only [tailPieces, ShowsRaise.append_iff, filter_iff, returning_iff, terms_iff, limit, offset,
    SomeShowsRaise.append_iff]

theorem Update.showsRaise_iff (u : Update) : ShowsRaise u.pieces ↔ SomeShowsRaise u.parts := by
  obtain ⟨w, conflict, t, assignments, source, f, rs, os, l, o⟩ := u
  have words : ¬ ShowsRaise (phrase ["UPDATE"]) := not_phrase (by decide)
  have orWords : ∀ action : ConflictAction,
      ¬ ShowsRaise (phrase (["UPDATE", "OR"] ++ Phrase.words action)) := by
    intro action
    exact not_phrase (by cases action <;> decide)
  have assignments : ShowsRaise (clause ["SET"] (some (assignmentPieces assignments))) ↔
      SomeShowsRaise (assignmentParts assignments) := by
    rw [clause_iff (by decide)]
    simp [assignments_iff]
  cases conflict with
  | none =>
    simp only [Update.pieces, ShowsRaise.append_iff, with_iff, words, space_iff, not_tableRef,
      assignments, source_iff, tail_iff, Update.parts, SomeShowsRaise.append_iff, or_false, or_assoc]
  | some action =>
    simp only [Update.pieces, ShowsRaise.append_iff, with_iff, orWords, space_iff, not_tableRef,
      assignments, source_iff, tail_iff, Update.parts, SomeShowsRaise.append_iff, or_false, or_assoc]

theorem Delete.showsRaise_iff (d : Delete) : ShowsRaise d.pieces ↔ SomeShowsRaise d.parts := by
  have words : ¬ ShowsRaise (phrase ["DELETE", "FROM"]) := not_phrase (by decide)
  simp only [Delete.pieces, ShowsRaise.append_iff, with_iff, words, space_iff, not_tableRef,
    tail_iff, Delete.parts, SomeShowsRaise.append_iff, or_false, or_assoc]

/-! ## Schema objects -/

theorem CreateTable.showsRaise_iff (t : CreateTable) :
    ShowsRaise t.pieces ↔ SomeShowsRaise t.body.parts := by
  have front : ¬ ShowsRaise (createPieces t.temporary ["TABLE"] t.ifNotExists) :=
    not_create (by decide)
  rw [CreateTable.pieces, ShowsRaise.append_iff, ShowsRaise.append_iff, or_iff_right front,
    or_iff_right (not_qualifiedName _), TableBody.showsRaise_iff]

theorem CreateIndex.showsRaise_iff (i : CreateIndex) :
    ShowsRaise i.pieces ↔ SomeShowsRaise (indexedParts i.columns ++ optionParts i.filter) := by
  have front : ¬ ShowsRaise (createPieces false
      (if i.unique then ["UNIQUE", "INDEX"] else ["INDEX"]) i.ifNotExists) :=
    not_create (by cases i.unique <;> decide)
  simp only [CreateIndex.pieces, ShowsRaise.append_iff, front, space_iff, not_qualifiedName,
    filter_iff, SomeShowsRaise.append_iff, false_or]
  rw [word_iff (by decide), space_iff, name_iff, space_iff, indexedList_iff]

theorem CreateView.showsRaise_iff (v : CreateView) :
    ShowsRaise v.pieces ↔ SomeShowsRaise [.query v.query] := by
  have front : ¬ ShowsRaise (createPieces v.temporary ["VIEW"] v.ifNotExists) :=
    not_create (by decide)
  rw [CreateView.pieces, ShowsRaise.append_iff, ShowsRaise.append_iff, ShowsRaise.append_iff,
    or_iff_right front, or_iff_right (not_qualifiedName _), or_iff_right (not_namesOrNothing _),
    clause_iff (by decide)]
  simp [SomeShowsRaise, Node.pieces]

theorem CreateVirtualTable.not_showsRaise (t : CreateVirtualTable) : ¬ ShowsRaise t.pieces := by
  have front : ¬ ShowsRaise (createPieces false ["VIRTUAL", "TABLE"] t.ifNotExists) :=
    not_create (by decide)
  rw [CreateVirtualTable.pieces, ShowsRaise.append_iff, ShowsRaise.append_iff,
    or_iff_right front, or_iff_right (not_qualifiedName _), space_iff, word_iff (by decide),
    space_iff, name_iff]
  split
  · simp [ShowsRaise]
  · rw [parenthesized_iff, commaSeparated_map_iff]
    simp [ShowsRaise]

theorem TableChange.showsRaise_iff (change : TableChange) :
    ShowsRaise change.pieces ↔ SomeShowsRaise change.parts := by
  cases change with
  | addColumn c =>
    rw [TableChange.pieces, ShowsRaise.append_iff, or_iff_right (not_phrase (by decide)),
      space_iff, c.showsRaise_iff, TableChange.parts]
  | renameTo | renameColumn | dropColumn =>
    simp [ShowsRaise, TableChange.pieces, phrase, separated, token, TableChange.parts,
      SomeShowsRaise.nil_iff]

theorem DropObject.not_showsRaise (d : DropObject) : ¬ ShowsRaise d.pieces := by
  have kind : ¬ ShowsRaise (Phrase.pieces d.kind) := not_choice (by decide) d.kind
  have lenient : ¬ ShowsRaise (onlyIf d.ifExists (.space :: phrase ["IF", "EXISTS"])) := by
    cases d.ifExists <;> simp [ShowsRaise, onlyIf, phrase, separated, token]
  rw [DropObject.pieces, ShowsRaise.append_iff, ShowsRaise.append_iff, word_iff (by decide),
    space_iff, space_iff, or_iff_right kind, or_iff_right lenient]
  exact not_qualifiedName _

/-! ## Statements -/

theorem Statement.showsRaise_iff (s : Statement) (h : (Node.statement s).isTrigger = false) :
    ShowsRaise s.pieces ↔ SomeShowsRaise s.parts := by
  cases s with
  | select q => simp [Statement.pieces, Statement.parts, SomeShowsRaise, Node.pieces]
  | insert i => rw [Statement.pieces, i.showsRaise_iff, Statement.parts]
  | update u => rw [Statement.pieces, u.showsRaise_iff, Statement.parts]
  | delete d => rw [Statement.pieces, d.showsRaise_iff, Statement.parts]
  | createTable t => rw [Statement.pieces, t.showsRaise_iff, Statement.parts]
  | createIndex i => rw [Statement.pieces, i.showsRaise_iff, Statement.parts]
  | createView v => rw [Statement.pieces, v.showsRaise_iff, Statement.parts]
  | createTrigger header steps => exact Bool.noConfusion h
  | createVirtualTable t =>
    exact iff_of_false t.not_showsRaise (by simp [Statement.parts, SomeShowsRaise.nil_iff])
  | alterTable t change =>
    rw [Statement.pieces, ShowsRaise.append_iff, ShowsRaise.append_iff, space_iff, space_iff,
      or_iff_right (not_phrase (by decide)), or_iff_right (not_qualifiedName _),
      change.showsRaise_iff, Statement.parts]
  | drop d =>
    exact iff_of_false d.not_showsRaise (by simp [Statement.parts, SomeShowsRaise.nil_iff])
  | begin mode =>
    have mode := not_optional (α := TransactionMode) (by decide) mode
    rw [Statement.pieces, ShowsRaise.append_iff, word_iff (by decide), or_iff_right mode]
    simp [ShowsRaise, Statement.parts, SomeShowsRaise.nil_iff]
  | rollback n =>
    rw [Statement.pieces, word_iff (by decide), clause_iff (by decide)]
    cases n <;> simp [ShowsRaise, Statement.parts, SomeShowsRaise.nil_iff]
  | commit | savepoint | release | detach =>
    simp [Statement.pieces, ShowsRaise, phrase, separated, token, Statement.parts,
      SomeShowsRaise.nil_iff]
  | attach file n =>
    rw [Statement.pieces, ShowsRaise.append_iff, ShowsRaise.append_iff, space_iff,
      or_iff_right (not_phrase (by decide))]
    simp [ShowsRaise, Statement.parts, SomeShowsRaise, Node.pieces]
  | vacuum n file =>
    have schema : ¬ ShowsRaise (spaced (n.map fun n => [.name n])) := by
      cases n <;> simp [ShowsRaise, spaced]
    rw [Statement.pieces, ShowsRaise.append_iff, word_iff (by decide), or_iff_right schema,
      clauseOf_iff (by decide), Statement.parts]
  | reindex t | analyze t =>
    rw [Statement.pieces, word_iff (by decide), spaced_iff]
    cases t <;> simp [not_qualifiedName, Statement.parts, SomeShowsRaise.nil_iff]
  | explain p s =>
    have words : ¬ ShowsRaise (phrase (if p then ["EXPLAIN", "QUERY", "PLAN"] else ["EXPLAIN"])) :=
      not_phrase (by cases p <;> decide)
    rw [Statement.pieces, ShowsRaise.append_iff, space_iff, or_iff_right words]
    simp [Statement.parts, SomeShowsRaise, Node.pieces]

end SqliteSyntax
