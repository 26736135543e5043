import SqliteSyntax.Proofs.Reading.Bodies

/-! # Queries are read back

A query is read part by part in the order of its text. The queries between parentheses inside are left
to a reader of the next lower depth (`Select.read`), so a query is read if those inside it are
(`Select.reads_next`). -/
namespace SqliteSyntax
set_option autoImplicit false

/-! ## What must hold of a query -/

section Readable
variable (P : Select → Prop)

structure WithClause.Readable (w : WithClause) : Prop where
  nonempty : w.tables ≠ []
  queries : ∀ table ∈ w.tables, P table.query

/-- In the query, outside of those inside it, everything can be read; and the queries directly inside
have a property. -/
structure Select.Readable (q : Select) : Prop where
  withClause : ∀ w ∈ q.withClause, w.Readable P
  body : q.body.Readable P
  compounds : ∀ compound ∈ q.compounds, compound.2.Readable P
  orderBy : ∀ term ∈ q.orderBy, term.Readable P
  limit : ∀ e ∈ q.limit, e.Readable P
  offset : ∀ e ∈ q.offset, e.Readable P

end Readable

/-! ## Readers -/

/-- What follows the name and the columns of a common table up to its query. -/
def Reader.materialized : Reader (Option Bool) := fun ps =>
  match after (.space :: phrase ["AS", "MATERIALIZED"]) ps with
  | some rest => some (some true, rest)
  | none =>
    match after (.space :: phrase ["AS", "NOT", "MATERIALIZED"]) ps with
    | some rest => some (some false, rest)
    | none => (Option.map fun rest => (none, rest)) (after (.space :: phrase ["AS"]) ps)

/-- A set operator after a space; `UNION ALL` is tried before `UNION`. -/
def SetOperator.read : Reader SetOperator := do
  Reader.fixed [.space]
  Reader.choose SetOperator

section Readers
variable (query : Reader Select)

def CommonTable.read : Reader CommonTable := do
  let name ← Reader.name
  let columns ← Reader.columnList
  let materialized ← Reader.materialized
  Reader.fixed [.space]
  let q ← Reader.bracketed query
  return ⟨name, columns, materialized, q⟩

def WithClause.read : Reader (Option WithClause) :=
  Reader.optionally [.fixed "WITH", .space] do
    let recursive ← Reader.flag [.fixed "RECURSIVE", .space]
    let tables ← Reader.listOf (CommonTable.read query)
    Reader.fixed [.space]
    return ⟨recursive, tables⟩

def Compound.read : Reader (SetOperator × SelectBody) := do
  let op ← SetOperator.read
  Reader.fixed [.space]
  let body ← SelectBody.read query
  return (op, body)

/-- A query after its common tables. -/
def Select.readAfter (withClause : Option WithClause) : Reader Select := do
  let body ← SelectBody.read query
  let compounds ← Reader.many (Compound.read query)
  let orderBy ← Reader.listAfter ["ORDER", "BY"] (OrderingTerm.read query)
  let limit ← Reader.optionally (lead ["LIMIT"]) (Expr.read query)
  let offset ← Reader.optionally (lead ["OFFSET"]) (Expr.read query)
  return ⟨withClause, body, compounds, orderBy, limit, offset⟩

end Readers

/-- A query with queries inside it nested less deep than so. -/
def Select.read : Nat → Reader Select
  | 0 => fun _ => none
  | n + 1 => WithClause.read (Select.read n) >>= Select.readAfter (Select.read n)

variable {query : Reader Select}

/-! ## Common tables -/

theorem canonicalCompounds_eq (compounds : List (SetOperator × SelectBody)) :
    canonicalCompounds compounds = compounds.map fun c => (c.1, c.2.canonical) := by
  induction compounds with
  | nil => rw [canonicalCompounds, List.map_nil]
  | cons c rest ih => rw [canonicalCompounds, List.map_cons, ih]

def CommonTable.canonical (t : CommonTable) : CommonTable := { t with query := t.query.canonical }

theorem canonicalTables_eq (tables : List CommonTable) :
    canonicalTables tables = tables.map CommonTable.canonical := by
  induction tables with
  | nil => rw [canonicalTables, List.map_nil]
  | cons t rest ih =>
    obtain ⟨⟩ := t
    rw [canonicalTables, List.map_cons, ih, CommonTable.canonical]

theorem canonicalWith_eq (withClause : Option WithClause) :
    canonicalWith withClause =
      withClause.map fun w => ⟨w.recursive, w.tables.map CommonTable.canonical⟩ := by
  cases withClause with
  | none => rw [canonicalWith, Option.map_none]
  | some w =>
    obtain ⟨⟩ := w
    rw [canonicalWith, canonicalTables_eq, Option.map_some]

theorem Reads.materialized (materialized : Option Bool) :
    Reads Reader.materialized (fun k => ∃ rest, k = .space :: .fixed "(" :: rest)
      (.space :: phrase (materializedWords materialized)) materialized := by
  rintro k ⟨rest, rfl⟩
  cases materialized with
  | none => rfl
  | some materialized => cases materialized <;> rfl

theorem CommonTable.reads {t : CommonTable} (h : t.query.IsRead query) (ok : List Piece → Prop) :
    Reads (CommonTable.read query) ok (plainOf t.pieces) t.canonical := by
  obtain ⟨name, columns, materialized, q⟩ := t
  have text : plainOf (CommonTable.pieces ⟨name, columns, materialized, q⟩) =
      [.name name] ++ (optionalNames columns ++ (.space :: phrase (materializedWords materialized) ++
        ([.space] ++ parenthesized (plainOf q.pieces)))) := by
    have names : plainOf (optionalNames columns) = optionalNames columns := by
      rw [optionalNames]
      split
      · rfl
      · exact plainOf_nameList columns
    rw [CommonTable.pieces]
    simp only [plainOf_append, plainOf_name, plainOf_space, plainOf_phrase, plainOf_parenthesized,
      names, List.append_assoc, List.cons_append, List.nil_append]
  have inner := h.reads.bracketed (fun k => .mark (by decide) k) ok
  have begins (k : List Piece) : Begins ["AS"] (.space :: phrase (materializedWords materialized) ++
      ([.space] ++ parenthesized (plainOf q.pieces)) ++ k) := by
    cases materialized with
    | none => exact .word (by decide) _
    | some materialized => cases materialized <;> exact .word (by decide) _
  rw [text]
  exact .bind (.name name fun _ => True) (fun _ _ => trivial)
    (.bind (.columnList (by decide) columns) (fun k _ => begins k)
      (.bind (.materialized materialized) (fun k _ => ⟨_, rfl⟩)
        (.headed _ (inner.last _))))

theorem withPieces_text (w : WithClause) :
    plainOf (withPieces (some w)) = [.fixed "WITH", .space] ++
      (onlyIf w.recursive [.fixed "RECURSIVE", .space] ++
        (commaSeparated (w.tables.map fun t => plainOf t.pieces) ++ [.space])) := by
  obtain ⟨recursive, tables⟩ := w
  rw [withPieces]
  simp only [plainOf_append, plainOf_space, plainOf_commaSeparated, tablePieces_eq, List.map_map,
    List.append_assoc]
  cases recursive <;> rfl

/-- Common tables are read before any text that does not begin with `WITH` itself. -/
theorem WithClause.reads {withClause : Option WithClause}
    (h : ∀ w ∈ withClause, w.Readable (Select.IsRead query)) :
    Reads (WithClause.read query) (fun k => after [.fixed "WITH", .space] k = none)
      (plainOf (withPieces withClause)) (canonicalWith withClause) := by
  cases withClause with
  | none =>
    rw [withPieces, canonicalWith]
    exact fun k hk => Reader.optionally_none hk
  | some w =>
    have hw := h w rfl
    have tables : Reads (Reader.listOf (CommonTable.read query))
        (fun k => ∃ rest, k = .space :: rest)
        (commaSeparated (w.tables.map fun t => plainOf t.pieces))
        (w.tables.map CommonTable.canonical) := by
      refine .list hw.nonempty (fun t ht => t.reads (hw.queries t ht) fun _ => True)
        (fun _ => trivial) (fun _ _ => trivial) ?_
      rintro k ⟨rest, rfl⟩
      rfl
    have recursive : Reads (Reader.flag [.fixed "RECURSIVE", .space])
        (fun k => after [.fixed "RECURSIVE", .space] k = none)
        (onlyIf w.recursive [.fixed "RECURSIVE", .space]) w.recursive :=
      Reader.flag_onlyIf (fun _ hk => hk) w.recursive
    rw [withPieces_text, canonicalWith_eq, Option.map_some]
    refine .optionally (.bind recursive (fun k _ => ?_) (.bind tables (fun k _ => ⟨k, rfl⟩)
      ((Reads.fixed [.space] _).last _))) _
    obtain ⟨t, rest, heq⟩ := List.exists_cons_of_ne_nil hw.nonempty
    rw [heq, List.map_cons, commaSeparated_cons]
    rfl

/-! ## Compounds -/

theorem SetOperator.reads (op : SetOperator) :
    Reads SetOperator.read (Begins ["SELECT", "VALUES"]) (.space :: Phrase.pieces op) op := by
  intro k hk
  have word (w : String) (hw : w ∈ ["SELECT", "VALUES"]) : w = "SELECT" ∨ w = "VALUES" := by
    simpa using hw
  cases hk with
  | ending => cases op <;> rfl
  | @mark w hw rest => rcases word w hw with rfl | rfl <;> cases op <;> rfl
  | @word w hw rest => rcases word w hw with rfl | rfl <;> cases op <;> rfl

theorem SetOperator.begins (op : SetOperator) (k : List Piece) :
    Begins ["UNION", "INTERSECT", "EXCEPT"] (.space :: Phrase.pieces op ++ k) := by
  cases op <;> exact .word (by decide) _

theorem Compound.reads {compound : SetOperator × SelectBody}
    (h : compound.2.Readable (Select.IsRead query)) :
    Reads (Compound.read query) (Begins bodyEnds) (plainOf (compoundText compound))
      (compound.1, compound.2.canonical) := by
  obtain ⟨op, body⟩ := compound
  have text : plainOf (compoundText (op, body)) =
      .space :: Phrase.pieces op ++ ([.space] ++ plainOf body.pieces) := by
    simp only [compoundText, plainOf_append, plainOf_space, plainOf_choice, List.cons_append,
      List.nil_append]
  rw [text]
  exact .bind op.reads (fun k _ => (body.begins k).1) (.headed _ ((SelectBody.reads h).last _))

/-- What may follow the bodies of a query. -/
def compoundEnds : List String := "ORDER" :: termEnds

theorem Compound.read_eq_none {ends : List String}
    (absent : ∀ word ∈ Phrase.starts SetOperator, word ∉ ends) {k : List Piece} (h : Begins ends k) :
    Compound.read query k = none := by
  have none : SetOperator.read k = none := by
    have found := Reader.choose_eq_none (α := SetOperator) (by decide) h absent
    cases k with
    | nil => rfl
    | cons p rest =>
      by_cases hp : .space = p
      · subst hp
        exact found
      · show (Reader.fixed [.space] (p :: rest)).bind _ = none
        rw [Reader.fixed, after_ne hp]
        rfl
  show (SetOperator.read k).bind _ = _
  rw [none, Option.bind_none]

theorem Compound.reads_all {compounds : List (SetOperator × SelectBody)}
    (h : ∀ compound ∈ compounds, compound.2.Readable (Select.IsRead query)) :
    Reads (Reader.many (Compound.read query)) (Begins compoundEnds)
      (plainOf (compoundPieces compounds)) (canonicalCompounds compounds) := by
  rw [compoundPieces_eq, plainOf_flatMap, canonicalCompounds_eq]
  refine .many (fun c hc => Compound.reads (h c hc)) (fun c _ => ?_) (fun c _ k => ?_)
    (fun k hk => hk.mono (by decide)) fun k hk => Compound.read_eq_none (by decide) hk
  · simp [compoundText, Piece.plain]
  · rw [compoundText]
    simp only [plainOf_append, plainOf_space, plainOf_choice, List.append_assoc, List.cons_append]
    exact (c.1.begins _).mono (by decide)

theorem Leads.compounds {ok : List Piece → Prop} {ps : List Piece} (h : Leads ok compoundEnds ps)
    (compounds : List (SetOperator × SelectBody)) :
    Leads ok bodyEnds (plainOf (compoundPieces compounds) ++ ps) := by
  intro k hk
  rw [compoundPieces_eq, plainOf_flatMap, List.append_assoc]
  cases compounds with
  | nil => exact (h k hk).mono (by decide)
  | cons c rest =>
    rw [List.flatMap_cons, compoundText]
    simp only [plainOf_append, plainOf_space, plainOf_choice, List.append_assoc, List.cons_append]
    exact (c.1.begins _).mono (by decide)

/-! ## Whole queries -/

theorem plainOf_orderBy (terms : List OrderingTerm) :
    plainOf (orderByPieces (termPieces terms)) =
      if terms.isEmpty then []
        else clause ["ORDER", "BY"] (some (commaSeparated (terms.map fun t => plainOf t.pieces))) := by
  cases terms with
  | nil => rfl
  | cons t rest =>
    show plainOf (orderByPieces (termPieces (t :: rest))) = clause ["ORDER", "BY"] _
    rw [termPieces_eq, List.map_cons]
    show plainOf (clause ["ORDER", "BY"] (some (commaSeparated _))) = _
    rw [plainOf_clause, Option.map_some, plainOf_commaSeparated, List.map_cons, List.map_map]
    rfl

theorem OrderingTerm.reads_all {terms : List OrderingTerm}
    (h : ∀ term ∈ terms, term.Readable (Select.IsRead query)) :
    Reads (Reader.listAfter ["ORDER", "BY"] (OrderingTerm.read query)) (Begins termEnds)
      (plainOf (orderByPieces (termPieces terms))) (canonicalTerms terms) := by
  rw [plainOf_orderBy, canonicalTerms_eq]
  exact .listAfter ["BY"] (fun t ht => OrderingTerm.reads (h t ht)) (by decide) (by decide)

theorem Leads.orderBy {ok : List Piece → Prop} {ps : List Piece} {ends : List String}
    (h : Leads ok ends ps) (terms : List OrderingTerm) :
    Leads ok ("ORDER" :: ends) (plainOf (orderByPieces (termPieces terms)) ++ ps) := by
  rw [plainOf_orderBy]
  exact h.listAfter terms "ORDER" ["BY"] _

/-- The text of a query after its common tables, as a lexer sees it. -/
def Select.afterWith (q : Select) : List Piece :=
  plainOf q.body.pieces ++ (plainOf (compoundPieces q.compounds) ++
    (plainOf (orderByPieces (termPieces q.orderBy)) ++
      (clause ["LIMIT"] (q.limit.map fun e => plainOf e.bare) ++
        clause ["OFFSET"] (q.offset.map fun e => plainOf e.bare))))

theorem Select.text (q : Select) :
    plainOf q.pieces = plainOf (withPieces q.withClause) ++ q.afterWith := by
  obtain ⟨withClause, body, compounds, orderBy, limit, offset⟩ := q
  rw [Select.pieces, Select.afterWith]
  simp only [plainOf_append, plainOf_clause, plainOf_option, List.append_assoc]

/-- A query goes on after its common tables with one of two words. -/
theorem Select.opens_after (q : Select) :
    ∃ word ∈ ["SELECT", "VALUES"], ∃ rest, q.afterWith = .fixed word :: rest := by
  obtain ⟨withClause, body, compounds, orderBy, limit, offset⟩ := q
  rcases body with ⟨distinct, columns, source, filter, groupBy, having⟩ | rows
  · cases distinct <;> exact ⟨"SELECT", by decide, _, rfl⟩
  · exact ⟨"VALUES", by decide, _, rfl⟩

theorem Select.reads_after {q : Select} (h : q.Readable (Select.IsRead query)) :
    Reads (Select.readAfter query (canonicalWith q.withClause)) (Begins queryEnds) q.afterWith
      q.canonical := by
  obtain ⟨withClause, body, compounds, orderBy, limit, offset⟩ := q
  have hLimit : Reads (Reader.optionally (lead ["LIMIT"]) (Expr.read query))
      (Begins ("OFFSET" :: queryEnds)) (clause ["LIMIT"] (limit.map fun e => plainOf e.bare))
      (canonicalOption limit) := .optionalExpr h.limit (by decide) (by decide)
  have hOffset : Reads (Reader.optionally (lead ["OFFSET"]) (Expr.read query))
      (Begins queryEnds) (clause ["OFFSET"] (offset.map fun e => plainOf e.bare))
      (canonicalOption offset) := .optionalExpr h.offset (by decide) (by decide)
  have afterLimit := Leads.lastClause queryEnds "OFFSET" [] (offset.map fun e => plainOf e.bare)
  have afterOrder := afterLimit.clause "LIMIT" [] (limit.map fun e => plainOf e.bare)
  have afterCompounds := afterOrder.orderBy orderBy
  have afterBody := afterCompounds.compounds compounds
  rw [Select.afterWith, Select.canonical]
  exact .bind (SelectBody.reads h.body) afterBody (.bind (Compound.reads_all h.compounds) afterCompounds
    (.bind (OrderingTerm.reads_all h.orderBy) afterOrder (.bind hLimit afterLimit (hOffset.last _))))

/-- The text of a query is read as its canonical form, if those of the queries inside it are. -/
theorem Select.reads_next {n : Nat} {q : Select} (h : q.Readable (Select.IsRead (Select.read n))) :
    Reads (Select.read (n + 1)) (Begins queryEnds) (plainOf q.pieces) q.canonical := by
  rw [q.text]
  refine .bind (WithClause.reads h.withClause) (fun k _ => ?_) (Select.reads_after h)
  rw [Select.afterWith, List.append_assoc]
  exact (q.body.begins _).2

end SqliteSyntax
