import SqliteSyntax.Proofs.Reading.Tables

/-! # Bodies of queries are read back

Result columns, ordering terms, `SELECT` bodies and rows, each read part by part in the order of its
text. -/
namespace SqliteSyntax
set_option autoImplicit false

/-! ## What must hold of a body -/

section Readable
variable (P : Select → Prop)

def ResultColumn.Readable : ResultColumn → Prop
  | .expr value _ => value.Readable P
  | _ => True

def OrderingTerm.Readable (t : OrderingTerm) : Prop := t.expr.Readable P

structure SelectCore.Readable (c : SelectCore) : Prop where
  columns : ∀ column ∈ c.columns, column.Readable P
  source : ∀ tree ∈ c.source, tree.Readable P
  filter : ∀ e ∈ c.filter, e.Readable P
  groupBy : ∀ e ∈ c.groupBy, e.Readable P
  having : ∀ e ∈ c.having, e.Readable P

def SelectBody.Readable : SelectBody → Prop
  | .core c => c.Readable P
  | .values rows => rows ≠ [] ∧ ∀ row ∈ rows, ∀ e ∈ row, e.Readable P

end Readable

/-! ## Readers -/

/-- The list that follows a phrase, if the phrase stands here. -/
def Reader.listAfter {α : Type} (words : List String) (read : Reader α) : Reader (List α) := do
  let items ← optionally (lead words) (listOf read)
  return items.getD []

section Readers
variable (query : Reader Select)

/-- The table of a star over one table, if it stands here. -/
def tableStar? (ps : List Piece) : Option (String × List Piece) :=
  match ps with
  | .name table :: .fixed "." :: .fixed "*" :: rest => some (table, rest)
  | _ => none

def ResultColumn.read : Reader ResultColumn := fun ps =>
  match after [.fixed "*"] ps with
  | some rest => some (.star, rest)
  | none =>
    match tableStar? ps with
    | some (table, rest) => some (.tableStar table, rest)
    | none => (do
        let value ← Expr.read query
        let asName ← Reader.asName
        return .expr value asName : Reader ResultColumn) ps

def OrderingTerm.read : Reader OrderingTerm := do
  let e ← Expr.read query
  let direction ← Reader.choice SortOrder
  let nulls ← Reader.choice NullPlacement
  return ⟨e, none, direction, nulls⟩

def SelectCore.read : Reader SelectCore := do
  Reader.fixed [.fixed "SELECT", .space]
  let distinct ← Reader.flag [.fixed "DISTINCT", .space]
  let columns ← Reader.listOf (ResultColumn.read query)
  let source ← Reader.optionally (lead ["FROM"]) (FromTree.read query)
  let filter ← Reader.optionally (lead ["WHERE"]) (Expr.read query)
  let groupBy ← Reader.listAfter ["GROUP", "BY"] (Expr.read query)
  let having ← Reader.optionally (lead ["HAVING"]) (Expr.read query)
  return ⟨distinct, columns, source, filter, groupBy, having⟩

/-- The rows of a `VALUES` list, after that word. -/
def readRows : Reader (List (List Expr)) :=
  Reader.listOf (Reader.bracketed (Reader.items (Expr.read query)))

def SelectBody.read : Reader SelectBody := fun ps =>
  match after [.fixed "VALUES", .space] ps with
  | some rest => (SelectBody.values <$> readRows query) rest
  | none => (SelectBody.core <$> SelectCore.read query) ps

end Readers

/-! ## Lists after a phrase -/

theorem Reads.listAfter_nil {α : Type} {read : Reader α} {ends : List String} {word : String}
    (more : List String) (absent : word ∉ ends) :
    Reads (Reader.listAfter (word :: more) read) (Begins ends) [] [] := by
  have none : Reads (Reader.optionally (lead (word :: more)) (Reader.listOf read)) (Begins ends) []
      none := fun k hk => Reader.optionally_none (hk.after_lead absent more)
  exact none.last fun items => items.getD []

theorem Reads.listAfter {α β : Type} {read : Reader α} {ends : List String}
    {shown : β → List Piece} {value : β → α} {items : List β} {word : String} (more : List String)
    (h : ∀ b ∈ items, Reads read (Begins ("," :: ends)) (shown b) (value b)) (comma : "," ∉ ends)
    (absent : word ∉ ends) :
    Reads (Reader.listAfter (word :: more) read) (Begins ends)
      (if items.isEmpty then []
        else SqliteSyntax.clause (word :: more) (some (commaSeparated (items.map shown))))
      (items.map value) := by
  cases items with
  | nil => exact .listAfter_nil more absent
  | cons b rest =>
    have list := (Reads.listOf (List.cons_ne_nil b rest) h comma).optionally (lead (word :: more))
    rw [← clause_some] at list
    exact list.last fun items => items.getD []

theorem Begins.listAfter {ends : List String} {k : List Piece} (h : Begins ends k) {α : Type}
    (items : List α) (word : String) (more : List String) (body : List Piece) :
    Begins (word :: ends)
      ((if items.isEmpty then [] else SqliteSyntax.clause (word :: more) (some body)) ++ k) := by
  cases items with
  | nil => exact h.mono (List.subset_cons_self ..)
  | cons a rest => exact h.clause word more (some body)

theorem Leads.listAfter {ok : List Piece → Prop} {ends : List String} {ps : List Piece}
    (h : Leads ok ends ps) {α : Type} (items : List α) (word : String) (more : List String)
    (body : List Piece) :
    Leads ok (word :: ends)
      ((if items.isEmpty then [] else SqliteSyntax.clause (word :: more) (some body)) ++ ps) := by
  intro k hk
  rw [List.append_assoc]
  exact (h k hk).listAfter items word more body

/-! ## Result columns and ordering terms -/

variable {query : Reader Select}

/-- A name before a star is read as a column as far as it goes. -/
theorem readAt_star {Q : Type} (readQuery : List Piece → Option Q) (table : String) (k : List Piece)
    {n : Nat} {tier : Precedence} (hn : 14 ≤ n + tier.rank) :
    readAt readQuery n tier (.name table :: .fixed "." :: .fixed "*" :: k) =
      some (.column ⟨none, table⟩, .fixed "." :: .fixed "*" :: k) := by
  induction n generalizing tier with
  | zero =>
    have := tier.rank_le
    omega
  | succ n ih =>
    have := tier.rank_le
    obtain ⟨n, rfl⟩ : ∃ m, n = m + 1 := ⟨n - 1, by omega⟩
    by_cases chain : tier.isChain = true
    · have above := Precedence.rank_above (Precedence.isChain_ne_primary chain)
      rw [readAt_chain chain, ih (by omega), Option.bind_some, readMore]
      rfl
    · cases tier with
      | not =>
        rw [readAt]
        exact ih (by simp only [Precedence.rank] at hn ⊢; omega)
      | unary =>
        rw [readAt]
        exact ih (by simp only [Precedence.rank] at hn ⊢; omega)
      | primary =>
        rw [readAt]
        rfl
      | _ => exact absurd rfl chain

theorem Expr.tableStar?_eq_none {e : Expr} (h : e.Readable (Select.IsRead query)) {k : List Piece}
    (hk : Begins exprEnds k) : tableStar? (plainOf e.bare ++ k) = none := by
  unfold tableStar?
  split
  · next table rest heq =>
    -- The same text read as the expression leaves what follows it, which begins with no dot.
    have whole := (Expr.fits_canonical h).reads (20 * (plainOf e.bare ++ k).length + 14) k
      (by simp only [List.length_append]; omega) (hk.stops .lowest)
    rw [heq, readAt_star _ table rest (Nat.le_add_right_of_le (Nat.le_add_left ..))] at whole
    obtain rfl := (Prod.mk.inj (Option.some.inj whole)).2
    cases hk with
    | mark hw _ => exact absurd hw (by decide)
  · rfl

theorem ResultColumn.reads {ends : List String} (sub : ∀ w ∈ ends, w ∈ exprEnds)
    (as : "AS" ∉ ends) {column : ResultColumn} (h : column.Readable (Select.IsRead query)) :
    Reads (ResultColumn.read query) (Begins ends) (plainOf column.pieces) column.canonical := by
  cases column with
  | star =>
    intro k _
    rw [ResultColumn.canonical]
    rfl
  | tableStar table =>
    intro k _
    rw [ResultColumn.canonical]
    rfl
  | expr value asName =>
    have goesOn (k : List Piece) (hk : Begins ends k) : Begins exprEnds (asClause asName ++ k) :=
      (hk.clause "AS" [] _).mono fun w hw => by
        rcases List.mem_cons.mp hw with rfl | hw
        · decide
        · exact sub w hw
    intro k hk
    have text : plainOf (ResultColumn.expr value asName).pieces =
        plainOf value.bare ++ asClause asName := by
      rw [ResultColumn.pieces, plainOf_append, plainOf_asClause]
    have star : after [.fixed "*"] (plainOf value.bare ++ asClause asName ++ k) = none := by
      rw [List.append_assoc]
      exact value.after_mark (by decide) [] _
    have tableStar : tableStar? (plainOf value.bare ++ asClause asName ++ k) = none := by
      rw [List.append_assoc]
      exact Expr.tableStar?_eq_none h (goesOn k hk)
    rw [text, ResultColumn.read, star, ResultColumn.canonical]
    simp only [tableStar]
    exact Reads.bind (Expr.reads h) goesOn ((Reads.asName as asName).last _) k hk

theorem collatedPieces_eq (e : Expr) (collation : Option String) :
    collatedPieces e e.bare collation = (e.collated collation).bare := by
  cases collation with
  | none => rfl
  | some name => rw [Expr.collated, Expr.bare, collatedPieces]

theorem Expr.canonical_collated (e : Expr) (collation : Option String) :
    (e.collated collation).canonical = e.canonical.collated collation := by
  cases collation with
  | none => rfl
  | some name => rw [Expr.collated, Expr.canonical, Expr.collated]

theorem Expr.Readable.collated {P : Select → Prop} {e : Expr} (h : e.Readable P)
    (collation : Option String) : (e.collated collation).Readable P := by
  cases collation with
  | none => exact h
  | some name =>
    rw [Expr.collated, Expr.Readable]
    exact h

/-- What may follow the ordering terms of a query or a change of rows. -/
def termEnds : List String := "LIMIT" :: "OFFSET" :: queryEnds

theorem OrderingTerm.reads {t : OrderingTerm} (h : t.Readable (Select.IsRead query)) :
    Reads (OrderingTerm.read query) (Begins ("," :: termEnds)) (plainOf t.pieces) t.canonical := by
  obtain ⟨expr, collation, direction, nulls⟩ := t
  have text : plainOf (OrderingTerm.pieces ⟨expr, collation, direction, nulls⟩) =
      plainOf (expr.collated collation).bare ++ (Phrase.optional direction ++ Phrase.optional nulls) := by
    rw [OrderingTerm.pieces, collatedPieces_eq, plainOf_append, plainOf_append, plainOf_optional,
      plainOf_optional, List.append_assoc]
  have begins (k : List Piece) (hk : Begins ("," :: termEnds) k) :=
    hk.optional NullPlacement.distinct.nonempty nulls
  rw [text, OrderingTerm.canonical, ← Expr.canonical_collated]
  refine .bind (Expr.reads (h.collated collation)) (fun k hk => ?_)
    (.bind (.choice SortOrder.distinct (by decide) direction) begins
      ((Reads.choice NullPlacement.distinct (by decide) nulls).last _))
  rw [List.append_assoc]
  exact ((begins k hk).optional SortOrder.distinct.nonempty direction).mono (by decide)

/-! ## The lists of a query in canonical form -/

theorem canonicalColumns_eq (columns : List ResultColumn) :
    canonicalColumns columns = columns.map ResultColumn.canonical := by
  induction columns with
  | nil => rw [canonicalColumns, List.map_nil]
  | cons c rest ih => rw [canonicalColumns, List.map_cons, ih]

theorem canonicalTerms_eq (terms : List OrderingTerm) :
    canonicalTerms terms = terms.map OrderingTerm.canonical := by
  induction terms with
  | nil => rw [canonicalTerms, List.map_nil]
  | cons t rest ih => rw [canonicalTerms, List.map_cons, ih]

theorem canonicalSource_eq (source : Option FromTree) :
    canonicalSource source = source.map FromTree.canonical := by
  cases source with
  | none => rw [canonicalSource, Option.map_none]
  | some t => rw [canonicalSource, Option.map_some]

theorem canonicalRows_eq (rows : List (List Expr)) :
    canonicalRows rows = rows.map canonicalList := by
  induction rows with
  | nil => rw [canonicalRows, List.map_nil]
  | cons row rest ih => rw [canonicalRows, List.map_cons, ih]

theorem orStar_map (columns : List ResultColumn) :
    orStar (columns.map ResultColumn.canonical) = (orStar columns).map ResultColumn.canonical := by
  cases columns with
  | nil =>
    show [ResultColumn.star] = [ResultColumn.star.canonical]
    rw [ResultColumn.canonical]
  | cons c rest => rfl

/-! ## Bodies -/

/-- What may follow a body of a query. -/
def bodyEnds : List String :=
  "UNION" :: "INTERSECT" :: "EXCEPT" :: "ORDER" :: termEnds

theorem Reads.optionalExpr {item : Option Expr} {ends : List String} {word : String}
    (h : ∀ e ∈ item, e.Readable (Select.IsRead query)) (sub : ∀ w ∈ ends, w ∈ exprEnds)
    (absent : word ∉ ends) :
    Reads (Reader.optionally (lead [word]) (Expr.read query)) (Begins ends)
      (SqliteSyntax.clause [word] (item.map fun e => plainOf e.bare)) (canonicalOption item) := by
  rw [canonicalOption_eq]
  exact .clause (fun e he => (Expr.reads (h e he)).weaken fun k hk => hk.mono sub) absent []

theorem SelectCore.text (distinct : Bool) (columns : List ResultColumn) (source : Option FromTree)
    (filter : Option Expr) (groupBy : List Expr) (having : Option Expr) :
    plainOf (SelectCore.pieces ⟨distinct, columns, source, filter, groupBy, having⟩) =
      [.fixed "SELECT", .space] ++ (onlyIf distinct [.fixed "DISTINCT", .space] ++
        (commaSeparated ((orStar columns).map fun c => plainOf c.pieces) ++
          (clause ["FROM"] (source.map fun t => plainOf t.pieces) ++
            (clause ["WHERE"] (filter.map fun e => plainOf e.bare) ++
              ((if groupBy.isEmpty then []
                else clause ["GROUP", "BY"]
                  (some (commaSeparated (groupBy.map fun e => plainOf e.bare)))) ++
                clause ["HAVING"] (having.map fun e => plainOf e.bare)))))) := by
  have columnText : plainOf (if columns.isEmpty then [.fixed "*"]
      else commaSeparated (columnPieces columns)) =
      commaSeparated ((orStar columns).map fun c => plainOf c.pieces) := by
    cases columns with
    | nil => rfl
    | cons c rest =>
      show plainOf (commaSeparated (columnPieces (c :: rest))) = _
      rw [plainOf_commaSeparated, columnPieces_eq, List.map_map]
      rfl
  have groupText : plainOf (if groupBy.isEmpty then []
      else clause ["GROUP", "BY"] (some (commaSeparated (listPieces groupBy)))) =
      if groupBy.isEmpty then []
        else clause ["GROUP", "BY"] (some (commaSeparated (groupBy.map fun e => plainOf e.bare))) := by
    split
    · rfl
    · rw [plainOf_clause, Option.map_some, plainOf_list]
  rw [SelectCore.pieces]
  simp only [plainOf_append, plainOf_clause, plainOf_space, plainOf_option, columnText, groupText,
    sourcePieces_eq, Option.map_map, List.append_assoc]
  cases distinct <;> rfl

/-- What may follow the tables of a body. -/
def sourceEnds : List String := "WHERE" :: "GROUP" :: "HAVING" :: bodyEnds

theorem ResultColumn.after_distinct (column : ResultColumn) (k : List Piece) :
    after [.fixed "DISTINCT", .space] (plainOf column.pieces ++ k) = none := by
  cases column with
  | star => rfl
  | tableStar table => rfl
  | expr value asName =>
    rw [ResultColumn.pieces, plainOf_append, List.append_assoc]
    exact value.after_mark (by decide) _ _

theorem ResultColumn.readable_orStar {P : Select → Prop} {columns : List ResultColumn}
    (h : ∀ column ∈ columns, column.Readable P) : ∀ column ∈ orStar columns, column.Readable P := by
  cases columns with
  | nil =>
    intro column hc
    obtain rfl := List.mem_singleton.mp hc
    exact trivial
  | cons c rest => exact h

theorem orStar_ne_nil (columns : List ResultColumn) : orStar columns ≠ [] := by
  cases columns with
  | nil => exact List.cons_ne_nil _ _
  | cons c rest => exact List.cons_ne_nil c rest

theorem ResultColumn.after_distinct_list (columns : List ResultColumn) (k : List Piece) :
    after [.fixed "DISTINCT", .space]
      (commaSeparated ((orStar columns).map fun c => plainOf c.pieces) ++ k) = none := by
  obtain ⟨c, rest, heq⟩ := List.exists_cons_of_ne_nil (orStar_ne_nil columns)
  rw [heq, List.map_cons, commaSeparated_cons, List.append_assoc]
  exact c.after_distinct _

theorem SelectCore.reads {c : SelectCore} (h : c.Readable (Select.IsRead query)) :
    Reads (SelectCore.read query) (Begins bodyEnds) (plainOf c.pieces) c.canonical := by
  obtain ⟨distinct, columns, source, filter, groupBy, having⟩ := c
  have hColumns : Reads (Reader.listOf (ResultColumn.read query)) (Begins ("FROM" :: sourceEnds))
      (commaSeparated ((orStar columns).map fun c => plainOf c.pieces))
      (orStar (canonicalColumns columns)) := by
    rw [canonicalColumns_eq, orStar_map]
    exact .listOf (orStar_ne_nil columns) (fun c hc => c.reads (by decide) (by decide)
      (ResultColumn.readable_orStar h.columns c hc)) (by decide)
  have hSource : Reads (Reader.optionally (lead ["FROM"]) (FromTree.read query)) (Begins sourceEnds)
      (clause ["FROM"] (source.map fun t => plainOf t.pieces)) (canonicalSource source) := by
    rw [canonicalSource_eq]
    exact .clause (fun t ht => (FromTree.reads (h.source t ht)).weaken fun k hk => hk.mono (by decide))
      (by decide) []
  have hGroup : Reads (Reader.listAfter ["GROUP", "BY"] (Expr.read query))
      (Begins ("HAVING" :: bodyEnds))
      (if groupBy.isEmpty then []
        else clause ["GROUP", "BY"] (some (commaSeparated (groupBy.map fun e => plainOf e.bare))))
      (canonicalList groupBy) := by
    rw [canonicalList_eq]
    exact .listAfter ["BY"] (fun e he => (Expr.reads (h.groupBy e he)).weaken fun k hk =>
      hk.mono (by decide)) (by decide) (by decide)
  have hFilter : Reads (Reader.optionally (lead ["WHERE"]) (Expr.read query))
      (Begins ("GROUP" :: "HAVING" :: bodyEnds)) (clause ["WHERE"] (filter.map fun e => plainOf e.bare))
      (canonicalOption filter) := .optionalExpr h.filter (by decide) (by decide)
  have hHaving : Reads (Reader.optionally (lead ["HAVING"]) (Expr.read query)) (Begins bodyEnds)
      (clause ["HAVING"] (having.map fun e => plainOf e.bare)) (canonicalOption having) :=
    .optionalExpr h.having (by decide) (by decide)
  have afterGroup := Leads.lastClause bodyEnds "HAVING" [] (having.map fun e => plainOf e.bare)
  have afterFilter := afterGroup.listAfter groupBy "GROUP" ["BY"]
    (commaSeparated (groupBy.map fun e => plainOf e.bare))
  have afterSource := afterFilter.clause "WHERE" [] (filter.map fun e => plainOf e.bare)
  have afterColumns := afterSource.clause "FROM" [] (source.map fun t => plainOf t.pieces)
  have hDistinct : Reads (Reader.flag [.fixed "DISTINCT", .space])
      (fun k => after [.fixed "DISTINCT", .space] k = none)
      (onlyIf distinct [.fixed "DISTINCT", .space]) distinct :=
    Reader.flag_onlyIf (fun _ hk => hk) distinct
  rw [SelectCore.text, SelectCore.canonical]
  refine .headed _ (.bind hDistinct (fun k _ => ?_) (.bind hColumns afterColumns
    (.bind hSource afterSource (.bind hFilter afterFilter (.bind hGroup afterGroup
      (hHaving.last _))))))
  rw [List.append_assoc]
  exact ResultColumn.after_distinct_list columns _

theorem reads_rows {rows : List (List Expr)} (ne : rows ≠ [])
    (h : ∀ row ∈ rows, ∀ e ∈ row, e.Readable (Select.IsRead query)) :
    Reads (readRows query) (Begins bodyEnds) (plainOf (rowsPieces (rowListPieces rows)))
      (canonicalRows rows) := by
  have text : plainOf (rowsPieces (rowListPieces rows)) =
      commaSeparated (rows.map fun row => plainOf (parenthesized (commaSeparated (listPieces row)))) := by
    rw [rowsPieces, plainOf_commaSeparated, rowListPieces_eq, List.map_map, List.map_map]
    simp only [listPieces_eq]
    rfl
  rw [text, canonicalRows_eq]
  exact .listOf ne (fun row hr => Expr.reads_items (h row hr) _) (by decide)

theorem SelectBody.reads {b : SelectBody} (h : b.Readable (Select.IsRead query)) :
    Reads (SelectBody.read query) (Begins bodyEnds) (plainOf b.pieces) b.canonical := by
  cases b with
  | values rows =>
    rw [SelectBody.pieces, SelectBody.canonical]
    exact (reads_rows h.1 h.2).map SelectBody.values
  | core c =>
    have core := (SelectCore.reads h).map SelectBody.core
    rw [SelectBody.pieces, SelectBody.canonical]
    intro k hk
    have values : after [.fixed "VALUES", .space] (plainOf c.pieces ++ k) = none := by
      obtain ⟨distinct, columns, source, filter, groupBy, having⟩ := c
      rw [SelectCore.text]
      rfl
    rw [SelectBody.read, values]
    exact core k hk

/-- A body begins with one of its two words. -/
theorem SelectBody.begins (b : SelectBody) (k : List Piece) :
    Begins ["SELECT", "VALUES"] (.space :: (plainOf b.pieces ++ k)) ∧
      after [.fixed "WITH", .space] (plainOf b.pieces ++ k) = none := by
  cases b with
  | values rows => exact ⟨.word (by decide) _, rfl⟩
  | core c =>
    obtain ⟨distinct, columns, source, filter, groupBy, having⟩ := c
    rw [SelectBody.pieces, SelectCore.text]
    exact ⟨.word (by decide) _, rfl⟩

end SqliteSyntax
