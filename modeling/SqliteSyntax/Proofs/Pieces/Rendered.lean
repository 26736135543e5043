import SqliteSyntax.Expr.Render
import SqliteSyntax.Proofs.Pieces.Numerals
import SqliteSyntax.Proofs.Pieces.Tidy

/-! # Expressions and queries have tidy text

Whatever the tree, its text is tidy (`Expr.tidy`, `Select.tidy`), and the text of an expression
begins with a piece that an operand can begin with (`Expr.opening`). A leading `NOT` only stands in
front of what binds no tighter than `NOT`. -/
namespace SqliteSyntax
set_option autoImplicit false

/-! ## Parts without expressions -/

theorem Literal.pieces_eq (value : Literal) :
    ∃ p : Piece, value.pieces = [p] ∧ p.standsAlone = true ∧ p.opensOperand = true ∧
      p ≠ .fixed "NOT" := by
  have numeral : ∀ digits : String, Numeral.isWritten digits.toList = true →
      ∃ p : Piece, [Piece.numeral digits] = [p] ∧ p.standsAlone = true ∧ p.opensOperand = true ∧
        p ≠ .fixed "NOT" := by
    intro digits h
    exact ⟨.numeral digits, rfl, h, h, by simp⟩
  cases value with
  | boolean b => cases b <;> exact ⟨_, rfl, by decide, by decide, by decide⟩
  | integer n =>
    refine numeral _ ?_
    rw [String.toList_ofList]
    exact isWritten_integerText n.toInt
  | real r => exact numeral _ r.isWritten_text
  | decimal d => exact numeral _ d.written
  | text t => exact ⟨_, rfl, rfl, rfl, by simp⟩
  | blob bytes => exact ⟨_, rfl, rfl, rfl, by simp⟩
  | null => exact ⟨_, rfl, by decide, by decide, by decide⟩
  | currentTime => exact ⟨_, rfl, by decide, by decide, by decide⟩
  | currentDate => exact ⟨_, rfl, by decide, by decide, by decide⟩
  | currentTimestamp => exact ⟨_, rfl, by decide, by decide, by decide⟩

theorem Literal.tidy (value : Literal) : Tidy value.pieces := by
  obtain ⟨p, hp, alone, -, -⟩ := value.pieces_eq
  rw [hp]
  exact .one alone

/-- A name, or a schema and a name, and what touches the last of them. -/
theorem QualifiedName.tidy_append {n : QualifiedName} {rest : List Piece}
    (h : Tidy (.name n.name :: rest)) : Tidy (n.pieces ++ rest) := by
  unfold QualifiedName.pieces
  split
  · exact h
  · exact .dotted rfl rfl h

theorem QualifiedName.tidy (n : QualifiedName) : Tidy n.pieces := by
  have := QualifiedName.tidy_append (Tidy.name n.name)
  rwa [List.append_nil] at this

theorem ColumnRef.tidy (c : ColumnRef) : Tidy c.pieces := by
  unfold ColumnRef.pieces
  split
  · exact .name _
  · exact QualifiedName.tidy_append (.dotted rfl rfl (.name _))
  · exact .dotted (by decide) rfl (.name _)
  · exact .dotted (by decide) rfl (.name _)

theorem Trailing.asClause (asName : Option String) : Trailing (asClause asName) := by
  refine .clause (by decide) fun ps hps => ?_
  obtain ⟨n, -, rfl⟩ := Option.map_eq_some_iff.mp hps
  exact .name n

theorem IndexHint.tidy (hint : IndexHint) : Tidy hint.pieces := by
  cases hint with
  | indexedBy index => exact (Tidy.phrase (by decide)).append (Tidy.name index).trailing
  | notIndexed => exact .phrase (by decide)

theorem TableRef.tidy (t : TableRef) : Tidy t.pieces := by
  refine (t.name.tidy.append (.asClause t.asName)).append (.spaced fun ps hps => ?_)
  obtain ⟨hint, -, rfl⟩ := Option.map_eq_some_iff.mp hps
  exact hint.tidy

theorem RaiseAction.tidy (action : RaiseAction) : Tidy action.pieces := by
  cases action with
  | ignore => exact .word (by decide)
  | rollback message => exact .listed (.word (by decide)) (.text message)
  | abort message => exact .listed (.word (by decide)) (.text message)
  | fail message => exact .listed (.word (by decide)) (.text message)

theorem BinaryOp.tidy (op : BinaryOp) : Tidy (Phrase.pieces op) :=
  .phrase (by cases op <;> decide)

theorem NullTest.tidy (test : NullTest) : Tidy (Phrase.pieces test) :=
  .phrase (by cases test <;> decide)

theorem SetOperator.tidy (op : SetOperator) : Tidy (Phrase.pieces op) :=
  .phrase (by cases op <;> decide)

theorem SortOrder.tidy (order : SortOrder) : Tidy (Phrase.pieces order) :=
  .phrase (by cases order <;> decide)

theorem NullPlacement.tidy (nulls : NullPlacement) : Tidy (Phrase.pieces nulls) :=
  .phrase (by cases nulls <;> decide)

theorem Tidy.negatable {words : List String} (negated : Bool)
    (h : ∀ w ∈ words, (Piece.fixed w).standsAlone = true) : Tidy (negatable negated words) := by
  refine .phrase fun w hw => ?_
  cases negated with
  | false => exact h w hw
  | true =>
    rcases List.mem_cons.mp hw with rfl | hw
    · decide
    · exact h w hw

theorem JoinOperator.tidy (op : JoinOperator) {left right : List Piece} (hl : Tidy left)
    (hr : Tidy right) : Tidy (left ++ op.pieces ++ right) := by
  have words : ∀ kind : JoinKind, kind ≠ .comma → ∀ w ∈
      (if op.natural then "NATURAL" :: Phrase.words kind else Phrase.words kind),
      (Piece.fixed w).standsAlone = true := by
    intro kind hkind
    cases op.natural <;> cases kind <;> first | exact absurd rfl hkind | decide
  unfold JoinOperator.pieces
  split
  · rw [List.append_assoc]
    exact .listed hl hr
  · next hkind =>
    have phrase := Tidy.phrase (words op.kind hkind)
    have := (hl.append phrase.trailing).append hr.trailing
    simpa using this

theorem Tidy.optionalNames {n : String} (names : List String) :
    Tidy (.name n :: optionalNames names) := by
  unfold SqliteSyntax.optionalNames
  split
  · exact .name n
  · refine .called rfl (.commaSeparated fun ps hps => ?_)
    obtain ⟨m, -, rfl⟩ := List.mem_map.mp hps
    exact .name m

theorem FunctionName.tidy_callPieces (f : FunctionName) (distinct : Bool)
    {arguments : List Piece} (h : Tidy arguments) : Tidy (f.callPieces distinct arguments) := by
  have inner : Tidy (onlyIf distinct [.fixed "DISTINCT", .space] ++ arguments) := by
    cases distinct with
    | false => exact h
    | true => exact (Tidy.word (by decide)).leading.append h
  cases f with
  | builtin f => exact .called (isWord_sql f) inner
  | defined name => exact .called rfl inner

/-! ## How the text of an expression begins -/

/-- The first piece can begin an operand, and is no `NOT` when the tier is above `NOT`. -/
structure Opens (tier : Precedence) (ps : List Piece) : Prop where
  exists_cons : ∃ p rest, ps = p :: rest ∧ p.opensOperand = true ∧
    (Precedence.not < tier → p ≠ .fixed "NOT")

namespace Opens

theorem cons {tier : Precedence} {p : Piece} {rest : List Piece} (opens : p.opensOperand = true)
    (h : Precedence.not < tier → p ≠ .fixed "NOT") : Opens tier (p :: rest) :=
  ⟨p, rest, rfl, opens, h⟩

theorem append {tier : Precedence} {ps : List Piece} (h : Opens tier ps) (qs : List Piece) :
    Opens tier (ps ++ qs) := by
  obtain ⟨p, rest, rfl, opens, hn⟩ := h
  exact .cons opens hn

/-- Grouping raises the tier to the one that a position asks for. -/
theorem grouped {e : Expr} {ps : List Piece} (h : Opens e.precedence ps) (tier : Precedence) :
    Opens tier (e.grouped tier ps) := by
  unfold Expr.grouped groupedIf
  split
  · exact .cons rfl fun _ => by simp
  · next hlt =>
    obtain ⟨p, rest, rfl, opens, hn⟩ := h
    refine .cons opens fun ht => hn ?_
    have hle : ¬ e.precedence < tier := by simpa using hlt
    show Precedence.rank .not < e.precedence.rank
    have h₁ : Precedence.rank .not < tier.rank := ht
    have h₂ : ¬ e.precedence.rank < tier.rank := hle
    omega

theorem weaken {tier tier' : Precedence} {ps : List Piece} (h : Opens tier ps)
    (hle : tier' ≤ tier) : Opens tier' ps := by
  obtain ⟨p, rest, rfl, opens, hn⟩ := h
  refine .cons opens fun ht => hn ?_
  have h₁ : Precedence.rank .not < tier'.rank := ht
  have h₂ : tier'.rank ≤ tier.rank := hle
  show Precedence.rank .not < tier.rank
  omega

end Opens

theorem UnaryOp.pieces_of_ne_not {op : UnaryOp} (h : op ≠ .not) (operand : List Piece) :
    ∃ m ∈ prefixMarks, Phrase.pieces op = [.fixed m] ∧ (op.isSign = false → m = "~") ∧
      op.pieces operand = .fixed m ::
        (if op.isSign && leadsWithSign operand then parenthesized operand else operand) := by
  cases op with
  | not => exact absurd rfl h
  | neg => exact ⟨"-", by decide, rfl, by decide, rfl⟩
  | plus => exact ⟨"+", by decide, rfl, by decide, rfl⟩
  | bitNot => exact ⟨"~", by decide, rfl, by decide, rfl⟩

theorem prefixMarks_open : ∀ m ∈ prefixMarks,
    (Piece.fixed m).opensOperand = true ∧ Piece.fixed m ≠ .fixed "NOT" := by
  decide

theorem FunctionName.opens (f : FunctionName) (tier : Precedence) (rest : List Piece) :
    Opens tier (f.pieces ++ rest) := by
  cases f with
  | builtin f =>
    refine .cons (decide_eq_true (sql_mem_operandOpenings f)) fun _ => ?_
    cases f <;> decide
  | defined name => exact .cons rfl fun _ => by simp

/-- How the text of an expression begins depends on its first operand alone. -/
theorem Expr.opening : (e : Expr) → Opens e.precedence e.bare
  | .literal value => by
    obtain ⟨p, hp, -, opens, hn⟩ := value.pieces_eq
    rw [Expr.bare, hp]
    exact .cons opens fun _ => hn
  | .column reference => by
    rw [Expr.bare, ColumnRef.pieces]
    split
    · exact .cons rfl fun _ => by simp
    · next t _ =>
      unfold QualifiedName.pieces
      split <;> exact .cons rfl fun _ => by simp
    · exact .cons (by decide) fun _ => by decide
    · exact .cons (by decide) fun _ => by decide
  | .unary op operand => by
    rw [Expr.bare]
    by_cases h : op = .not
    · subst h
      exact .cons (by decide) fun ht => absurd ht (Nat.lt_irrefl _)
    · obtain ⟨m, hm, -, -, heq⟩ :=
        UnaryOp.pieces_of_ne_not h (operand.grouped op.precedence operand.bare)
      rw [heq]
      have opens := prefixMarks_open m hm
      exact .cons opens.1 fun _ => opens.2
  | .binary op left right => by
    rw [Expr.bare]
    exact ((left.opening.grouped op.precedence).append _).append _
  | .nullTest test operand => by
    rw [Expr.bare]
    exact (operand.opening.grouped .equality).append _
  | .collate operand collation => by
    rw [Expr.bare]
    exact (operand.opening.grouped .collate).append _
  | .pattern op negated subject against escape => by
    rw [Expr.bare]
    exact (((subject.opening.grouped .equality).append _).append _).append _
  | .between negated subject low high => by
    rw [Expr.bare]
    exact (((subject.opening.grouped .equality).append _).append _).append _
  | .inList negated subject items => by
    rw [Expr.bare]
    exact ((subject.opening.grouped .equality).append _).append _
  | .inSelect negated subject query => by
    rw [Expr.bare]
    exact ((subject.opening.grouped .equality).append _).append _
  | .existsRow negated query => by
    rw [Expr.bare]
    cases negated with
    | false => exact .cons (by decide) fun _ => by decide
    | true => exact .cons (by decide) fun ht => absurd ht (Nat.lt_irrefl _)
  | .subquery query => by
    rw [Expr.bare]
    exact .cons (by decide) fun _ => by decide
  | .call function distinct arguments => by
    rw [Expr.bare]
    exact function.opens _ _
  | .callStar function distinct => by
    rw [Expr.bare]
    exact function.opens _ _
  | .caseWhen operand branches otherwise => by
    rw [Expr.bare]
    exact .cons (by decide) fun _ => by decide
  | .cast operand typeName => by
    rw [Expr.bare]
    exact .cons (by decide) fun _ => by decide
  | .row items => by
    rw [Expr.bare]
    exact .cons (by decide) fun _ => by decide
  | .raise action => by
    rw [Expr.bare]
    exact .cons (by decide) fun _ => by decide

theorem UnaryOp.tidy {op : UnaryOp} {tier : Precedence} {operand : List Piece}
    (h : Tidy operand) (opens : Opens tier operand) : Tidy (op.pieces operand) := by
  by_cases hop : op = .not
  · subst hop
    exact .spaced (.word (by decide)) h
  obtain ⟨m, hm, -, tilde, heq⟩ := UnaryOp.pieces_of_ne_not hop operand
  rw [heq]
  split
  · exact .signed hm (by decide) (Or.inr rfl) h.parenthesized
  · next hsign =>
    obtain ⟨p, rest, rfl, hp, -⟩ := opens
    refine .signed hm hp ?_ h
    cases hs : op.isSign with
    | false => exact Or.inl (tilde hs)
    | true =>
      rw [hs, Bool.true_and, Bool.not_eq_true] at hsign
      exact Or.inr hsign

/-! ## Expressions and queries -/

theorem Expr.tidy_grouped {e : Expr} (tier : Precedence) {ps : List Piece} (h : Tidy ps) :
    Tidy (e.grouped tier ps) :=
  h.groupedIf _

theorem Tidy.collated {e : Expr} {ps : List Piece} (h : Tidy ps) (collation : Option String) :
    Tidy (collatedPieces e ps collation) := by
  cases collation with
  | none => exact h
  | some name =>
    exact (Expr.tidy_grouped .collate h).spaced (.spaced (.word (by decide)) (.name name))

theorem Trailing.orderBy {terms : List (List Piece)} (h : ∀ ps ∈ terms, Tidy ps) :
    Trailing (orderByPieces terms) := by
  unfold orderByPieces
  split
  · exact .nil
  · refine .clause (by decide) fun ps hps => ?_
    cases hps
    exact .commaSeparated h

theorem Tidy.rows {rows : List (List (List Piece))} (h : ∀ row ∈ rows, ∀ ps ∈ row, Tidy ps) :
    Tidy (rowsPieces rows) := by
  refine .commaSeparated fun ps hps => ?_
  obtain ⟨row, hrow, rfl⟩ := List.mem_map.mp hps
  exact .parenthesized (.commaSeparated (h row hrow))

mutual

theorem Expr.tidy : (e : Expr) → Tidy e.bare
  | .literal value => by
    rw [Expr.bare]
    exact value.tidy
  | .column reference => by
    rw [Expr.bare]
    exact reference.tidy
  | .unary op operand => by
    rw [Expr.bare]
    exact UnaryOp.tidy (Expr.tidy_grouped _ operand.tidy) (operand.opening.grouped op.precedence)
  | .binary op left right => by
    rw [Expr.bare]
    have hl := Expr.tidy_grouped (e := left) op.precedence left.tidy
    have hr := Expr.tidy_grouped (e := right) op.rightTier right.tidy
    exact (hl.append op.tidy.trailing).append hr.trailing
  | .nullTest test operand => by
    rw [Expr.bare]
    exact (Expr.tidy_grouped _ operand.tidy).append test.tidy.trailing
  | .collate operand collation => by
    rw [Expr.bare]
    exact operand.tidy.collated (e := operand) (some collation)
  | .pattern op negated subject against escape => by
    rw [Expr.bare]
    have words : Tidy (negatable negated (Phrase.words op)) :=
      .negatable negated (by cases op <;> decide)
    have hs := Expr.tidy_grouped (e := subject) .equality subject.tidy
    have ha := Expr.tidy_grouped (e := against) .comparison against.tidy
    exact ((hs.append words.trailing).append ha.trailing).append
      (.clause (by decide) (escapePieces_tidy escape))
  | .between negated subject low high => by
    rw [Expr.bare]
    have words : Tidy (negatable negated ["BETWEEN"]) := .negatable negated (by decide)
    have hs := Expr.tidy_grouped (e := subject) .equality subject.tidy
    have hlow := Expr.tidy_grouped (e := low) .comparison low.tidy
    have hhigh := Expr.tidy_grouped (e := high) .comparison high.tidy
    exact ((hs.append words.trailing).append hlow.trailing).append
      ((Tidy.word (t := "AND") (by decide)).trailing.append hhigh.trailing)
  | .inList negated subject items => by
    rw [Expr.bare]
    have words : Tidy (negatable negated ["IN"]) := .negatable negated (by decide)
    have hs := Expr.tidy_grouped (e := subject) .equality subject.tidy
    exact (hs.append words.trailing).append
      (Tidy.parenthesized (.commaSeparated (listPieces_tidy items))).trailing
  | .inSelect negated subject query => by
    rw [Expr.bare]
    have words : Tidy (negatable negated ["IN"]) := .negatable negated (by decide)
    have hs := Expr.tidy_grouped (e := subject) .equality subject.tidy
    exact (hs.append words.trailing).append query.tidy.parenthesized.trailing
  | .existsRow negated query => by
    rw [Expr.bare]
    have words : Tidy (negatable negated ["EXISTS"]) := .negatable negated (by decide)
    exact words.append query.tidy.parenthesized.trailing
  | .subquery query => by
    rw [Expr.bare]
    exact query.tidy.parenthesized
  | .call function distinct arguments => by
    rw [Expr.bare]
    exact function.tidy_callPieces distinct (.commaSeparated (listPieces_tidy arguments))
  | .callStar function distinct => by
    rw [Expr.bare]
    exact function.tidy_callPieces distinct (.one (by decide))
  | .caseWhen operand branches otherwise => by
    rw [Expr.bare]
    have operand := Trailing.spaced (optionPieces_tidy operand)
    have otherwise : Trailing (clause ["ELSE"] (optionPieces otherwise)) :=
      .clause (by decide) (optionPieces_tidy otherwise)
    have ending := (Tidy.word (t := "END") (by decide)).trailing
    exact ((((Tidy.word (by decide)).append operand).append (branchPieces_trailing branches)).append
      otherwise).append ending
  | .cast operand typeName => by
    rw [Expr.bare]
    exact .called (by decide) (operand.tidy.spaced (.spaced (.word (by decide)) (.verbatim _)))
  | .row items => by
    rw [Expr.bare]
    exact .parenthesized (.commaSeparated (listPieces_tidy items))
  | .raise action => by
    rw [Expr.bare]
    exact .called (by decide) action.tidy

theorem listPieces_tidy : (items : List Expr) → ∀ ps ∈ listPieces items, Tidy ps
  | [], _, h => absurd h List.not_mem_nil
  | e :: rest, ps, h => by
    rw [listPieces] at h
    rcases List.mem_cons.mp h with rfl | h
    · exact e.tidy
    · exact listPieces_tidy rest ps h

theorem optionPieces_tidy : (item : Option Expr) → ∀ ps, optionPieces item = some ps → Tidy ps
  | none, _, h => by
    rw [optionPieces] at h
    cases h
  | some e, _, h => by
    rw [optionPieces] at h
    cases h
    exact e.tidy

theorem escapePieces_tidy : (item : Option Expr) → ∀ ps, escapePieces item = some ps → Tidy ps
  | none, _, h => by
    rw [escapePieces] at h
    cases h
  | some e, _, h => by
    rw [escapePieces] at h
    cases h
    exact Expr.tidy_grouped _ e.tidy

theorem branchPieces_trailing : (branches : List (Expr × Expr)) → Trailing (branchPieces branches)
  | [] => by
    rw [branchPieces]
    exact .nil
  | (condition, result) :: rest => by
    rw [branchPieces]
    have hw := (Tidy.word (t := "WHEN") (by decide)).trailing.append condition.tidy.trailing
    have ht := (Tidy.word (t := "THEN") (by decide)).trailing.append result.tidy.trailing
    have := (hw.append ht).append (branchPieces_trailing rest)
    simpa using this

theorem rowListPieces_tidy : (rows : List (List Expr)) →
    ∀ row ∈ rowListPieces rows, ∀ ps ∈ row, Tidy ps
  | [], _, h => absurd h List.not_mem_nil
  | row :: rest, ps, h => by
    rw [rowListPieces] at h
    rcases List.mem_cons.mp h with rfl | h
    · exact listPieces_tidy row
    · exact rowListPieces_tidy rest ps h

theorem Select.tidy : (q : Select) → Tidy q.pieces
  | ⟨withClause, body, compounds, orderBy, limit, offset⟩ => by
    rw [Select.pieces]
    have front := (withPieces_leading withClause).append body.tidy
    have order := Trailing.orderBy (termPieces_tidy orderBy)
    exact (((front.append (compoundPieces_trailing compounds)).append order).append
      (.clause (by decide) (optionPieces_tidy limit))).append
      (.clause (by decide) (optionPieces_tidy offset))

theorem withPieces_leading : (withClause : Option WithClause) → Leading (withPieces withClause)
  | none => by
    rw [withPieces]
    exact Or.inl rfl
  | some ⟨recursive, tables⟩ => by
    rw [withPieces]
    have words : Tidy (phrase (if recursive then ["WITH", "RECURSIVE"] else ["WITH"])) :=
      .phrase (by cases recursive <;> decide)
    exact (words.append (Tidy.commaSeparated (tablePieces_tidy tables)).trailing).leading

theorem tablePieces_tidy : (tables : List CommonTable) → ∀ ps ∈ tablePieces tables, Tidy ps
  | [], _, h => absurd h List.not_mem_nil
  | ⟨name, columns, materialized, query⟩ :: rest, ps, h => by
    rw [tablePieces] at h
    rcases List.mem_cons.mp h with rfl | h
    · have words : Tidy (phrase (materializedWords materialized)) :=
        .phrase (by rcases materialized with _ | (_ | _) <;> decide)
      have := ((Tidy.optionalNames (n := name) columns).append words.trailing).append
        query.tidy.parenthesized.trailing
      exact this
    · exact tablePieces_tidy rest ps h

theorem SelectBody.tidy : (body : SelectBody) → Tidy body.pieces
  | .core core => by
    rw [SelectBody.pieces]
    exact core.tidy
  | .values rows => by
    rw [SelectBody.pieces]
    exact .spaced (.word (by decide)) (.rows (rowListPieces_tidy rows))

theorem compoundPieces_trailing : (compounds : List (SetOperator × SelectBody)) →
    Trailing (compoundPieces compounds)
  | [] => by
    rw [compoundPieces]
    exact .nil
  | (op, body) :: rest => by
    rw [compoundPieces]
    exact (op.tidy.trailing.append body.tidy.trailing).append (compoundPieces_trailing rest)

theorem SelectCore.tidy : (core : SelectCore) → Tidy core.pieces
  | ⟨distinct, columns, source, filter, groupBy, having⟩ => by
    rw [SelectCore.pieces]
    have words : Tidy (phrase (if distinct then ["SELECT", "DISTINCT"] else ["SELECT"])) :=
      .phrase (by cases distinct <;> decide)
    have columns : Tidy (if columns.isEmpty then [.fixed "*"]
        else commaSeparated (columnPieces columns)) := by
      split
      · exact .one (by decide)
      · exact .commaSeparated (columnPieces_tidy columns)
    have groups : Trailing (if groupBy.isEmpty then []
        else clause ["GROUP", "BY"] (some (commaSeparated (listPieces groupBy)))) := by
      split
      · exact .nil
      · refine .clause (by decide) fun ps hps => ?_
        cases hps
        exact .commaSeparated (listPieces_tidy groupBy)
    exact ((((words.append columns.trailing).append
      (.clause (by decide) (sourcePieces_tidy source))).append
      (.clause (by decide) (optionPieces_tidy filter))).append groups).append
      (.clause (by decide) (optionPieces_tidy having))

theorem sourcePieces_tidy : (source : Option FromTree) →
    ∀ ps, sourcePieces source = some ps → Tidy ps
  | none, _, h => by
    rw [sourcePieces] at h
    cases h
  | some tree, _, h => by
    rw [sourcePieces] at h
    cases h
    exact tree.tidy

theorem columnPieces_tidy : (columns : List ResultColumn) → ∀ ps ∈ columnPieces columns, Tidy ps
  | [], _, h => absurd h List.not_mem_nil
  | .star :: rest, ps, h => by
    rw [columnPieces] at h
    rcases List.mem_cons.mp h with rfl | h
    · exact .one (by decide)
    · exact columnPieces_tidy rest ps h
  | .tableStar table :: rest, ps, h => by
    rw [columnPieces] at h
    rcases List.mem_cons.mp h with rfl | h
    · exact .dotted rfl (by decide) (.one (by decide))
    · exact columnPieces_tidy rest ps h
  | .expr value asName :: rest, ps, h => by
    rw [columnPieces] at h
    rcases List.mem_cons.mp h with rfl | h
    · exact value.tidy.append (.asClause asName)
    · exact columnPieces_tidy rest ps h

theorem termPieces_tidy : (terms : List OrderingTerm) → ∀ ps ∈ termPieces terms, Tidy ps
  | [], _, h => absurd h List.not_mem_nil
  | ⟨expr, collation, direction, nulls⟩ :: rest, ps, h => by
    rw [termPieces] at h
    rcases List.mem_cons.mp h with rfl | h
    · exact ((expr.tidy.collated (e := expr) collation).append
        (.choice SortOrder.tidy direction)).append (.choice NullPlacement.tidy nulls)
    · exact termPieces_tidy rest ps h

theorem FromTree.tidy : (tree : FromTree) → Tidy tree.pieces
  | .table reference => by
    rw [FromTree.pieces]
    exact reference.tidy
  | .subquery query asName => by
    rw [FromTree.pieces]
    exact query.tidy.parenthesized.append (.asClause asName)
  | .function name arguments asName => by
    rw [FromTree.pieces]
    have call := QualifiedName.tidy_append (n := name)
      (.called (p := .name name.name) rfl (.commaSeparated (listPieces_tidy arguments)))
    exact call.append (.asClause asName)
  | .join left op right constraint => by
    rw [FromTree.pieces]
    have right : Tidy (if right.isJoin then parenthesized right.pieces else right.pieces) := by
      split
      · exact right.tidy.parenthesized
      · exact right.tidy
    exact (op.tidy left.tidy right).append (constraintPieces_trailing constraint)

theorem constraintPieces_trailing : (constraint : Option JoinConstraint) →
    Trailing (constraintPieces constraint)
  | none => by
    rw [constraintPieces]
    exact .nil
  | some (.condition condition) => by
    rw [constraintPieces]
    exact (Tidy.word (t := "ON") (by decide)).trailing.append condition.tidy.trailing
  | some (.columns names) => by
    rw [constraintPieces]
    exact (Tidy.word (t := "USING") (by decide)).trailing.append (Tidy.nameList names).trailing

end

end SqliteSyntax
