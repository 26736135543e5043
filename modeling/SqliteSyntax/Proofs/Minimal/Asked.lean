import SqliteSyntax.Proofs.Minimal.Grouped
import SqliteSyntax.Proofs.Reading.Readable

/-! # Every pair of an expression is asked for

By induction on the expression, each pair that precedence puts into its text is one that the cover
of its term asks for (`Expr.asked`). What is put between parentheses has an operator outside of all
its parentheses, and so has what holds an operand between parentheses (`Expr.Asked.exposed`). -/
namespace SqliteSyntax
set_option autoImplicit false

/-! ## Queries -/

/-- A query begins with a word. -/
theorem Select.opening (q : Select) :
    ∃ word rest, q.pieces = .fixed word :: rest ∧ word ∈ ["SELECT", "VALUES", "WITH"] := by
  obtain ⟨withClause, body, compounds, orderBy, limit, offset⟩ := q
  cases withClause with
  | some w =>
    obtain ⟨recursive, tables⟩ := w
    cases recursive <;> exact ⟨"WITH", _, rfl, by decide⟩
  | none =>
    cases body with
    | values rows => exact ⟨"VALUES", _, rfl, by decide⟩
    | core core =>
      obtain ⟨distinct, columns, source, filter, groupBy, having⟩ := core
      cases distinct <;> exact ⟨"SELECT", _, rfl, by decide⟩

/-- The pairs inside a query are left to its text. -/
theorem Select.grouped (q : Select) (loose : Bool) :
    Grouped loose (.query q.sql) (parenthesized q.pieces) where
  ink := by
    rw [Cover.query, Select.sql, textOf, String.toList_ofList]
    simp only [parenthesized, List.cons_append, inkOf_open, inkOf_append, inkOf_close, inkOf_nil]
    rfl
  balanced := by simpa [parenthesized] using q.tidy.balanced_outline.wrap
  types _ ht := absurd ht List.not_mem_nil
  pairs a b z hp hb := by
    obtain ⟨a, z, rfl, rfl, inner⟩ := pair_of_between Piece.noConfusion Piece.noConfusion hp
    have balanced := q.tidy.balanced_outline
    obtain ⟨word, rest, first, hw⟩ := q.opening
    refine .queried (x := []) (y := []) rfl rfl ?_ ?_ ?_
    · rw [inkOf_nil, ← inner]
      exact List.mem_singleton.mpr rfl
    · cases a with
      | nil =>
        rw [first] at inner
        exact absurd (List.cons.inj inner).1 Piece.noConfusion
      | cons p a =>
        rw [first] at inner
        obtain ⟨rfl, -⟩ := List.cons.inj inner
        have words : ∀ w ∈ ["SELECT", "VALUES", "WITH"], ∃ c rest,
            w.toList = c :: rest ∧ isInk c = true := by
          intro w hw
          simp only [List.mem_cons, List.not_mem_nil, or_false] at hw
          rcases hw with rfl | rfl | rfl <;> exact ⟨_, _, rfl, by decide⟩
        obtain ⟨c, tail, chars, hc⟩ := words word hw
        refine ⟨c, tail ++ charsOf a, ?_, hc⟩
        rw [charsOf_cons, Piece.chars, chars, List.cons_append]
    · rw [inner] at balanced
      have whole := Balanced.unwrap (by simpa using balanced) hb
      rwa [outlineOf_append, outlineOf_append]

/-! ## Ink outside of all parentheses -/

theorem exposed_words {ws : List Piece} (hw : ∀ p ∈ ws, p.isParen = false) (pos : 0 < inkOf ws) :
    Exposed (outlineOf ws) := by
  have level : ∀ m ∈ outlineOf ws, m.step = 0 := by
    intro m hm
    obtain ⟨p, hp, hm⟩ := List.mem_flatMap.mp hm
    exact p.step_outline (hw p hp) m hm
  rw [← ink_outlineOf] at pos
  obtain ⟨q, hq, ink⟩ := List.countP_pos_iff.mp pos
  obtain ⟨x, y, split⟩ := List.append_of_mem hq
  rw [split] at level
  refine ⟨x, q, y, split, ink, ?_, ?_⟩
  · exact .of_level fun m hm => level m (List.mem_append_left _ hm)
  · exact .of_level fun m hm => level m (by simp [hm])

theorem Exposed.before {ps qs : List Piece} (h : Exposed (outlineOf ps))
    (hq : Balanced (outlineOf qs)) : Exposed (outlineOf (ps ++ qs)) := by
  obtain ⟨x, q, y, split, ink, hx, hy⟩ := h
  exact ⟨x, q, y ++ outlineOf qs, by simp [split], ink, hx, hy.append hq⟩

theorem Exposed.behind {ps qs : List Piece} (hp : Balanced (outlineOf ps))
    (h : Exposed (outlineOf qs)) : Exposed (outlineOf (ps ++ qs)) := by
  obtain ⟨x, q, y, split, ink, hx, hy⟩ := h
  exact ⟨outlineOf ps ++ x, q, y, by simp [split], ink, hp.append hx, hy⟩

/-! ## Operands -/

/-- The cover of the term asks for the pairs of the expression, and an expression that binds looser
than the signs shows ink. -/
structure Expr.Asked (e : Expr) : Prop where
  grouped : Grouped false (e.term Select.sql).cover e.bare
  exposed : e.precedence < .unary → Exposed (outlineOf e.bare)

namespace Expr

theorem not_loose_literal (value : Literal) : ¬ (Expr.literal value).precedence < .unary := by
  show ¬ (if value.isNegativeNumber then Precedence.unary else .primary) < .unary
  split <;> decide

/-- The tiers of a term and of its expression agree where parentheses may be needed. -/
theorem tier_term {Q : Type} {f : Select → Q} {e : Expr} (h : e.precedence < .unary) :
    (e.term f).tier = e.precedence := by
  cases e with
  | literal value =>
    exact absurd h (not_loose_literal value)
  | binary op left right =>
    show (Follow.binary op).tier = op.precedence
    cases op <;> rfl
  | nullTest test operand => cases test <;> rfl
  | existsRow negated query =>
    cases negated with
    | true => rfl
    | false => exact absurd h (show ¬ Precedence.primary < .unary by decide)
  | unary | collate | pattern | between | inList | inSelect => rfl
  | _ => exact absurd h (show ¬ Precedence.primary < .unary by decide)

/-- An operand that needs no parentheses. -/
theorem Asked.bare_at {e : Expr} (h : e.Asked) (tier : Precedence) :
    Grouped false ((e.term Select.sql).coverAt tier) e.bare := by
  unfold Term.coverAt Cover.within
  split
  · exact h.grouped.wrap
  · exact h.grouped

/-- An operand in a position that asks for a tier. -/
theorem Asked.operand {e : Expr} (h : e.Asked) (tier : Precedence) (top : tier ≤ .unary) :
    Grouped true ((e.term Select.sql).coverAt tier) (e.grouped tier e.bare) := by
  unfold Expr.grouped groupedIf
  split
  · next below =>
    have below : e.precedence < tier := of_decide_eq_true below
    have loose : e.precedence < .unary := Nat.lt_of_lt_of_le below top
    have wrapped : (e.term Select.sql).coverAt tier = (e.term Select.sql).cover.wrap := by
      unfold Term.coverAt Cover.within
      rw [tier_term loose]
      exact if_pos below
    rw [wrapped]
    exact h.grouped.grouped (h.exposed loose)
  · exact (h.bare_at tier).loosen

/-- An expression with an operator that stands outside of all parentheses. -/
theorem Asked.of_exposed {e : Expr} (h : Grouped true (e.term Select.sql).cover e.bare)
    (exposed : Exposed (outlineOf e.bare)) : e.Asked :=
  ⟨h.tighten exposed, fun _ => exposed⟩

/-- An expression that brings its own parentheses. -/
theorem Asked.of_primary {e : Expr} (h : Grouped false (e.term Select.sql).cover e.bare)
    (tier : e.precedence = .primary) : e.Asked :=
  ⟨h, fun loose => absurd loose (by rw [tier]; decide)⟩

end Expr

/-! ## Lists -/

theorem Grouped.list {items : List Expr} (h : ∀ e ∈ items, e.Asked) :
    Grouped false (listCover (listTerms Select.sql items)) (commaSeparated (listPieces items)) := by
  induction items with
  | nil =>
    rw [listTerms, listCover]
    exact .plain (by simp [listPieces, commaSeparated, separated]) rfl
  | cons e rest ih =>
    obtain ⟨first, others⟩ := List.forall_mem_cons.mp h
    cases rest with
    | nil =>
      rw [listTerms, listTerms, listCover]
      exact first.grouped
    | cons next rest =>
      have tail := ih others
      have comma : Grouped false (.plain [.fixed ","]) [.fixed ",", .space] :=
        .plain (by decide) rfl
      exact (first.grouped.append comma).append tail

theorem Grouped.branches {branches : List (Expr × Expr)}
    (h : ∀ b ∈ branches, b.1.Asked ∧ b.2.Asked) :
    Grouped false (branchesCover (branchTerms Select.sql branches)) (branchPieces branches) := by
  induction branches with
  | nil =>
    rw [branchTerms, branchesCover]
    exact .plain (by simp [branchPieces]) rfl
  | cons b rest ih =>
    obtain ⟨⟨condition, result⟩, others⟩ := List.forall_mem_cons.mp h
    have when : Grouped false (.plain [.fixed "WHEN"]) [.space, .fixed "WHEN"] :=
      .plain (by decide) rfl
    have then_ : Grouped false (.plain [.fixed "THEN"]) [.space, .fixed "THEN"] :=
      .plain (by decide) rfl
    have whole := (((when.append condition.grouped.space).append then_).append
      result.grouped.space).append (ih others)
    rw [branchTerms, branchesCover, branchPieces]
    simpa using whole

/-- A word and an expression after it, if there is one. -/
theorem Grouped.clause {item : Option Expr} (h : ∀ e ∈ item, e.Asked) :
    Grouped false (optionCover [.fixed "ELSE"] .lowest (optionTerm Select.sql item))
      (clause ["ELSE"] (optionPieces item)) := by
  cases item with
  | none =>
    rw [optionTerm, optionCover]
    exact .plain (by simp [SqliteSyntax.clause, spaced, optionPieces]) rfl
  | some e =>
    have word : Grouped false (.plain [.fixed "ELSE"]) [.space, .fixed "ELSE"] :=
      .plain (by decide) rfl
    exact word.append ((h e rfl).bare_at .lowest).space

theorem Grouped.escape {item : Option Expr} (h : ∀ e ∈ item, e.Asked) :
    Grouped true (optionCover [.fixed "ESCAPE"] .comparison (optionTerm Select.sql item))
      (SqliteSyntax.clause ["ESCAPE"] (escapePieces item)) := by
  cases item with
  | none =>
    rw [optionTerm, optionCover]
    exact .plain (by simp [SqliteSyntax.clause, spaced, escapePieces]) rfl
  | some e =>
    have word : Grouped true (.plain [.fixed "ESCAPE"]) [.space, .fixed "ESCAPE"] :=
      .plain (by decide) rfl
    exact word.append ((h e rfl).operand .comparison (by decide)).space

theorem Grouped.subject {item : Option Expr} (h : ∀ e ∈ item, e.Asked) :
    Grouped false (optionCover [] .lowest (optionTerm Select.sql item))
      (spaced (optionPieces item)) := by
  cases item with
  | none =>
    rw [optionTerm, optionCover]
    exact .plain (by simp [spaced, optionPieces]) rfl
  | some e =>
    rw [optionTerm, optionCover, Cover.plain_nil_append]
    exact ((h e rfl).bare_at .lowest).space

/-! ## Every expression -/

/-- Words between an operand and what follows them: their ink is outside of all parentheses. -/
theorem Grouped.form {c d : Cover} {ps w qs : List Piece} (hp : Grouped true c ps)
    (hw : ∀ p ∈ .space :: w, p.isParen = false) (pos : 0 < inkOf w) (hq : Grouped true d qs) :
    Grouped true (c ++ .plain w ++ d) (ps ++ .space :: w ++ qs) ∧
      Exposed (outlineOf (ps ++ .space :: w ++ qs)) := by
  have words : Grouped true (.plain w) (.space :: w) := .plain hw (inkOf_space w)
  have exposed := exposed_words hw (by rwa [inkOf_space])
  exact ⟨(hp.append words).append hq, (exposed.behind hp.balanced).before hq.balanced⟩

theorem Grouped.type (name : String) (loose : Bool) :
    Grouped loose (.type name) [.verbatim name] where
  ink := rfl
  balanced := balanced_of_isParen (by simp [Piece.isParen])
  types t ht := by
    rw [List.mem_singleton.mp ht]
    exact List.mem_singleton.mpr rfl
  pairs a b z hp _ := by
    have inside : Piece.groupOpen ∈ [Piece.verbatim name] := by simp [hp]
    exact absurd inside (by simp)

theorem Grouped.numeral (digits : String) (loose : Bool) :
    Grouped loose (Term.ofNumeral digits : Term String).cover [.numeral digits] := by
  have paren : ∀ p ∈ [Piece.numeral digits], p.isParen = false := by simp [Piece.isParen]
  unfold Term.ofNumeral
  split
  · next rest h =>
    show Grouped loose (.plain [.fixed "-"] ++ .plain [.numeral (String.ofList rest)]) _
    rw [Cover.plain_append]
    exact .plain paren (by simp [inkOf, Piece.chars, h])
  · next rest h =>
    show Grouped loose (.plain [.fixed "+"] ++ .plain [.numeral (String.ofList rest)]) _
    rw [Cover.plain_append]
    exact .plain paren (by simp [inkOf, Piece.chars, h])
  · exact .plain paren rfl

theorem Literal.grouped (value : Literal) (loose : Bool) :
    Grouped loose (Term.ofLiteral value : Term String).cover value.pieces := by
  cases value with
  | integer n => exact .numeral _ loose
  | real r => exact .numeral _ loose
  | decimal d => exact .numeral _ loose
  | boolean b => cases b <;> exact .plain (by decide) rfl
  | text t => exact .plain (by simp [pieces, Piece.isParen]) rfl
  | blob bytes => exact .plain (by simp [pieces, Piece.isParen]) rfl
  | _ => exact .plain (by decide) rfl

/-- The parentheses that keep two signs apart are not those of precedence: what stands between them
needs none. -/
theorem Expr.Asked.signed {operand : Expr} (h : operand.Asked) (op : UnaryOp) :
    Grouped true ((operand.term Select.sql).coverAt .unary)
      (if op.isSign && leadsWithSign (operand.grouped .unary operand.bare) then
        parenthesized (operand.grouped .unary operand.bare)
      else operand.grouped .unary operand.bare) := by
  split
  · next sign =>
    have bare : operand.grouped .unary operand.bare = operand.bare := by
      unfold Expr.grouped groupedIf at sign ⊢
      split at sign
      · exact absurd sign (by simp [leadsWithSign, Piece.chars])
      · next loose => exact if_neg loose
    rw [bare]
    exact (h.bare_at .unary).between
  · exact h.operand .unary (Nat.le_refl _)

theorem Expr.Asked.unary {operand : Expr} (h : operand.Asked) (op : UnaryOp) :
    (Expr.unary op operand).Asked := by
  by_cases hop : op = .not
  · subst hop
    have words : Grouped true (.plain [.fixed "NOT"]) [.fixed "NOT"] := .plain (by decide) rfl
    have inner := (h.operand .not (by decide)).space
    have exposed : Exposed (outlineOf [.fixed "NOT"]) := exposed_words (by decide) (by decide)
    exact .of_exposed (words.append inner) (exposed.before inner.balanced)
  · have unary : op.precedence = .unary := by
      cases op <;> first | rfl | exact absurd rfl hop
    obtain ⟨m, hm, mark, -, text⟩ :=
      UnaryOp.pieces_of_ne_not hop (operand.grouped .unary operand.bare)
    have marks : ∀ m ∈ prefixMarks, (∀ p ∈ [Piece.fixed m], p.isParen = false) ∧
        0 < inkOf [.fixed m] := by decide
    have words : Grouped true (.plain (Phrase.pieces op)) [.fixed m] :=
      .plain (marks m hm).1 (by rw [mark])
    have inner := h.signed op
    refine .of_exposed ?_ ?_
    · rw [Expr.bare, Expr.term, Term.cover, unary, text]
      exact words.append inner
    · rw [Expr.bare, unary, text]
      exact (exposed_words (marks m hm).1 (marks m hm).2).before inner.balanced

theorem Term.cover_ofRow (items : List (Term String)) :
    (Term.ofRow items).cover = listCover items := by
  match items with
  | [] => rfl
  | [item] => rw [listCover, ofRow]
  | a :: b :: rest => rfl

theorem Expr.Asked.nullTest {operand : Expr} (h : operand.Asked) (test : NullTest) :
    (Expr.nullTest test operand).Asked := by
  have hs := h.operand .equality (by decide)
  have null : Grouped true (.plain [.fixed "NULL"]) [.space, .fixed "NULL"] :=
    .plain (by decide) rfl
  have empty : Grouped true (.plain []) [] := .plain (by simp) rfl
  have nothing (test : NullTest) := by
    have paren : ∀ p ∈ .space :: Phrase.pieces test, p.isParen = false := by cases test <;> decide
    have whole := hs.form paren (by cases test <;> decide) empty
    rwa [List.append_nil, Cover.append_plain_nil] at whole
  -- A test that is read as a comparison has its `NULL` as an operand.
  cases test with
  | isNull =>
    obtain ⟨whole, exposed⟩ := hs.form (w := [.fixed "IS"]) (by decide) (by decide) null
    rw [List.append_assoc] at whole exposed
    exact .of_exposed whole exposed
  | isNotNull =>
    obtain ⟨whole, exposed⟩ :=
      hs.form (w := Phrase.pieces BinaryOp.isNot) (by decide) (by decide) null
    rw [List.append_assoc] at whole exposed
    exact .of_exposed whole exposed
  | isnull => exact .of_exposed (nothing NullTest.isnull).1 (nothing _).2
  | notnull => exact .of_exposed (nothing NullTest.notnull).1 (nothing _).2
  | notNull => exact .of_exposed (nothing NullTest.notNull).1 (nothing _).2

/-- A called function: its name and, between parentheses, its arguments. -/
theorem Grouped.called {c : Cover} {ps : List Piece} (h : Grouped false c ps)
    (function : FunctionName) (distinct : Bool) :
    Grouped false (.plain function.pieces ++ (.plain (onlyIf distinct [.fixed "DISTINCT"]) ++ c))
      (function.callPieces distinct ps) := by
  have name : Grouped false (.plain function.pieces) function.pieces :=
    .plain (isParen_functionName function) rfl
  have word : Grouped false (.plain (onlyIf distinct [.fixed "DISTINCT"]))
      (onlyIf distinct [.fixed "DISTINCT", .space]) := by
    cases distinct <;> exact .plain (by decide) rfl
  exact name.append (word.append h).between

mutual

/-- The cover of the term of an expression asks for the pairs in its text. -/
theorem Expr.asked : (e : Expr) → e.Asked
  | .literal value =>
    ⟨value.grouped false, fun loose => absurd loose (Expr.not_loose_literal value)⟩
  | .column reference => by
    refine .of_primary ?_ rfl
    rw [Expr.bare, Expr.term, Term.cover]
    exact .plain reference.isParen_pieces rfl
  | .unary op operand => operand.asked.unary op
  | .binary op left right => by
    have hl := left.asked.operand (Follow.binary op).tier (by cases op <;> decide)
    have hr := (right.asked.operand (Follow.binary op).tier.above (by cases op <;> decide)).space
    have paren : ∀ p ∈ .space :: Phrase.pieces op, p.isParen = false := by cases op <;> decide
    obtain ⟨whole, exposed⟩ := hl.form paren (by cases op <;> decide) hr
    refine .of_exposed ?_ ?_
    · rw [Expr.bare, ← tier_binary, rightTier_eq]
      exact whole
    · rw [Expr.bare, ← tier_binary, rightTier_eq]
      exact exposed
  | .nullTest test operand => operand.asked.nullTest test
  | .collate operand collation => by
    have hs := operand.asked.operand .collate (by decide)
    have name : Grouped true (.plain [.name collation]) [.space, .name collation] :=
      .plain (by simp [Piece.isParen]) (inkOf_space _)
    obtain ⟨whole, exposed⟩ := hs.form (w := [.fixed "COLLATE"]) (by decide) (by decide) name
    rw [List.append_assoc] at whole exposed
    exact .of_exposed whole exposed
  | .pattern op negated subject against escape => by
    have hs := subject.asked.operand .equality (by decide)
    have ha := (against.asked.operand .comparison (by decide)).space
    have he := Grouped.escape (option_asked escape)
    have paren : ∀ p ∈ .space :: negatable negated (Phrase.words op), p.isParen = false := by
      cases op <;> cases negated <;> decide
    obtain ⟨whole, exposed⟩ := hs.form paren (by cases op <;> cases negated <;> decide) ha
    exact .of_exposed (whole.append he) (exposed.before he.balanced)
  | .between negated subject low high => by
    have hs := subject.asked.operand .equality (by decide)
    have hl := (low.asked.operand .comparison (by decide)).space
    have hh := (high.asked.operand .comparison (by decide)).space
    have word : Grouped true (.plain [.fixed "AND"]) [.space, .fixed "AND"] :=
      .plain (by decide) rfl
    have paren : ∀ p ∈ .space :: negatable negated ["BETWEEN"], p.isParen = false := by
      cases negated <;> decide
    obtain ⟨whole, exposed⟩ := hs.form paren (by cases negated <;> decide) hl
    have whole := (whole.append word).append hh
    have exposed := (exposed.before word.balanced).before hh.balanced
    rw [List.append_assoc _ [Piece.space, .fixed "AND"]] at whole exposed
    exact .of_exposed whole exposed
  | .inList negated subject items => by
    have hs := subject.asked.operand .equality (by decide)
    have hi : Grouped true _ _ := (Grouped.list (list_asked items)).between.space
    have paren : ∀ p ∈ .space :: negatable negated ["IN"], p.isParen = false := by
      cases negated <;> decide
    obtain ⟨whole, exposed⟩ := hs.form paren (by cases negated <;> decide) hi
    exact .of_exposed whole exposed
  | .inSelect negated subject query => by
    have hs := subject.asked.operand .equality (by decide)
    have paren : ∀ p ∈ .space :: negatable negated ["IN"], p.isParen = false := by
      cases negated <;> decide
    obtain ⟨whole, exposed⟩ :=
      hs.form paren (by cases negated <;> decide) (query.grouped true).space
    exact .of_exposed whole exposed
  | .existsRow negated query => by
    have word : Grouped false (.plain [.fixed "EXISTS"]) [.fixed "EXISTS"] := .plain (by decide) rfl
    have row := word.append (query.grouped false).space
    cases negated with
    | false => exact .of_primary row rfl
    | true =>
      have negation : Grouped true (.plain [.fixed "NOT"]) [.fixed "NOT"] := .plain (by decide) rfl
      have exposed : Exposed (outlineOf [.fixed "NOT"]) := exposed_words (by decide) (by decide)
      exact .of_exposed (negation.append row.loosen.space) (exposed.before row.space.balanced)
  | .subquery query => .of_primary (query.grouped false) rfl
  | .call function distinct arguments =>
    .of_primary ((Grouped.list (list_asked arguments)).called function distinct) rfl
  | .callStar function distinct => by
    have star : Grouped false (.plain [.fixed "*"]) [.fixed "*"] := .plain (by decide) rfl
    exact .of_primary (star.called function distinct) rfl
  | .caseWhen operand branches otherwise => by
    have opening : Grouped false (.plain [.fixed "CASE"]) [.fixed "CASE"] := .plain (by decide) rfl
    have ending : Grouped false (.plain [.fixed "END"]) [.space, .fixed "END"] :=
      .plain (by decide) rfl
    have subject := opening.append (Grouped.subject (option_asked operand))
    have parts := subject.append (Grouped.branches (branches_asked branches))
    exact .of_primary ((parts.append (Grouped.clause (option_asked otherwise))).append ending) rfl
  | .cast operand typeName => by
    have name : Grouped false (.plain [.fixed "CAST"]) [.fixed "CAST"] := .plain (by decide) rfl
    have word : Grouped false (.plain [.fixed "AS"]) [.space, .fixed "AS"] := .plain (by decide) rfl
    have inner := (operand.asked.grouped.append word).append (Grouped.type typeName false).space
    rw [List.append_assoc] at inner
    exact .of_primary (name.append inner.between) rfl
  | .row items => by
    refine .of_primary ?_ rfl
    rw [Expr.bare, Expr.term, Term.cover_ofRow]
    exact (Grouped.list (list_asked items)).between
  | .raise action => by
    have name : Grouped false (.plain [.fixed "RAISE"]) [.fixed "RAISE"] := .plain (by decide) rfl
    have paren : ∀ p ∈ action.pieces, p.isParen = false := by
      cases action <;> simp [RaiseAction.pieces, Piece.isParen]
    have inner : Grouped false (.plain action.pieces) action.pieces := .plain paren rfl
    exact .of_primary (name.append inner.between) rfl

theorem list_asked : (items : List Expr) → ∀ e ∈ items, e.Asked
  | [] => fun _ he => absurd he List.not_mem_nil
  | e :: rest => List.forall_mem_cons.mpr ⟨e.asked, list_asked rest⟩

theorem option_asked : (item : Option Expr) → ∀ e ∈ item, e.Asked
  | none => fun _ he => absurd he (by simp)
  | some e => fun e' he => by
    cases he
    exact e.asked

theorem branches_asked : (branches : List (Expr × Expr)) →
    ∀ b ∈ branches, b.1.Asked ∧ b.2.Asked
  | [] => fun _ hb => absurd hb List.not_mem_nil
  | (condition, result) :: rest =>
    List.forall_mem_cons.mpr ⟨⟨condition.asked, result.asked⟩, branches_asked rest⟩

end

end SqliteSyntax
