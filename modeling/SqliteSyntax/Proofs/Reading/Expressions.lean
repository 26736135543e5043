import SqliteSyntax.Proofs.Reading.Parts
import SqliteSyntax.Proofs.Reading.Readable
import SqliteSyntax.Proofs.Statements.Canonical

/-! # Expressions are read as their canonical forms

The reader by tiers gives a term; as an expression it is the canonical form of the one written
(`Expr.canonical_eq`). Between parentheses the queries are left to a reader for queries. -/
namespace SqliteSyntax
set_option autoImplicit false

/-! ## Terms as expressions -/

mutual

/-- The canonical expression of a term. -/
def Term.toExpr : Term Select → Expr
  | .literal value => .literal value
  | .numeral digits => .ofDigits digits
  | .column reference => .column reference
  | .unary op operand => .unary op operand.toExpr
  | .binary op left right => .binary op left.toExpr right.toExpr
  | .nullTest test operand => .nullTest test operand.toExpr
  | .collate operand collation => .collate operand.toExpr collation
  | .pattern op negated subject against escape =>
    .pattern op negated subject.toExpr against.toExpr (optionExpr escape)
  | .between negated subject low high => .between negated subject.toExpr low.toExpr high.toExpr
  | .inList negated subject items => .inList negated subject.toExpr (listExprs items)
  | .inSelect negated subject query => .inSelect negated subject.toExpr query
  | .existsRow query => .existsRow false query
  | .subquery query => .subquery query
  | .call function distinct arguments => .call function distinct (listExprs arguments)
  | .callStar function distinct => .callStar function distinct
  | .caseWhen operand branches otherwise =>
    .caseWhen (optionExpr operand) (branchExprs branches) (optionExpr otherwise)
  | .cast operand typeName => .cast operand.toExpr typeName
  | .row items => .row (listExprs items)
  | .raise action => .raise action

def listExprs : List (Term Select) → List Expr
  | [] => []
  | x :: rest => x.toExpr :: listExprs rest

def optionExpr : Option (Term Select) → Option Expr
  | none => none
  | some x => some x.toExpr

def branchExprs : List (Term Select × Term Select) → List (Expr × Expr)
  | [] => []
  | (condition, result) :: rest => (condition.toExpr, result.toExpr) :: branchExprs rest

end

theorem Term.toExpr_ofNumeral (d : Numeral) : (Term.ofNumeral d.text).toExpr = .ofNumeral d := by
  unfold Term.ofNumeral
  split
  · next rest h =>
    rw [Term.toExpr, Term.toExpr, Expr.ofNumeral, h]
    rfl
  · next rest h =>
    rw [Term.toExpr, Term.toExpr, Expr.ofNumeral, h]
    rfl
  · next minus plus =>
    have digits : Expr.ofDigits d.text = .literal (.decimal d) := by
      rw [Expr.ofDigits, d.ofText?_text]
    rw [Term.toExpr, digits, Expr.ofNumeral]
    split
    · next h => exact absurd h (minus _)
    · next h => exact absurd h (plus _)
    · rfl

theorem Term.toExpr_ofLiteral (value : Literal) : (Term.ofLiteral value).toExpr = .ofLiteral value := by
  cases value with
  | integer n => exact Term.toExpr_ofNumeral ⟨_, _⟩
  | real r => exact Term.toExpr_ofNumeral ⟨_, _⟩
  | decimal d => exact Term.toExpr_ofNumeral d
  | _ =>
    show (Term.literal _).toExpr = .literal _
    rw [Term.toExpr]

theorem Term.toExpr_ofNullTest (test : NullTest) (operand : Term Select) :
    (Term.ofNullTest test operand).toExpr = .ofNullTest test operand.toExpr := by
  cases test with
  | isNull => rw [Term.ofNullTest, Term.toExpr, Term.toExpr, Expr.ofNullTest]
  | isNotNull => rw [Term.ofNullTest, Term.toExpr, Term.toExpr, Expr.ofNullTest]
  | _ =>
    show (Term.nullTest _ operand).toExpr = .nullTest _ operand.toExpr
    rw [Term.toExpr]

theorem Term.toExpr_ofRow (items : List (Term Select)) :
    (Term.ofRow items).toExpr = .ofRow (listExprs items) := by
  match items with
  | [] =>
    show (Term.row []).toExpr = .ofRow (listExprs [])
    rw [Term.toExpr, listExprs]
    rfl
  | [item] =>
    rw [Term.ofRow, listExprs, listExprs]
    rfl
  | a :: b :: rest =>
    show (Term.row (a :: b :: rest)).toExpr = .ofRow (listExprs (a :: b :: rest))
    rw [Term.toExpr, listExprs, listExprs]
    rfl

theorem Term.toExpr_ofExists (negated : Bool) (query : Select) :
    (Term.ofExists negated query).toExpr = .ofExists negated query := by
  cases negated with
  | false =>
    show (Term.existsRow query).toExpr = .existsRow false query
    rw [Term.toExpr]
  | true =>
    show (Term.unary .not (.existsRow query)).toExpr = .unary .not (.existsRow false query)
    rw [Term.toExpr, Term.toExpr]

mutual

/-- The canonical form of an expression is what its text tells of it. -/
theorem Expr.canonical_eq : (e : Expr) → (e.term Select.canonical).toExpr = e.canonical
  | .literal value => by rw [Expr.term, Expr.canonical, Term.toExpr_ofLiteral]
  | .column reference => by rw [Expr.term, Expr.canonical, Term.toExpr]
  | .unary op operand => by rw [Expr.term, Expr.canonical, Term.toExpr, operand.canonical_eq]
  | .binary op left right => by
    rw [Expr.term, Expr.canonical, Term.toExpr, left.canonical_eq, right.canonical_eq]
  | .nullTest test operand => by
    rw [Expr.term, Expr.canonical, Term.toExpr_ofNullTest, operand.canonical_eq]
  | .collate operand collation => by
    rw [Expr.term, Expr.canonical, Term.toExpr, operand.canonical_eq]
  | .pattern op negated subject against escape => by
    rw [Expr.term, Expr.canonical, Term.toExpr, subject.canonical_eq, against.canonical_eq,
      canonicalOption_eq_term escape]
  | .between negated subject low high => by
    rw [Expr.term, Expr.canonical, Term.toExpr, subject.canonical_eq, low.canonical_eq,
      high.canonical_eq]
  | .inList negated subject items => by
    rw [Expr.term, Expr.canonical, Term.toExpr, subject.canonical_eq, canonicalList_eq_term items]
  | .inSelect negated subject query => by
    rw [Expr.term, Expr.canonical, Term.toExpr, subject.canonical_eq]
  | .existsRow negated query => by rw [Expr.term, Expr.canonical, Term.toExpr_ofExists]
  | .subquery query => by rw [Expr.term, Expr.canonical, Term.toExpr]
  | .call function distinct arguments => by
    rw [Expr.term, Expr.canonical, Term.toExpr, canonicalList_eq_term arguments]
  | .callStar function distinct => by rw [Expr.term, Expr.canonical, Term.toExpr]
  | .caseWhen operand branches otherwise => by
    rw [Expr.term, Expr.canonical, Term.toExpr, canonicalOption_eq_term operand,
      canonicalBranches_eq_term branches, canonicalOption_eq_term otherwise]
  | .cast operand typeName => by rw [Expr.term, Expr.canonical, Term.toExpr, operand.canonical_eq]
  | .row items => by
    rw [Expr.term, Expr.canonical, Term.toExpr_ofRow, canonicalList_eq_term items]
  | .raise action => by rw [Expr.term, Expr.canonical, Term.toExpr]

theorem canonicalList_eq_term : (items : List Expr) →
    listExprs (listTerms Select.canonical items) = canonicalList items
  | [] => by rw [listTerms, listExprs, canonicalList]
  | e :: rest => by
    rw [listTerms, listExprs, canonicalList, e.canonical_eq, canonicalList_eq_term rest]

theorem canonicalOption_eq_term : (item : Option Expr) →
    optionExpr (optionTerm Select.canonical item) = canonicalOption item
  | none => by rw [optionTerm, optionExpr, canonicalOption]
  | some e => by rw [optionTerm, optionExpr, canonicalOption, e.canonical_eq]

theorem canonicalBranches_eq_term : (branches : List (Expr × Expr)) →
    branchExprs (branchTerms Select.canonical branches) = canonicalBranches branches
  | [] => by rw [branchTerms, branchExprs, canonicalBranches]
  | (condition, result) :: rest => by
    rw [branchTerms, branchExprs, canonicalBranches, condition.canonical_eq, result.canonical_eq,
      canonicalBranches_eq_term rest]

end

/-! ## Readers of expressions -/

/-- The words and marks with which a text may go on after an expression. -/
def exprEnds : List String :=
  [")", ",", ";", "AS", "FROM", "WHERE", "GROUP", "HAVING", "UNION", "INTERSECT", "EXCEPT", "ORDER",
    "LIMIT", "OFFSET", "ASC", "DESC", "NULLS", "ON", "USING", "NATURAL", "JOIN", "INNER", "CROSS",
    "LEFT", "RIGHT", "FULL", "RETURNING", "DO", "BEGIN"]

/-- The words and marks with which a text may go on after a query. -/
def queryEnds : List String := [")", ";", "RETURNING"]

theorem Begins.stops {k : List Piece} (h : Begins exprEnds k) (tier : Precedence) : Stops tier k := by
  have idle : ∀ w ∈ exprEnds, isIdle w = true ∧ w ≠ "(" ∧ w ≠ "." := by decide
  cases h with
  | ending => exact .nil tier
  | mark hw rest => exact .mark (idle _ hw).1 (idle _ hw).2.1 (idle _ hw).2.2 tier rest
  | word hw rest => exact .word (idle _ hw).1 tier rest

/-- The query that pieces are as a whole. -/
def Reader.whole (query : Reader Select) (ps : List Piece) : Option Select :=
  match query ps with
  | some (q, []) => some q
  | _ => none

/-- A reader of expressions that leaves the queries inside to a reader of queries. -/
def Expr.read (query : Reader Select) : Reader Expr := fun ps =>
  (readAt (Reader.whole query) (20 * ps.length + 14) .lowest ps).map fun r => (r.1.toExpr, r.2)

/-- The reader takes the text of the query as its canonical form. -/
structure Select.IsRead (query : Reader Select) (q : Select) : Prop where
  words : ∀ p ∈ q.pieces, p.VerbatimWord
  reads : Reads query (Begins queryEnds) (plainOf q.pieces) q.canonical

variable {query : Reader Select}

theorem Select.IsRead.enclosed {q : Select} (h : q.IsRead query) :
    ReadsEnclosed (Reader.whole query) (plainOf q.pieces) q.canonical := by
  refine .of_query h.words ?_
  have whole := h.reads [] .ending
  rw [List.append_nil] at whole
  rw [Reader.whole, whole]

theorem Expr.fits_canonical {e : Expr} (h : e.Readable (Select.IsRead query)) :
    Fits (Reader.whole query) .lowest (plainOf e.bare) (e.term Select.canonical) :=
  (e.fits (fun _ hq => hq.enclosed) h).lowest

/-- The text of an expression is read as its canonical form. -/
theorem Expr.reads {e : Expr} (h : e.Readable (Select.IsRead query)) :
    Reads (Expr.read query) (Begins exprEnds) (plainOf e.bare) e.canonical := by
  intro k hk
  have whole := (Expr.fits_canonical h).reads (20 * (plainOf e.bare ++ k).length + 14) k
    (by simp only [List.length_append]; omega) (hk.stops .lowest)
  rw [Expr.read, whole, Option.map_some, e.canonical_eq]

/-- An expression begins with none of the words and marks that may follow one. -/
theorem Expr.after_mark (e : Expr) {word : String} (hw : word ∉ operandOpenings) (head k : List Piece) :
    after (.fixed word :: head) (plainOf e.bare ++ k) = none := by
  obtain ⟨p, rest, heq, opens, -⟩ := e.opens_level
  rw [heq]
  refine after_ne (fun same => hw ?_) head _
  rw [← same] at opens
  exact of_decide_eq_true opens

theorem canonicalList_eq (items : List Expr) : canonicalList items = items.map Expr.canonical := by
  induction items with
  | nil => rw [canonicalList, List.map_nil]
  | cons e rest ih => rw [canonicalList, List.map_cons, ih]

theorem canonicalOption_eq (item : Option Expr) :
    canonicalOption item = item.map Expr.canonical := by
  cases item with
  | none => rw [canonicalOption, Option.map_none]
  | some e => rw [canonicalOption, Option.map_some]

theorem listReadable_iff {P : Select → Prop} (items : List Expr) :
    listReadable P items ↔ ∀ e ∈ items, e.Readable P := by
  induction items with
  | nil => simp [listReadable]
  | cons e rest ih => rw [listReadable, ih, List.forall_mem_cons]

/-! ## Lists of expressions -/

theorem plainOf_list (items : List Expr) :
    plainOf (commaSeparated (listPieces items)) =
      commaSeparated (items.map fun e => plainOf e.bare) := by
  rw [plainOf_commaSeparated, listPieces_eq, List.map_map]
  rfl

theorem Expr.reads_items {items : List Expr}
    (h : ∀ e ∈ items, e.Readable (Select.IsRead query)) (ok : List Piece → Prop) :
    Reads (Reader.bracketed (Reader.items (Expr.read query))) ok
      (plainOf (parenthesized (commaSeparated (listPieces items)))) (canonicalList items) := by
  rw [plainOf_parenthesized, plainOf_list, canonicalList_eq]
  exact .items (fun e he => (Expr.reads (h e he)).weaken fun k hk => hk.mono (by decide))
    (fun e _ => e.after_mark (by decide) []) ok

end SqliteSyntax
