import SqliteSyntax.Proofs.Pieces.Rendered
import SqliteSyntax.Proofs.Reading.Tables

/-! # Where an expression ends

In a table tree an expression ends at a comma, at a closing parenthesis or at the words of a join, so
it can be taken as the text it is without reading it (`exprRun`). That is right because outside of its
parentheses no expression has any of these (`Coherent`, `Expr.coherent`). -/
namespace SqliteSyntax
set_option autoImplicit false

/-! ## Taking the text of an expression -/

/-- What may follow an expression in a table tree, and is no part of it. -/
def Piece.endsExpr : Piece → Bool
  | .fixed word => decide (word ∈ joinEnds)
  | _ => false

/-- The number of open parentheses after a piece. -/
def depthAfter (depth : Nat) (p : Piece) : Nat :=
  if p = .fixed "(" then depth + 1 else if p = .fixed ")" then depth - 1 else depth

/-- The pieces up to what ends an expression, with so many parentheses open, and what follows. A space
is taken only with what stands behind it. -/
def exprRun : Nat → List Piece → List Piece × List Piece
  | _, [] => ([], [])
  | depth, p :: rest =>
    let split := exprRun (depthAfter depth p) rest
    if depth = 0 ∧ p.endsExpr = true ∨ p = .space ∧ split.1 = [] then ([], p :: rest)
    else (p :: split.1, split.2)

/-- An expression as the text it is. -/
def Reader.exprText : Reader String := fun ps =>
  let split := exprRun 0 ps
  if split.1 = [] then none else some (textOf split.1, split.2)

/-! ## Where a run stops -/

theorem exprRun_ending {word : String} (h : word ∈ joinEnds) (rest : List Piece) :
    exprRun 0 (.fixed word :: rest) = ([], .fixed word :: rest) := by
  rw [exprRun]
  exact if_pos (Or.inl ⟨rfl, decide_eq_true h⟩)

/-- A run stops before what may follow an expression. -/
theorem exprRun_ends {k : List Piece} (h : Begins joinEnds k) : exprRun 0 k = ([], k) := by
  cases h with
  | ending => rw [exprRun]
  | mark h rest => exact exprRun_ending h rest
  | @word word h rest =>
    rw [exprRun]
    refine if_pos (Or.inr ⟨rfl, ?_⟩)
    show (exprRun 0 (.fixed word :: rest)).1 = []
    rw [exprRun_ending h]

/-! ## Where a run goes on -/

/-- A run takes the pieces and goes on behind them. -/
def RunsThrough (depth depth' : Nat) (ps : List Piece) : Prop :=
  ∀ k, exprRun depth (ps ++ k) = (ps ++ (exprRun depth' k).1, (exprRun depth' k).2)

theorem RunsThrough.append {d d' d'' : Nat} {a b : List Piece} (ha : RunsThrough d d' a)
    (hb : RunsThrough d' d'' b) : RunsThrough d d'' (a ++ b) := by
  intro k
  rw [List.append_assoc, ha, hb, List.append_assoc]

theorem RunsThrough.piece {depth : Nat} {p : Piece} (space : p ≠ .space)
    (goesOn : depth = 0 → p.endsExpr = false) : RunsThrough depth (depthAfter depth p) [p] := by
  intro k
  rw [List.singleton_append, exprRun]
  refine if_neg ?_
  rintro (⟨hd, ends⟩ | ⟨hs, -⟩)
  · rw [goesOn hd] at ends
    exact Bool.noConfusion ends
  · exact space hs

theorem RunsThrough.spaced {depth depth' : Nat} {ps : List Piece} (ne : ps ≠ [])
    (h : RunsThrough depth depth' ps) : RunsThrough depth depth' (.space :: ps) := by
  intro k
  obtain ⟨p, rest, rfl⟩ := List.exists_cons_of_ne_nil ne
  have taken := h k
  rw [List.cons_append, exprRun]
  have same : depthAfter depth .space = depth := rfl
  simp only [same, taken]
  refine if_neg ?_
  rintro (⟨-, ends⟩ | ⟨-, hnil⟩)
  · exact Bool.noConfusion ends
  · exact absurd hnil (by simp)

/-- Between parentheses everything is taken, up to the one that closes. -/
theorem exprRun_closing {depth : Nat} {ps inner rest : List Piece}
    (h : closing depth ps = some (inner, rest)) :
    exprRun (depth + 1) ps =
      (inner ++ .fixed ")" :: (exprRun 0 rest).1, (exprRun 0 rest).2) := by
  have step {depth : Nat} {p : Piece} {ps inner : List Piece}
      (split : exprRun (depthAfter (depth + 1) p) ps =
        (inner ++ .fixed ")" :: (exprRun 0 rest).1, (exprRun 0 rest).2)) :
      exprRun (depth + 1) (p :: ps) =
        (p :: inner ++ .fixed ")" :: (exprRun 0 rest).1, (exprRun 0 rest).2) := by
    rw [exprRun, split]
    refine if_neg ?_
    rintro (⟨hd, -⟩ | ⟨-, hnil⟩)
    · exact Nat.noConfusion hd
    · exact absurd hnil (by simp)
  induction ps generalizing depth inner with
  | nil => rw [closing] at h; cases h
  | cons p ps ih =>
    rw [closing.eq_def] at h
    simp only at h
    split at h
    · next hp =>
      subst hp
      cases depth with
      | zero =>
        cases h
        rw [exprRun]
        refine if_neg ?_
        rintro (⟨hd, -⟩ | ⟨hs, -⟩)
        · exact Nat.noConfusion hd
        · exact Piece.noConfusion hs
      | succ depth =>
        obtain ⟨⟨inner', rest'⟩, hsplit, heq⟩ := Option.map_eq_some_iff.mp h
        cases heq
        exact step (ih hsplit)
    · next hp =>
      obtain ⟨⟨inner', rest'⟩, hsplit, heq⟩ := Option.map_eq_some_iff.mp h
      cases heq
      refine step ?_
      rw [depthAfter, if_neg hp]
      by_cases opening : p = .fixed "("
      · rw [if_pos opening] at hsplit ⊢
        exact ih hsplit
      · rw [if_neg opening] at hsplit ⊢
        exact ih hsplit

theorem RunsThrough.parenthesized {ps : List Piece} (h : Closes ps) :
    RunsThrough 0 0 (parenthesized ps) := by
  intro k
  have text : SqliteSyntax.parenthesized ps ++ k = .fixed "(" :: (ps ++ .fixed ")" :: k) := by
    simp [SqliteSyntax.parenthesized]
  have inner := exprRun_closing (h.closing k)
  rw [text, exprRun]
  have same : depthAfter 0 (.fixed "(") = 1 := rfl
  simp only [same, inner]
  refine (if_neg ?_).trans ?_
  · rintro (⟨-, ends⟩ | ⟨hs, -⟩)
    · exact absurd ends (by decide)
    · exact Piece.noConfusion hs
  · simp [SqliteSyntax.parenthesized]

/-! ## Expressions have no end inside -/

/-- Pieces that end no expression and are no parentheses. -/
def Piece.goesOn : Piece → Bool
  | .fixed t => decide (t ∉ "(" :: joinEnds)
  | .name _ | .text _ | .blob _ | .numeral _ => true
  | .space | .verbatim _ | .groupOpen | .groupClose => false

/-- Text that has no comma and no word of a join outside of parentheses. -/
inductive Coherent : List Piece → Prop where
  | one {p : Piece} (h : p.goesOn = true) : Coherent [p]
  | cons {p : Piece} {a : List Piece} (h : p.goesOn = true) (rest : Coherent a) : Coherent (p :: a)
  | spaced {a b : List Piece} (left : Coherent a) (right : Coherent b) : Coherent (a ++ .space :: b)
  | enclosed {a : List Piece} (inner : Tidy a) : Coherent (parenthesized a)
  | grouped {a : List Piece} (inner : Tidy a) : Coherent (.groupOpen :: a ++ [.groupClose])

namespace Coherent
variable {ps : List Piece}

theorem plainOf_ne_nil (h : Coherent ps) : plainOf ps ≠ [] := by
  have one {p : Piece} (hp : p.goesOn = true) (a : List Piece) : plainOf (p :: a) ≠ [] := by
    rw [plainOf_cons]
    cases p with
    | numeral digits =>
      show plainNumeral digits ++ _ ≠ []
      unfold plainNumeral
      split <;> simp
    | _ => first | exact Bool.noConfusion hp | exact List.cons_ne_nil _ _
  cases h with
  | one hp => exact one hp []
  | cons hp _ => exact one hp _
  | spaced _ _ => simp [Piece.plain]
  | enclosed _ => simp [parenthesized, Piece.plain]
  | grouped _ => simp [Piece.plain]

theorem runsThrough_piece {p : Piece} (h : p.goesOn = true) : RunsThrough 0 0 p.plain := by
  have fixed {t : String} (ht : t ∉ "(" :: joinEnds) : RunsThrough 0 0 [.fixed t] := by
    rw [List.mem_cons, not_or] at ht
    have closing : t ≠ ")" := by
      rintro rfl
      exact ht.2 (by decide)
    have run : RunsThrough 0 (depthAfter 0 (.fixed t)) [.fixed t] :=
      .piece (fun h => Piece.noConfusion h) fun _ => decide_eq_false ht.2
    rwa [depthAfter, if_neg fun h => ht.1 (Piece.fixed.inj h),
      if_neg fun h => closing (Piece.fixed.inj h)] at run
  have numeral (digits : String) : RunsThrough 0 0 [.numeral digits] :=
    .piece (fun h => Piece.noConfusion h) fun _ => rfl
  cases p with
  | fixed t => exact fixed (of_decide_eq_true h)
  | numeral digits =>
    show RunsThrough 0 0 (plainNumeral digits)
    unfold plainNumeral
    split
    · exact (fixed (t := "-") (by decide)).append (numeral _)
    · exact (fixed (t := "+") (by decide)).append (numeral _)
    · exact numeral _
  | name | text | blob => exact .piece (fun h => Piece.noConfusion h) fun _ => rfl
  | _ => exact Bool.noConfusion h

theorem runsThrough (h : Coherent ps) (words : ∀ p ∈ ps, p.VerbatimWord) :
    RunsThrough 0 0 (plainOf ps) := by
  induction h with
  | one hp =>
    rw [plainOf_cons, plainOf_nil, List.append_nil]
    exact runsThrough_piece hp
  | cons hp _ ih =>
    rw [plainOf_cons]
    exact (runsThrough_piece hp).append (ih fun p h => words p (List.mem_cons_of_mem _ h))
  | spaced _ right ihl ihr =>
    rw [plainOf_append, plainOf_space]
    have first := ihl fun p h => words p (List.mem_append_left _ h)
    have second := ihr fun p h => words p (by simp [h])
    exact first.append (.spaced right.plainOf_ne_nil second)
  | enclosed inner =>
    rw [plainOf_parenthesized]
    exact .parenthesized (inner.closes fun p h => words p (by simp [parenthesized, h]))
  | @grouped a inner =>
    have text : plainOf (.groupOpen :: a ++ [.groupClose]) = parenthesized (plainOf a) :=
      plainOf_groupedIf true a
    rw [text]
    exact .parenthesized (inner.closes fun p h => words p (by simp [h]))

/-- Nothing, or a space and text that goes on. -/
def After (ps : List Piece) : Prop := ps = [] ∨ ∃ qs, ps = .space :: qs ∧ Coherent qs

theorem after (h : Coherent ps) : After (.space :: ps) := Or.inr ⟨ps, rfl, h⟩

theorem append {a b : List Piece} (ha : Coherent a) (hb : After b) : Coherent (a ++ b) := by
  obtain rfl | ⟨qs, rfl, hq⟩ := hb
  · rw [List.append_nil]
    exact ha
  · exact .spaced ha hq

theorem After.append {a b : List Piece} (ha : After a) (hb : After b) : After (a ++ b) := by
  obtain rfl | ⟨qs, rfl, hq⟩ := ha
  · exact hb
  · exact (hq.append hb).after

theorem After.clause {word : String} (h : (Piece.fixed word).goesOn = true)
    {body : Option (List Piece)} (hb : ∀ ps, body = some ps → Coherent ps) :
    After (SqliteSyntax.clause [word] body) := by
  cases body with
  | none => exact Or.inl rfl
  | some ps => exact ((Coherent.one h).append (hb ps rfl).after).after

theorem After.spaced {body : Option (List Piece)} (hb : ∀ ps, body = some ps → Coherent ps) :
    After (SqliteSyntax.spaced body) := by
  cases body with
  | none => exact Or.inl rfl
  | some ps => exact (hb ps rfl).after

theorem phrase {words : List String} (ne : words ≠ [])
    (h : ∀ w ∈ words, (Piece.fixed w).goesOn = true) : Coherent (phrase words) := by
  induction words with
  | nil => exact absurd rfl ne
  | cons word rest ih =>
    cases rest with
    | nil => exact .one (h word (List.mem_cons_self ..))
    | cons next rest =>
      exact .spaced (.one (h word (List.mem_cons_self ..)))
        (ih (List.cons_ne_nil next rest) fun w hw => h w (List.mem_cons_of_mem _ hw))

theorem negatable {word : String} (negated : Bool) (h : (Piece.fixed word).goesOn = true) :
    Coherent (negatable negated [word]) := by
  cases negated with
  | false => exact .one h
  | true => exact .spaced (.one (by decide)) (.one h)

theorem groupedIf {a : List Piece} (needed : Bool) (h : Coherent a) (inner : Tidy a) :
    Coherent (groupedIf needed a) := by
  cases needed with
  | false => exact h
  | true => exact .grouped inner

end Coherent

/-! ### Expressions -/

theorem Literal.coherent (value : Literal) : Coherent value.pieces := by
  cases value with
  | boolean b => cases b <;> exact .one (by decide)
  | null | currentTime | currentDate | currentTimestamp => exact .one (by decide)
  | _ => exact .one rfl

theorem ColumnRef.coherent (c : ColumnRef) : Coherent c.pieces := by
  have dot (n : String) : Coherent [.fixed ".", .name n] := .cons (by decide) (.one rfl)
  unfold ColumnRef.pieces
  split
  · exact .one rfl
  · unfold QualifiedName.pieces
    split
    · exact .cons rfl (dot _)
    · exact .cons rfl (.cons (by decide) (.cons rfl (dot _)))
  · exact .cons (by decide) (dot _)
  · exact .cons (by decide) (dot _)

theorem FunctionName.coherent_callPieces (f : FunctionName) (distinct : Bool)
    {arguments : List Piece} (h : Tidy arguments) : Coherent (f.callPieces distinct arguments) := by
  have inner : Tidy (onlyIf distinct [.fixed "DISTINCT", .space] ++ arguments) := by
    cases distinct with
    | false => exact h
    | true => exact (Tidy.word (by decide)).leading.append h
  cases f with
  | builtin f => exact .cons (by cases f <;> decide) (.enclosed inner)
  | defined name => exact .cons rfl (.enclosed inner)

theorem UnaryOp.coherent {op : UnaryOp} {operand : List Piece} (h : Coherent operand)
    (inner : Tidy operand) : Coherent (op.pieces operand) := by
  by_cases hop : op = .not
  · subst hop
    exact .spaced (.one (by decide)) h
  obtain ⟨m, hm, -, -, heq⟩ := UnaryOp.pieces_of_ne_not hop operand
  have marks : ∀ m ∈ prefixMarks, (Piece.fixed m).goesOn = true := by decide
  rw [heq]
  split
  · exact .cons (marks m hm) (.enclosed inner)
  · exact .cons (marks m hm) h

theorem BinaryOp.coherent (op : BinaryOp) : Coherent (Phrase.pieces op) :=
  .phrase (by cases op <;> decide) (by cases op <;> decide)

theorem NullTest.coherent (test : NullTest) : Coherent (Phrase.pieces test) :=
  .phrase (by cases test <;> decide) (by cases test <;> decide)

theorem Expr.coherent_grouped {e : Expr} (tier : Precedence) (h : Coherent e.bare) :
    Coherent (e.grouped tier e.bare) :=
  .groupedIf _ h e.tidy

mutual

/-- Outside of its parentheses an expression has nothing that ends it. -/
theorem Expr.coherent : (e : Expr) → Coherent e.bare
  | .literal value => by
    rw [Expr.bare]
    exact value.coherent
  | .column reference => by
    rw [Expr.bare]
    exact reference.coherent
  | .unary op operand => by
    rw [Expr.bare]
    exact UnaryOp.coherent (Expr.coherent_grouped _ operand.coherent)
      (Expr.tidy_grouped _ operand.tidy)
  | .binary op left right => by
    rw [Expr.bare]
    have hl := Expr.coherent_grouped op.precedence left.coherent
    have hr := Expr.coherent_grouped op.rightTier right.coherent
    exact (hl.append op.coherent.after).append hr.after
  | .nullTest test operand => by
    rw [Expr.bare]
    exact (Expr.coherent_grouped _ operand.coherent).append test.coherent.after
  | .collate operand collation => by
    rw [Expr.bare]
    exact (Expr.coherent_grouped _ operand.coherent).append
      (Coherent.spaced (.one (by decide)) (.one rfl)).after
  | .pattern op negated subject against escape => by
    rw [Expr.bare]
    have words : Coherent (negatable negated (Phrase.words op)) := by
      cases op <;> exact .negatable negated (by decide)
    have hs := Expr.coherent_grouped .equality subject.coherent
    have ha := Expr.coherent_grouped .comparison against.coherent
    exact ((hs.append words.after).append ha.after).append
      (.clause (by decide) (escapePieces_coherent escape))
  | .between negated subject low high => by
    rw [Expr.bare]
    have words : Coherent (negatable negated ["BETWEEN"]) := .negatable negated (by decide)
    have hs := Expr.coherent_grouped .equality subject.coherent
    have hlow := Expr.coherent_grouped .comparison low.coherent
    have hhigh := Expr.coherent_grouped .comparison high.coherent
    exact ((hs.append words.after).append hlow.after).append
      ((Coherent.one (p := .fixed "AND") (by decide)).after.append hhigh.after)
  | .inList negated subject items => by
    rw [Expr.bare]
    have words : Coherent (negatable negated ["IN"]) := .negatable negated (by decide)
    have hs := Expr.coherent_grouped .equality subject.coherent
    exact (hs.append words.after).append
      (Coherent.enclosed (.commaSeparated (listPieces_tidy items))).after
  | .inSelect negated subject query => by
    rw [Expr.bare]
    have words : Coherent (negatable negated ["IN"]) := .negatable negated (by decide)
    have hs := Expr.coherent_grouped .equality subject.coherent
    exact (hs.append words.after).append (Coherent.enclosed query.tidy).after
  | .existsRow negated query => by
    rw [Expr.bare]
    have words : Coherent (negatable negated ["EXISTS"]) := .negatable negated (by decide)
    exact words.append (Coherent.enclosed query.tidy).after
  | .subquery query => by
    rw [Expr.bare]
    exact .enclosed query.tidy
  | .call function distinct arguments => by
    rw [Expr.bare]
    exact function.coherent_callPieces distinct (.commaSeparated (listPieces_tidy arguments))
  | .callStar function distinct => by
    rw [Expr.bare]
    exact function.coherent_callPieces distinct (.one (by decide))
  | .caseWhen operand branches otherwise => by
    rw [Expr.bare]
    have operand := Coherent.After.spaced (optionPieces_coherent operand)
    have otherwise : Coherent.After (clause ["ELSE"] (optionPieces otherwise)) :=
      .clause (by decide) (optionPieces_coherent otherwise)
    have ending := (Coherent.one (p := .fixed "END") (by decide)).after
    exact ((((Coherent.one (p := .fixed "CASE") (by decide)).append operand).append
      (branchPieces_after branches)).append otherwise).append ending
  | .cast operand typeName => by
    rw [Expr.bare]
    exact .cons (by decide) (.enclosed (operand.tidy.spaced (.spaced (.word (by decide)) (.verbatim _))))
  | .row items => by
    rw [Expr.bare]
    exact .enclosed (.commaSeparated (listPieces_tidy items))
  | .raise action => by
    rw [Expr.bare]
    exact .cons (by decide) (.enclosed action.tidy)

theorem optionPieces_coherent : (item : Option Expr) →
    ∀ ps, optionPieces item = some ps → Coherent ps
  | none, _, h => by
    rw [optionPieces] at h
    cases h
  | some e, _, h => by
    rw [optionPieces] at h
    cases h
    exact e.coherent

theorem escapePieces_coherent : (item : Option Expr) →
    ∀ ps, escapePieces item = some ps → Coherent ps
  | none, _, h => by
    rw [escapePieces] at h
    cases h
  | some e, _, h => by
    rw [escapePieces] at h
    cases h
    exact Expr.coherent_grouped _ e.coherent

theorem branchPieces_after : (branches : List (Expr × Expr)) →
    Coherent.After (branchPieces branches)
  | [] => by
    rw [branchPieces]
    exact Or.inl rfl
  | (condition, result) :: rest => by
    rw [branchPieces]
    have hw := (Coherent.one (p := .fixed "WHEN") (by decide)).after.append condition.coherent.after
    have ht := (Coherent.one (p := .fixed "THEN") (by decide)).after.append result.coherent.after
    have := (hw.append ht).append (branchPieces_after rest)
    simpa using this

end

/-! ## Reading -/

/-- An expression is taken whole, as its own text, before what may follow it. -/
theorem Expr.reads_text (e : Expr) (words : ∀ p ∈ e.bare, p.VerbatimWord) :
    Reads Reader.exprText (Begins joinEnds) (plainOf e.bare) e.sql := by
  intro k hk
  have run := e.coherent.runsThrough words k
  rw [exprRun_ends hk, List.append_nil] at run
  have text : textOf (plainOf e.bare) = e.sql := by
    rw [textOf, charsOf_plainOf, Expr.sql, textOf]
  rw [Reader.exprText, run]
  simp only [if_neg e.coherent.plainOf_ne_nil, text]

end SqliteSyntax
