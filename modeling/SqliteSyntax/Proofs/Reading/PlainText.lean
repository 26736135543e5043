import SqliteSyntax.Expr.Render
import SqliteSyntax.Proofs.Reading.Lexing

/-! # The parts of a text as a lexer sees them

Fixed words and quoted tokens are seen as they are, so what is left to say of a text is what is seen of
its parts. -/
namespace SqliteSyntax
set_option autoImplicit false

@[simp] theorem plainOf_space (ps : List Piece) : plainOf (.space :: ps) = .space :: plainOf ps := rfl

@[simp] theorem plainOf_fixed (t : String) (ps : List Piece) :
    plainOf (.fixed t :: ps) = .fixed t :: plainOf ps := rfl

@[simp] theorem plainOf_name (n : String) (ps : List Piece) :
    plainOf (.name n :: ps) = .name n :: plainOf ps := rfl

@[simp] theorem plainOf_parenthesized (ps : List Piece) :
    plainOf (parenthesized ps) = parenthesized (plainOf ps) := by
  simp [parenthesized, Piece.plain]

/-- The parentheses of precedence are seen as parentheses. -/
@[simp] theorem plainOf_groupedIf (needed : Bool) (ps : List Piece) :
    plainOf (groupedIf needed ps) = if needed then parenthesized (plainOf ps) else plainOf ps := by
  cases needed <;> simp [groupedIf, parenthesized, Piece.plain]

theorem plainOf_separated {separator : List Piece} (h : plainOf separator = separator)
    (parts : List (List Piece)) :
    plainOf (separated separator parts) = separated separator (parts.map plainOf) := by
  induction parts with
  | nil => rfl
  | cons part rest ih =>
    cases rest with
    | nil => rfl
    | cons next rest => simp only [separated, plainOf_append, h, ih, List.map_cons]

@[simp] theorem plainOf_commaSeparated (parts : List (List Piece)) :
    plainOf (commaSeparated parts) = commaSeparated (parts.map plainOf) :=
  plainOf_separated rfl parts

@[simp] theorem plainOf_phrase (words : List String) : plainOf (phrase words) = phrase words := by
  unfold phrase
  rw [plainOf_separated rfl, List.map_map]
  rfl

@[simp] theorem plainOf_choice {α : Type} [Phrase α] (a : α) :
    plainOf (Phrase.pieces a) = Phrase.pieces a :=
  plainOf_phrase _

@[simp] theorem plainOf_spaced (part : Option (List Piece)) :
    plainOf (spaced part) = spaced (part.map plainOf) := by
  cases part <;> simp [spaced, Piece.plain]

@[simp] theorem plainOf_optional {α : Type} [Phrase α] (a : Option α) :
    plainOf (Phrase.optional a) = Phrase.optional a := by
  cases a <;> simp [Phrase.optional]

@[simp] theorem plainOf_clause (words : List String) (body : Option (List Piece)) :
    plainOf (clause words body) = clause words (body.map plainOf) := by
  cases body <;> simp [clause, Piece.plain]

@[simp] theorem plainOf_onlyIf (condition : Bool) (ps : List Piece) :
    plainOf (onlyIf condition ps) = onlyIf condition (plainOf ps) := by
  cases condition <;> rfl

@[simp] theorem plainOf_negatable (negated : Bool) (words : List String) :
    plainOf (negatable negated words) = negatable negated words :=
  plainOf_phrase _

@[simp] theorem plainOf_nameList (names : List String) :
    plainOf (nameList names) = nameList names := by
  simp only [nameList, plainOf_parenthesized, plainOf_commaSeparated, List.map_map]
  rfl

@[simp] theorem plainOf_asClause (asName : Option String) :
    plainOf (asClause asName) = asClause asName := by
  cases asName <;> simp [asClause, Piece.plain]

@[simp] theorem plainOf_qualifiedName (n : QualifiedName) : plainOf n.pieces = n.pieces := by
  unfold QualifiedName.pieces
  split <;> rfl

@[simp] theorem plainOf_tableRef (t : TableRef) : plainOf t.pieces = t.pieces := by
  obtain ⟨name, asName, hint⟩ := t
  rw [TableRef.pieces, plainOf_append, plainOf_append, plainOf_qualifiedName, plainOf_asClause]
  cases hint with
  | none => rfl
  | some hint => cases hint <;> rfl

@[simp] theorem plainOf_columnRef (c : ColumnRef) : plainOf c.pieces = c.pieces := by
  unfold ColumnRef.pieces
  split <;> simp [Piece.plain]

@[simp] theorem plainOf_functionName (f : FunctionName) : plainOf f.pieces = f.pieces := by
  cases f <;> rfl

@[simp] theorem plainOf_raiseAction (action : RaiseAction) :
    plainOf action.pieces = action.pieces := by
  cases action <;> rfl

@[simp] theorem plainOf_joinOperator (op : JoinOperator) : plainOf op.pieces = op.pieces := by
  unfold JoinOperator.pieces
  split
  · rfl
  · simp only [List.cons_append, plainOf_space, plainOf_append, plainOf_phrase, plainOf_nil]

theorem plainOf_flatMap {α : Type} (f : α → List Piece) (items : List α) :
    plainOf (items.flatMap f) = items.flatMap fun a => plainOf (f a) :=
  List.flatMap_assoc

@[simp] theorem leadsWithSign_plainOf (ps : List Piece) :
    leadsWithSign (plainOf ps) = leadsWithSign ps := by
  rw [leadsWithSign, leadsWithSign, charsOf_plainOf]

@[simp] theorem plainOf_unary (op : UnaryOp) (ps : List Piece) :
    plainOf (op.pieces ps) = op.pieces (plainOf ps) := by
  unfold UnaryOp.pieces
  split
  · simp [Piece.plain]
  · rw [leadsWithSign_plainOf]
    split <;> simp

end SqliteSyntax
