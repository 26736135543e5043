import SqliteSyntax.Proofs.Nodes.Nested
import SqliteSyntax.Statement.Render

/-! # Where the word `RAISE` is written

The word stands in the text of a node exactly when the node is a `RAISE` or the word stands in the
text of one of its parts (`Node.showsRaise_iff_parts`). No other phrase of the grammar writes it. -/
namespace SqliteSyntax
set_option autoImplicit false

/-- The word `RAISE` is one of the pieces. -/
def ShowsRaise (ps : List Piece) : Prop := .fixed "RAISE" ∈ ps

namespace ShowsRaise

/-! ## Putting pieces together -/

theorem nil_iff : ShowsRaise [] ↔ False := by
  simp [ShowsRaise]

theorem append_iff {a b : List Piece} : ShowsRaise (a ++ b) ↔ ShowsRaise a ∨ ShowsRaise b :=
  List.mem_append

theorem cons_iff {p : Piece} {ps : List Piece} (h : .fixed "RAISE" ≠ p) :
    ShowsRaise (p :: ps) ↔ ShowsRaise ps := by
  simp [ShowsRaise, h]

theorem space_iff {ps : List Piece} : ShowsRaise (.space :: ps) ↔ ShowsRaise ps :=
  cons_iff (by simp)

theorem name_iff {n : String} {ps : List Piece} : ShowsRaise (.name n :: ps) ↔ ShowsRaise ps :=
  cons_iff (by simp)

theorem word_iff {t : String} {ps : List Piece} (h : "RAISE" ≠ t) :
    ShowsRaise (.fixed t :: ps) ↔ ShowsRaise ps :=
  cons_iff (by simpa using h)

theorem parenthesized_iff {ps : List Piece} : ShowsRaise (parenthesized ps) ↔ ShowsRaise ps := by
  simp [ShowsRaise, parenthesized]

theorem groupedIf_iff {needed : Bool} {ps : List Piece} :
    ShowsRaise (groupedIf needed ps) ↔ ShowsRaise ps := by
  cases needed <;> simp [ShowsRaise, groupedIf]

theorem grouped_iff {e : Expr} {tier : Precedence} {ps : List Piece} :
    ShowsRaise (e.grouped tier ps) ↔ ShowsRaise ps :=
  groupedIf_iff

theorem separated_iff {separator : List Piece} (h : ¬ ShowsRaise separator)
    {parts : List (List Piece)} :
    ShowsRaise (separated separator parts) ↔ ∃ ps ∈ parts, ShowsRaise ps := by
  induction parts with
  | nil => simp [separated, nil_iff]
  | cons part rest ih =>
    cases rest with
    | nil => simp [separated]
    | cons next rest => simp [separated, append_iff, h, ih]

theorem commaSeparated_iff {parts : List (List Piece)} :
    ShowsRaise (commaSeparated parts) ↔ ∃ ps ∈ parts, ShowsRaise ps :=
  separated_iff (by simp [ShowsRaise])

theorem commaSeparated_map_iff {α : Type} {f : α → List Piece} {items : List α} :
    ShowsRaise (commaSeparated (items.map f)) ↔ ∃ a ∈ items, ShowsRaise (f a) := by
  rw [commaSeparated_iff]
  simp

theorem phrase_iff {words : List String} : ShowsRaise (phrase words) ↔ "RAISE" ∈ words := by
  unfold phrase
  rw [separated_iff (by simp [ShowsRaise])]
  simp [ShowsRaise, token]

theorem not_phrase {words : List String} (h : "RAISE" ∉ words) : ¬ ShowsRaise (phrase words) :=
  fun hs => h (phrase_iff.mp hs)

theorem not_choice {α : Type} [Phrase α] (h : ∀ a ∈ (Phrase.all : List α),
    "RAISE" ∉ Phrase.words a) (a : α) : ¬ ShowsRaise (Phrase.pieces a) :=
  not_phrase (h a (Phrase.mem_all a))

theorem not_optional {α : Type} [Phrase α] (h : ∀ a ∈ (Phrase.all : List α),
    "RAISE" ∉ Phrase.words a) (a : Option α) : ¬ ShowsRaise (Phrase.optional a) := by
  cases a with
  | none => simp [ShowsRaise, Phrase.optional, spaced]
  | some a =>
    have : ShowsRaise (Phrase.optional (some a)) ↔ ShowsRaise (Phrase.pieces a) := space_iff
    rw [this]
    exact not_choice h a

theorem spaced_iff {part : Option (List Piece)} :
    ShowsRaise (spaced part) ↔ ∃ ps, part = some ps ∧ ShowsRaise ps := by
  cases part with
  | none => simp [spaced, nil_iff]
  | some ps => simp [spaced, space_iff]

theorem clause_iff {words : List String} (h : "RAISE" ∉ words) {body : Option (List Piece)} :
    ShowsRaise (clause words body) ↔ ∃ ps, body = some ps ∧ ShowsRaise ps := by
  cases body with
  | none => simp [clause, spaced, nil_iff]
  | some ps => simp [clause, spaced, append_iff, space_iff, phrase_iff, h]

theorem not_nameList (names : List String) : ¬ ShowsRaise (nameList names) := by
  simp [nameList, parenthesized_iff, commaSeparated_iff, name_iff, nil_iff]

theorem not_asClause (asName : Option String) : ¬ ShowsRaise (asClause asName) := by
  rw [asClause, clause_iff (by decide)]
  cases asName with
  | none => simp
  | some n => simp [name_iff, nil_iff]

theorem not_qualifiedName (n : QualifiedName) : ¬ ShowsRaise n.pieces := by
  unfold QualifiedName.pieces
  split
  · simp [ShowsRaise]
  · simp [ShowsRaise]

theorem not_columnRef (c : ColumnRef) : ¬ ShowsRaise c.pieces := by
  unfold ColumnRef.pieces
  split
  · simp [ShowsRaise]
  · rw [append_iff]
    rintro (h | h)
    · exact not_qualifiedName _ h
    · simp [ShowsRaise] at h
  · simp [ShowsRaise]
  · simp [ShowsRaise]

theorem not_tableRef (t : TableRef) : ¬ ShowsRaise t.pieces := by
  unfold TableRef.pieces
  rw [append_iff, append_iff, spaced_iff]
  rintro ((h | h) | ⟨ps, hps, h⟩)
  · exact not_qualifiedName _ h
  · exact not_asClause _ h
  · obtain ⟨hint, -, rfl⟩ := Option.map_eq_some_iff.mp hps
    cases hint with
    | indexedBy index => simp [IndexHint.pieces, append_iff, phrase_iff, space_iff, name_iff, nil_iff] at h
    | notIndexed => simp [IndexHint.pieces, phrase_iff] at h

theorem not_literal (value : Literal) : ¬ ShowsRaise value.pieces := by
  cases value with
  | boolean b => cases b <;> simp [ShowsRaise, Literal.pieces]
  | _ => simp [ShowsRaise, Literal.pieces]

theorem not_negatable {negated : Bool} {words : List String} (h : "RAISE" ∉ words) :
    ¬ ShowsRaise (negatable negated words) := by
  cases negated with
  | false => exact not_phrase h
  | true => exact not_phrase (by simpa using h)

theorem not_joinOperator (op : JoinOperator) : ¬ ShowsRaise op.pieces := by
  obtain ⟨natural, kind⟩ := op
  cases natural <;> cases kind <;> simp [ShowsRaise, JoinOperator.pieces, phrase, separated, token,
    Phrase.words]

theorem functionName_iff {f : FunctionName} {ps : List Piece} :
    ShowsRaise (f.pieces ++ ps) ↔ ShowsRaise ps := by
  cases f with
  | builtin f =>
    refine cons_iff ?_
    cases f <;> simp [Builtin.sql]
  | defined n => exact name_iff

theorem callPieces_iff {f : FunctionName} {distinct : Bool} {ps : List Piece} :
    ShowsRaise (f.callPieces distinct ps) ↔ ShowsRaise ps := by
  rw [FunctionName.callPieces, functionName_iff, parenthesized_iff, append_iff]
  cases distinct <;> simp [onlyIf, ShowsRaise]

theorem unary_iff {op : UnaryOp} {ps : List Piece} :
    ShowsRaise (op.pieces ps) ↔ ShowsRaise ps := by
  by_cases hop : op = .not
  · subst hop
    rw [UnaryOp.pieces, word_iff (by decide), space_iff]
  · have heq : op.pieces ps = Phrase.pieces op ++
        (if op.isSign && leadsWithSign ps then parenthesized ps else ps) := by
      cases op <;> first | exact absurd rfl hop | rfl
    have hword : ¬ ShowsRaise (Phrase.pieces op) := not_choice (by decide) op
    rw [heq, append_iff, or_iff_right hword]
    split
    · exact parenthesized_iff
    · exact Iff.rfl

theorem collated_iff {e : Expr} {ps : List Piece} {collation : Option String} :
    ShowsRaise (collatedPieces e ps collation) ↔ ShowsRaise ps := by
  cases collation with
  | none => rfl
  | some n =>
    simp [collatedPieces, append_iff, grouped_iff, space_iff, word_iff, name_iff, nil_iff]

end ShowsRaise

/-! ## Parts -/

namespace Node

def pieces : Node → List Piece
  | .expr e => e.bare
  | .query q => q.pieces
  | .body b => b.pieces
  | .tree t => t.pieces
  | .statement s => s.pieces

end Node

/-- The word `RAISE` stands in the text of one of the nodes. -/
def SomeShowsRaise (nodes : List Node) : Prop := ∃ m ∈ nodes, ShowsRaise m.pieces

namespace SomeShowsRaise
open ShowsRaise

theorem nil_iff : SomeShowsRaise [] ↔ False := by
  simp [SomeShowsRaise]

theorem cons_iff {m : Node} {rest : List Node} :
    SomeShowsRaise (m :: rest) ↔ ShowsRaise m.pieces ∨ SomeShowsRaise rest := by
  simp [SomeShowsRaise]

theorem append_iff {a b : List Node} :
    SomeShowsRaise (a ++ b) ↔ SomeShowsRaise a ∨ SomeShowsRaise b := by
  simp [SomeShowsRaise, or_and_right, exists_or]

theorem map_iff {α : Type} {f : α → Node} {items : List α} :
    SomeShowsRaise (items.map f) ↔ ∃ a ∈ items, ShowsRaise (f a).pieces := by
  simp [SomeShowsRaise]

theorem flatMap_iff {α : Type} {f : α → List Node} {items : List α} :
    SomeShowsRaise (items.flatMap f) ↔ ∃ a ∈ items, SomeShowsRaise (f a) := by
  constructor
  · rintro ⟨m, hm, h⟩
    obtain ⟨a, ha, hma⟩ := List.mem_flatMap.mp hm
    exact ⟨a, ha, m, hma, h⟩
  · rintro ⟨a, ha, m, hm, h⟩
    exact ⟨m, List.mem_flatMap_of_mem ha hm, h⟩

/-! ### The text of a list of parts -/

theorem items_iff {items : List Expr} :
    ShowsRaise (commaSeparated (listPieces items)) ↔ SomeShowsRaise (items.map .expr) := by
  rw [listPieces_eq, commaSeparated_map_iff, map_iff]
  rfl

theorem clauseOf_iff {words : List String} (h : "RAISE" ∉ words) {item : Option Expr} :
    ShowsRaise (clause words (item.map Expr.bare)) ↔ SomeShowsRaise (optionParts item) := by
  rw [clause_iff h, optionParts, map_iff]
  cases item <;> simp [Node.pieces]

theorem spacedOf_iff {item : Option Expr} :
    ShowsRaise (spaced (item.map Expr.bare)) ↔ SomeShowsRaise (optionParts item) := by
  rw [spaced_iff, optionParts, map_iff]
  cases item <;> simp [Node.pieces]

theorem rows_iff {rows : List (List Expr)} :
    ShowsRaise (rowsPieces (rowListPieces rows)) ↔ SomeShowsRaise (rowParts rows) := by
  rw [rowsPieces, commaSeparated_iff, rowListPieces_eq, rowParts, flatMap_iff]
  simp [parenthesized_iff, commaSeparated_iff, map_iff, Node.pieces]

theorem branches_iff {branches : List (Expr × Expr)} :
    ShowsRaise (branchPieces branches) ↔
      SomeShowsRaise (branches.flatMap fun b => [.expr b.1, .expr b.2]) := by
  rw [branchPieces_eq, flatMap_iff]
  simp [ShowsRaise, SomeShowsRaise, branchText, Node.pieces]

theorem columns_iff {columns : List ResultColumn} :
    ShowsRaise (commaSeparated (columnPieces columns)) ↔ SomeShowsRaise (columnParts columns) := by
  rw [columnPieces_eq, commaSeparated_map_iff, columnParts, flatMap_iff]
  refine exists_congr fun c => and_congr_right fun _ => ?_
  cases c with
  | star => simp [ResultColumn.pieces, ShowsRaise, nil_iff]
  | tableStar t => simp [ResultColumn.pieces, ShowsRaise, nil_iff]
  | expr value asName =>
    rw [ResultColumn.pieces, ShowsRaise.append_iff, or_iff_left (not_asClause asName)]
    simp [SomeShowsRaise, Node.pieces]

theorem term_iff {t : OrderingTerm} : ShowsRaise t.pieces ↔ ShowsRaise t.expr.bare := by
  have direction := not_optional (α := SortOrder) (by decide) t.direction
  have nulls := not_optional (α := NullPlacement) (by decide) t.nulls
  rw [OrderingTerm.pieces, ShowsRaise.append_iff, ShowsRaise.append_iff, or_iff_left nulls,
    or_iff_left direction, collated_iff]

theorem terms_iff {terms : List OrderingTerm} :
    ShowsRaise (orderByPieces (termPieces terms)) ↔ SomeShowsRaise (termParts terms) := by
  rw [orderByPieces, termPieces_eq, termParts, map_iff]
  split
  · next h =>
    have : terms = [] := by simpa using h
    subst this
    simp [ShowsRaise]
  · rw [clause_iff (by decide)]
    simp [commaSeparated_iff, term_iff, Node.pieces]

theorem with_iff {withClause : Option WithClause} :
    ShowsRaise (withPieces withClause) ↔ SomeShowsRaise (withParts withClause) := by
  cases withClause with
  | none => simp [withPieces, withParts, ShowsRaise, nil_iff]
  | some w =>
    obtain ⟨recursive, tables⟩ := w
    have words : ¬ ShowsRaise (phrase (if recursive then ["WITH", "RECURSIVE"] else ["WITH"])) :=
      not_phrase (by cases recursive <;> decide)
    have table : ∀ t : CommonTable, ShowsRaise t.pieces ↔ ShowsRaise t.query.pieces := by
      intro t
      have names : ¬ ShowsRaise (optionalNames t.columns) := by
        unfold optionalNames
        split
        · simp [ShowsRaise]
        · exact not_nameList _
      have words : ¬ ShowsRaise (phrase (materializedWords t.materialized)) :=
        not_phrase (by rcases t.materialized with _ | (_ | _) <;> decide)
      rw [CommonTable.pieces, List.cons_append, List.cons_append, name_iff,
        ShowsRaise.append_iff, ShowsRaise.append_iff, space_iff, space_iff, parenthesized_iff,
        or_iff_right names, or_iff_right words]
    rw [withPieces, tablePieces_eq]
    simp only [ShowsRaise.append_iff, space_iff, words, false_or, commaSeparated_map_iff, withParts,
      Option.toList_some, List.flatMap_singleton, map_iff, Node.pieces, table, ShowsRaise.nil_iff,
      or_false]

theorem source_iff {source : Option FromTree} :
    ShowsRaise (clause ["FROM"] (source.map FromTree.pieces)) ↔
      SomeShowsRaise (source.toList.map .tree) := by
  rw [clause_iff (by decide), map_iff]
  cases source <;> simp [Node.pieces]

end SomeShowsRaise
end SqliteSyntax
