import SqliteSyntax.Proofs.Pieces.Rendered

/-! # Words that a text lacks

Some words of the grammar of statements stand in no expression and no query (`Expr.lacks`,
`Select.lacks`), so they tell where a query that stands bare in a statement ends. -/
namespace SqliteSyntax
set_option autoImplicit false

/-- The grammar writes none of the words in the text. -/
def Lacks (words : List String) (ps : List Piece) : Prop := ∀ w ∈ words, .fixed w ∉ ps

/-- Words of the grammar of statements that stand in no expression and no query. -/
def statementWords : List String := [";", "CONFLICT"]

@[simp] theorem mem_statementWords {w : String} : w ∈ statementWords ↔ w = ";" ∨ w = "CONFLICT" := by
  simp [statementWords]

/-! ## Putting pieces together -/

section Pieces
variable {words : List String}

@[simp] theorem lacks_nil : Lacks words [] := fun _ _ => List.not_mem_nil

@[simp] theorem lacks_append {a b : List Piece} :
    Lacks words (a ++ b) ↔ Lacks words a ∧ Lacks words b := by
  simp only [Lacks, List.mem_append, not_or]
  exact ⟨fun h => ⟨fun w hw => (h w hw).1, fun w hw => (h w hw).2⟩,
    fun h w hw => ⟨h.1 w hw, h.2 w hw⟩⟩

theorem Lacks.mono {words' : List String} {ps : List Piece} (h : Lacks words ps)
    (sub : words' ⊆ words) : Lacks words' ps :=
  fun w hw => h w (sub hw)

theorem lacks_cons {p : Piece} (h : ∀ w, .fixed w ≠ p) {ps : List Piece} :
    Lacks words (p :: ps) ↔ Lacks words ps := by
  simp [Lacks, h]

@[simp] theorem lacks_space {ps : List Piece} : Lacks words (.space :: ps) ↔ Lacks words ps :=
  lacks_cons (by simp)

@[simp] theorem lacks_name {n : String} {ps : List Piece} :
    Lacks words (.name n :: ps) ↔ Lacks words ps :=
  lacks_cons (by simp)

@[simp] theorem lacks_text {t : String} {ps : List Piece} :
    Lacks words (.text t :: ps) ↔ Lacks words ps :=
  lacks_cons (by simp)

@[simp] theorem lacks_verbatim {t : String} {ps : List Piece} :
    Lacks words (.verbatim t :: ps) ↔ Lacks words ps :=
  lacks_cons (by simp)

@[simp] theorem lacks_fixed {t : String} {ps : List Piece} :
    Lacks words (.fixed t :: ps) ↔ t ∉ words ∧ Lacks words ps := by
  constructor
  · intro h
    exact ⟨fun ht => h t ht (List.mem_cons_self ..), fun w hw hm => h w hw (List.mem_cons_of_mem _ hm)⟩
  · rintro ⟨ht, h⟩ w hw hm
    rcases List.mem_cons.mp hm with heq | hm
    · cases heq
      exact ht hw
    · exact h w hw hm

@[simp] theorem lacks_parenthesized (opening : "(" ∉ words) (closing : ")" ∉ words)
    {ps : List Piece} : Lacks words (parenthesized ps) ↔ Lacks words ps := by
  simp [parenthesized, opening, closing]

@[simp] theorem lacks_groupedIf {needed : Bool} {ps : List Piece} :
    Lacks words (groupedIf needed ps) ↔ Lacks words ps := by
  cases needed <;> simp [Lacks, groupedIf]

@[simp] theorem lacks_grouped {e : Expr} {tier : Precedence} {ps : List Piece} :
    Lacks words (e.grouped tier ps) ↔ Lacks words ps :=
  lacks_groupedIf

theorem lacks_separated {separator : List Piece} (h : Lacks words separator)
    {parts : List (List Piece)} :
    Lacks words (separated separator parts) ↔ ∀ ps ∈ parts, Lacks words ps := by
  induction parts with
  | nil => simp [separated]
  | cons part rest ih =>
    cases rest with
    | nil => simp [separated]
    | cons next rest => simp [separated, h, ih]

@[simp] theorem lacks_commaSeparated (comma : "," ∉ words) {parts : List (List Piece)} :
    Lacks words (commaSeparated parts) ↔ ∀ ps ∈ parts, Lacks words ps :=
  lacks_separated (by simp [comma])

@[simp] theorem lacks_phrase {ws : List String} :
    Lacks words (phrase ws) ↔ ∀ w ∈ words, w ∉ ws := by
  unfold phrase
  rw [lacks_separated (by simp)]
  simp only [List.forall_mem_map, token, lacks_fixed, lacks_nil, and_true]
  exact ⟨fun h w hw hs => h w hs hw, fun h w hs hw => h w hw hs⟩

theorem lacks_choice {α : Type} [Phrase α]
    (h : ∀ a ∈ (Phrase.all : List α), ∀ w ∈ words, w ∉ Phrase.words a) (a : α) :
    Lacks words (Phrase.pieces a) :=
  lacks_phrase.mpr (h a (Phrase.mem_all a))

@[simp] theorem lacks_spaced {part : Option (List Piece)} :
    Lacks words (spaced part) ↔ Lacks words (part.getD []) := by
  cases part <;> simp [spaced]

theorem lacks_optional {α : Type} [Phrase α]
    (h : ∀ a ∈ (Phrase.all : List α), ∀ w ∈ words, w ∉ Phrase.words a) (a : Option α) :
    Lacks words (Phrase.optional a) := by
  cases a with
  | none => simp [Phrase.optional]
  | some a => simpa [Phrase.optional] using lacks_choice h a

@[simp] theorem lacks_clause {ws : List String} (h : ∀ w ∈ words, w ∉ ws)
    {body : Option (List Piece)} :
    Lacks words (clause ws body) ↔ Lacks words (body.getD []) := by
  cases body with
  | none => simp [clause]
  | some ps => simpa [clause] using fun _ => h

@[simp] theorem lacks_onlyIf {condition : Bool} {ps : List Piece} :
    Lacks words (onlyIf condition ps) ↔ condition = true → Lacks words ps := by
  cases condition <;> simp [onlyIf]

@[simp] theorem lacks_nameList (marks : ∀ m ∈ ["(", ",", ")"], m ∉ words) (names : List String) :
    Lacks words (nameList names) := by
  have opening := marks "(" (by simp)
  have comma := marks "," (by simp)
  have closing := marks ")" (by simp)
  simp [nameList, opening, comma, closing]

@[simp] theorem lacks_optionalNames (marks : ∀ m ∈ ["(", ",", ")"], m ∉ words)
    (names : List String) : Lacks words (optionalNames names) := by
  unfold optionalNames
  split
  · exact lacks_nil
  · exact lacks_nameList marks names

@[simp] theorem lacks_negatable (not : "NOT" ∉ words) {negated : Bool} {ws : List String} :
    Lacks words (negatable negated ws) ↔ ∀ w ∈ words, w ∉ ws := by
  cases negated with
  | false => simp [negatable]
  | true =>
    have head : ∀ w ∈ words, w ≠ "NOT" := by
      rintro w hw rfl
      exact not hw
    simp only [negatable, if_true, lacks_phrase, List.mem_cons, not_or]
    exact ⟨fun h w hw => (h w hw).2, fun h w hw => ⟨head w hw, h w hw⟩⟩

@[simp] theorem lacks_asClause (as : ∀ w ∈ words, w ∉ ["AS"]) (asName : Option String) :
    Lacks words (asClause asName) := by
  rw [asClause, lacks_clause as]
  cases asName <;> simp

theorem lacks_collated (collate : "COLLATE" ∉ words) {e : Expr} {ps : List Piece}
    (h : Lacks words ps) (collation : Option String) :
    Lacks words (collatedPieces e ps collation) := by
  cases collation <;> simp [collatedPieces, collate, h]

theorem lacks_orderBy (phrase : ∀ w ∈ words, w ∉ ["ORDER", "BY"]) (comma : "," ∉ words)
    {terms : List (List Piece)} (h : ∀ ps ∈ terms, Lacks words ps) :
    Lacks words (orderByPieces terms) := by
  unfold orderByPieces
  split
  · exact lacks_nil
  · rw [lacks_clause phrase]
    simpa [comma] using h

theorem lacks_rows (marks : ∀ m ∈ ["(", ",", ")"], m ∉ words) {rows : List (List (List Piece))}
    (h : ∀ row ∈ rows, ∀ ps ∈ row, Lacks words ps) : Lacks words (rowsPieces rows) := by
  have opening := marks "(" (by simp)
  have comma := marks "," (by simp)
  have closing := marks ")" (by simp)
  simpa [rowsPieces, opening, comma, closing] using h

theorem lacks_listed {α : Type} (comma : "," ∉ words) {f : α → List Piece}
    (h : ∀ a, Lacks words (f a)) (items : List α) : Lacks words (commaSeparated (items.map f)) := by
  simp [comma, h]

theorem lacks_flatMap {α : Type} {f : α → List Piece} (h : ∀ a, Lacks words (f a))
    (items : List α) : Lacks words (items.flatMap f) := by
  intro w hw hm
  obtain ⟨a, -, ha⟩ := List.mem_flatMap.mp hm
  exact h a w hw ha

end Pieces

/-! ## Parts without expressions -/

@[simp] theorem QualifiedName.lacks (n : QualifiedName) : Lacks statementWords n.pieces := by
  unfold pieces
  split <;> simp

@[simp] theorem ColumnRef.lacks (c : ColumnRef) : Lacks statementWords c.pieces := by
  unfold pieces
  split <;> simp

@[simp] theorem TableRef.lacks (t : TableRef) : Lacks statementWords t.pieces := by
  obtain ⟨name, asName, hint⟩ := t
  rcases hint with _ | (index | _) <;> simp [pieces, IndexHint.pieces]

@[simp] theorem Literal.lacks (value : Literal) : Lacks statementWords value.pieces := by
  cases value with
  | boolean b => cases b <;> simp [pieces]
  | _ => simp [pieces, Lacks]

@[simp] theorem RaiseAction.lacks (action : RaiseAction) : Lacks statementWords action.pieces := by
  cases action <;> simp [pieces]

theorem JoinOperator.lacks (op : JoinOperator) : Lacks statementWords op.pieces := by
  obtain ⟨natural, kind⟩ := op
  cases natural <;> cases kind <;> simp [pieces, Phrase.words]

@[simp] theorem FunctionName.lacks_callPieces {f : FunctionName} {distinct : Bool}
    {ps : List Piece} : Lacks statementWords (f.callPieces distinct ps) ↔ Lacks statementWords ps := by
  have name : Lacks statementWords f.pieces := by
    cases f with
    | builtin f => cases f <;> simp [pieces, Builtin.sql]
    | defined n => simp [pieces]
  simp [callPieces, name]

@[simp] theorem UnaryOp.lacks_pieces {op : UnaryOp} {ps : List Piece} :
    Lacks statementWords (op.pieces ps) ↔ Lacks statementWords ps := by
  have word : Lacks statementWords (Phrase.pieces op) := lacks_choice (by decide) op
  unfold pieces
  split
  · simp
  · split <;> simp [word]

/-! ## Expressions and queries -/

mutual

theorem Expr.lacks : (e : Expr) → Lacks statementWords e.bare
  | .literal value => by simp [Expr.bare]
  | .column reference => by simp [Expr.bare]
  | .unary op operand => by simp [Expr.bare, operand.lacks]
  | .binary op left right => by
    have word : Lacks statementWords (Phrase.pieces op) := lacks_choice (by decide) op
    simp [Expr.bare, left.lacks, right.lacks, word]
  | .nullTest test operand => by
    have word : Lacks statementWords (Phrase.pieces test) := lacks_choice (by decide) test
    simp [Expr.bare, operand.lacks, word]
  | .collate operand collation => by simp [Expr.bare, operand.lacks]
  | .pattern op negated subject against escape => by
    have word : ∀ w ∈ statementWords, w ∉ Phrase.words op := by cases op <;> decide
    simpa [Expr.bare, subject.lacks, against.lacks, escapePieces_lacks escape] using word
  | .between negated subject low high => by
    simp [Expr.bare, subject.lacks, low.lacks, high.lacks]
  | .inList negated subject items => by
    simpa [Expr.bare, subject.lacks] using listPieces_lacks items
  | .inSelect negated subject query => by simp [Expr.bare, subject.lacks, query.lacks]
  | .existsRow negated query => by simp [Expr.bare, query.lacks]
  | .subquery query => by simp [Expr.bare, query.lacks]
  | .call function distinct arguments => by
    simpa [Expr.bare] using listPieces_lacks arguments
  | .callStar function distinct => by simp [Expr.bare]
  | .caseWhen operand branches otherwise => by
    simp [Expr.bare, optionPieces_lacks operand, branchPieces_lacks branches,
      optionPieces_lacks otherwise]
  | .cast operand typeName => by simp [Expr.bare, operand.lacks]
  | .row items => by simpa [Expr.bare] using listPieces_lacks items
  | .raise action => by simp [Expr.bare]

theorem listPieces_lacks : (items : List Expr) → ∀ ps ∈ listPieces items, Lacks statementWords ps
  | [] => by simp [listPieces]
  | e :: rest => by
    simpa [listPieces, e.lacks] using listPieces_lacks rest

theorem optionPieces_lacks : (item : Option Expr) →
    Lacks statementWords ((optionPieces item).getD [])
  | none => by simp [optionPieces]
  | some e => by simp [optionPieces, e.lacks]

theorem escapePieces_lacks : (item : Option Expr) →
    Lacks statementWords ((escapePieces item).getD [])
  | none => by simp [escapePieces]
  | some e => by simp [escapePieces, e.lacks]

theorem branchPieces_lacks : (branches : List (Expr × Expr)) → Lacks statementWords (branchPieces branches)
  | [] => by simp [branchPieces]
  | (condition, result) :: rest => by
    simp [branchPieces, condition.lacks, result.lacks, branchPieces_lacks rest]

theorem rowListPieces_lacks : (rows : List (List Expr)) →
    ∀ row ∈ rowListPieces rows, ∀ ps ∈ row, Lacks statementWords ps
  | [] => by simp [rowListPieces]
  | row :: rest => by
    rw [rowListPieces, List.forall_mem_cons]
    exact ⟨listPieces_lacks row, rowListPieces_lacks rest⟩

theorem Select.lacks : (q : Select) → Lacks statementWords q.pieces
  | ⟨withClause, body, compounds, orderBy, limit, offset⟩ => by
    simp [Select.pieces, withPieces_lacks withClause, body.lacks, compoundPieces_lacks compounds,
      lacks_orderBy (by simp) (by simp) (termPieces_lacks orderBy), optionPieces_lacks limit,
      optionPieces_lacks offset]

theorem withPieces_lacks : (withClause : Option WithClause) → Lacks statementWords (withPieces withClause)
  | none => by simp [withPieces]
  | some ⟨recursive, tables⟩ => by
    cases recursive <;> simpa [withPieces] using tablePieces_lacks tables

theorem tablePieces_lacks : (tables : List CommonTable) →
    ∀ ps ∈ tablePieces tables, Lacks statementWords ps
  | [] => by simp [tablePieces]
  | ⟨name, columns, materialized, query⟩ :: rest => by
    have words : Lacks statementWords (phrase (materializedWords materialized)) := by
      rw [lacks_phrase]
      rcases materialized with _ | (_ | _) <;> decide
    simpa [tablePieces, query.lacks, words] using tablePieces_lacks rest

theorem SelectBody.lacks : (body : SelectBody) → Lacks statementWords body.pieces
  | .core core => by simp [SelectBody.pieces, core.lacks]
  | .values rows => by simp [SelectBody.pieces, lacks_rows (by simp) (rowListPieces_lacks rows)]

theorem compoundPieces_lacks : (compounds : List (SetOperator × SelectBody)) →
    Lacks statementWords (compoundPieces compounds)
  | [] => by simp [compoundPieces]
  | (op, body) :: rest => by
    have word : Lacks statementWords (Phrase.pieces op) := lacks_choice (by decide) op
    simp [compoundPieces, body.lacks, compoundPieces_lacks rest, word]

theorem SelectCore.lacks : (core : SelectCore) → Lacks statementWords core.pieces
  | ⟨distinct, columns, source, filter, groupBy, having⟩ => by
    have words : Lacks statementWords (phrase (if distinct then ["SELECT", "DISTINCT"] else ["SELECT"])) := by
      cases distinct <;> simp
    have columns : Lacks statementWords (if columns.isEmpty then [.fixed "*"]
        else commaSeparated (columnPieces columns)) := by
      split
      · simp
      · exact (lacks_commaSeparated (by simp)).mpr (columnPieces_lacks columns)
    have groups : Lacks statementWords (if groupBy.isEmpty then []
        else clause ["GROUP", "BY"] (some (commaSeparated (listPieces groupBy)))) := by
      split
      · simp
      · simpa using listPieces_lacks groupBy
    simp only [SelectCore.pieces, lacks_append, lacks_space, words, columns, groups]
    simp [sourcePieces_lacks source, optionPieces_lacks filter, optionPieces_lacks having]

theorem sourcePieces_lacks : (source : Option FromTree) →
    Lacks statementWords ((sourcePieces source).getD [])
  | none => by simp [sourcePieces]
  | some tree => by simp [sourcePieces, tree.lacks]

theorem columnPieces_lacks : (columns : List ResultColumn) →
    ∀ ps ∈ columnPieces columns, Lacks statementWords ps
  | [] => by simp [columnPieces]
  | .star :: rest => by simpa [columnPieces] using columnPieces_lacks rest
  | .tableStar table :: rest => by simpa [columnPieces] using columnPieces_lacks rest
  | .expr value asName :: rest => by
    simpa [columnPieces, value.lacks] using columnPieces_lacks rest

theorem termPieces_lacks : (terms : List OrderingTerm) → ∀ ps ∈ termPieces terms, Lacks statementWords ps
  | [] => by simp [termPieces]
  | ⟨expr, collation, direction, nulls⟩ :: rest => by
    have direction : Lacks statementWords (Phrase.optional direction) :=
      lacks_optional (by decide) direction
    have nulls : Lacks statementWords (Phrase.optional nulls) := lacks_optional (by decide) nulls
    simpa [termPieces, lacks_collated (by simp) expr.lacks, direction, nulls]
      using termPieces_lacks rest

theorem FromTree.lacks : (tree : FromTree) → Lacks statementWords tree.pieces
  | .table reference => by simp [FromTree.pieces]
  | .subquery query asName => by simp [FromTree.pieces, query.lacks]
  | .function name arguments asName => by
    simpa [FromTree.pieces] using listPieces_lacks arguments
  | .join left op right constraint => by
    have right : Lacks statementWords (if right.isJoin then parenthesized right.pieces else right.pieces) := by
      split <;> simp [right.lacks]
    simp [FromTree.pieces, left.lacks, op.lacks, right, constraintPieces_lacks constraint]

theorem constraintPieces_lacks : (constraint : Option JoinConstraint) →
    Lacks statementWords (constraintPieces constraint)
  | none => by simp [constraintPieces]
  | some (.condition condition) => by simp [constraintPieces, condition.lacks]
  | some (.columns names) => by simp [constraintPieces]

end

end SqliteSyntax
