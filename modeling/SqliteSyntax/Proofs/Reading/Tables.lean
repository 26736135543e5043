import SqliteSyntax.Proofs.Reading.Expressions
import SqliteSyntax.Proofs.Reading.Words

/-! # Table trees are read back

The reader of table trees leaves expressions, and queries in parentheses, to other readers, and gives a
tree of what these give (`TableTree`). Joins nest to the left, so the text of a tree is its first table
and one further table after each join operator (`FromTree.pieces_eq`), and the tree is put together
again from the left (`FromTree.shape_eq`). A join on the right stands in parentheses; the reader goes
into them at most as often as it is told to.

What holds for all readers of the parts (`TableTree.reads`) is used for expressions and queries here
(`FromTree.reads`) and for their texts elsewhere. -/
namespace SqliteSyntax
set_option autoImplicit false

variable {E Q : Type}

/-! ## Trees of any parts -/

/-- What ties the two sides of a join together, with any conditions. -/
inductive JoinTerm (E : Type) where
  | condition (condition : E)
  | columns (names : List String)
deriving DecidableEq

/-- A table tree with any expressions and queries. -/
inductive TableTree (E Q : Type) where
  | table (reference : TableRef)
  | subquery (query : Q) (asName : Option String)
  | function (name : QualifiedName) (arguments : List E) (asName : Option String)
  | join (left : TableTree E Q) (op : JoinOperator) (right : TableTree E Q)
      (constraint : Option (JoinTerm E))
deriving DecidableEq

def JoinConstraint.shape (f : Expr → E) : JoinConstraint → JoinTerm E
  | .condition e => .condition (f e)
  | .columns names => .columns names

/-- The tree with something in place of each expression and each query. -/
def FromTree.shape (f : Expr → E) (g : Select → Q) : FromTree → TableTree E Q
  | .table reference => .table reference
  | .subquery query asName => .subquery (g query) asName
  | .function name arguments asName => .function name (arguments.map f) asName
  | .join left op right constraint =>
    .join (left.shape f g) op (right.shape f g) (constraint.map (JoinConstraint.shape f))

def JoinTerm.constraint : JoinTerm Expr → JoinConstraint
  | .condition e => .condition e
  | .columns names => .columns names

def TableTree.fromTree : TableTree Expr Select → FromTree
  | .table reference => .table reference
  | .subquery query asName => .subquery query asName
  | .function name arguments asName => .function name arguments asName
  | .join left op right constraint =>
    .join left.fromTree op right.fromTree (constraint.map JoinTerm.constraint)

theorem canonicalConstraint_eq (constraint : Option JoinConstraint) :
    canonicalConstraint constraint =
      (constraint.map (JoinConstraint.shape Expr.canonical)).map JoinTerm.constraint := by
  rcases constraint with _ | (condition | names) <;> rw [canonicalConstraint] <;> rfl

theorem FromTree.canonical_eq : (t : FromTree) →
    t.canonical = (t.shape Expr.canonical Select.canonical).fromTree
  | .join left op right constraint => by
    rw [FromTree.canonical, shape, TableTree.fromTree, canonical_eq left, canonical_eq right,
      canonicalConstraint_eq]
  | .table _ => by rw [FromTree.canonical, shape, TableTree.fromTree]
  | .subquery .. => by rw [FromTree.canonical, shape, TableTree.fromTree]
  | .function .. => by rw [FromTree.canonical, shape, TableTree.fromTree, canonicalList_eq]

/-! ## What follows the parts of a tree -/

/-- What may follow a tree. -/
def treeEnds : List String :=
  [")", ";", "WHERE", "GROUP", "HAVING", "UNION", "INTERSECT", "EXCEPT", "ORDER", "LIMIT", "OFFSET",
    "RETURNING"]

/-- What may follow a table and the constraint of its join. -/
def joinEnds : List String :=
  [",", "NATURAL", "JOIN", "INNER", "CROSS", "LEFT", "RIGHT", "FULL"] ++ treeEnds

/-- What may follow a table. -/
def tableEnds : List String := "ON" :: "USING" :: joinEnds

/-! ## Readers -/

def JoinOperator.read : Reader JoinOperator := fun ps =>
  match after [.fixed ",", .space] ps with
  | some rest => some (⟨false, .comma⟩, rest)
  | none => (do
      Reader.fixed [.space]
      let natural ← Reader.flag [.fixed "NATURAL", .space]
      let kind ← Reader.choose JoinKind
      Reader.fixed [.space]
      return ⟨natural, kind⟩ : Reader JoinOperator) ps

section Readers
variable (expr : Reader E) (query : Reader Q)

def JoinTerm.read : Reader (Option (JoinTerm E)) := do
  let condition ← Reader.optionally (lead ["ON"]) expr
  let names ← Reader.optionally (lead ["USING"]) (Reader.bracketed (Reader.items Reader.name))
  return (condition.map .condition).or (names.map .columns)

namespace TableTree

/-- A table function if a parenthesis opens directly after the name, else a table. -/
def readNamed (name : QualifiedName) : Reader (TableTree E Q) := fun ps =>
  match after [.fixed "("] ps with
  | some _ => (do
      let arguments ← Reader.bracketed (Reader.items expr)
      let asName ← Reader.asName
      return .function name arguments asName : Reader (TableTree E Q)) ps
  | none => (do
      let asName ← Reader.asName
      let hint ← IndexHint.read
      return .table ⟨name, asName, hint⟩ : Reader (TableTree E Q)) ps

/-- A table, a query in parentheses, or a tree in parentheses, which is left to another reader. The
reader of queries takes the parenthesis that closes, too. -/
def readSource (tree : Reader (TableTree E Q)) : Reader (TableTree E Q) := fun ps =>
  match after [.fixed "("] ps with
  | some rest =>
    if beginsQuery rest then (do
      let q ← query
      let asName ← Reader.asName
      return .subquery q asName : Reader (TableTree E Q)) rest
    else Reader.closed tree rest
  | none => (QualifiedName.read >>= readNamed expr) ps

/-- A join operator, the table on its right, and the constraint. -/
def readJoin (tree : Reader (TableTree E Q)) :
    Reader (JoinOperator × TableTree E Q × Option (JoinTerm E)) := do
  let op ← JoinOperator.read
  let right ← readSource expr query tree
  let constraint ← JoinTerm.read expr
  return (op, right, constraint)

/-- The tree with one more table on the right. -/
def attach (left : TableTree E Q) (join : JoinOperator × TableTree E Q × Option (JoinTerm E)) :
    TableTree E Q :=
  .join left join.1 join.2.1 join.2.2

/-- A tree with parentheses nested at most so deep. -/
def readUpTo : Nat → Reader (TableTree E Q)
  | 0 => fun _ => none
  | n + 1 => do
    let first ← readSource expr query (readUpTo n)
    let joins ← Reader.many (readJoin expr query (readUpTo n))
    return joins.foldl attach first

def read : Reader (TableTree E Q) := fun ps => readUpTo expr query (ps.length + 1) ps

end TableTree
end Readers

def FromTree.read (query : Reader Select) : Reader FromTree :=
  TableTree.fromTree <$> TableTree.read (Expr.read query) (Reader.closed query)

/-! ## Joins in a row -/

namespace FromTree

/-- The leftmost table. -/
def first : FromTree → FromTree
  | .join left _ _ _ => left.first
  | tree => tree

/-- What is joined to the leftmost table, from left to right. -/
def joins : FromTree → List (JoinOperator × FromTree × Option JoinConstraint)
  | .join left op right constraint => left.joins ++ [(op, right, constraint)]
  | _ => []

/-- The text of a table on the right of a join. -/
def rightPieces (right : FromTree) : List Piece :=
  if right.isJoin then parenthesized right.pieces else right.pieces

/-- The text of a join after its left side. -/
def joinPieces (join : JoinOperator × FromTree × Option JoinConstraint) : List Piece :=
  join.1.pieces ++ rightPieces join.2.1 ++ constraintPieces join.2.2

theorem pieces_eq : (t : FromTree) → t.pieces = t.first.pieces ++ t.joins.flatMap joinPieces
  | .join left op right constraint => by
    rw [FromTree.pieces, pieces_eq left, first, joins, List.flatMap_append, List.flatMap_singleton,
      joinPieces, rightPieces]
    simp only [List.append_assoc]
  | .table _ => (List.append_nil _).symm
  | .subquery .. => (List.append_nil _).symm
  | .function .. => (List.append_nil _).symm

/-- What is joined, with something in place of each expression and each query. -/
def shapeJoin (f : Expr → E) (g : Select → Q)
    (join : JoinOperator × FromTree × Option JoinConstraint) :
    JoinOperator × TableTree E Q × Option (JoinTerm E) :=
  (join.1, join.2.1.shape f g, join.2.2.map (JoinConstraint.shape f))

theorem shape_eq (f : Expr → E) (g : Select → Q) : (t : FromTree) →
    t.shape f g = (t.joins.map (shapeJoin f g)).foldl TableTree.attach (t.first.shape f g)
  | .join left op right constraint => by
    rw [shape, shape_eq f g left, first, joins, List.map_append, List.foldl_append]
    rfl
  | .table _ => rfl
  | .subquery .. => rfl
  | .function .. => rfl

theorem first_of_not_isJoin {t : FromTree} (h : t.isJoin = false) : t.first = t := by
  cases t with
  | join left op right constraint => exact Bool.noConfusion h
  | _ => rfl

/-- A tree begins with a name or a parenthesis. -/
theorem begins : (t : FromTree) → ∀ k, beginsQuery (plainOf t.pieces ++ k) = false
  | .join left op right constraint, k => by
    rw [FromTree.pieces]
    simp only [plainOf_append, List.append_assoc]
    exact begins left _
  | .table reference, k => by
    obtain ⟨⟨schema, name⟩, asName, hint⟩ := reference
    cases schema <;> rfl
  | .subquery .., k => rfl
  | .function name arguments asName, k => by
    obtain ⟨schema, name⟩ := name
    rw [FromTree.pieces]
    cases schema <;> rfl

end FromTree

/-! ## The parts of a join -/

theorem joinEnds_subset : joinEnds ⊆ exprEnds := by decide

theorem JoinOperator.reads (op : JoinOperator) (h : op.natural = true → op.kind ≠ .comma)
    (ok : List Piece → Prop) : Reads JoinOperator.read ok op.pieces op := by
  intro k _
  obtain ⟨natural, kind⟩ := op
  cases natural with
  | false => cases kind <;> rfl
  | true =>
    cases kind with
    | comma => exact absurd rfl (h rfl)
    | _ => rfl

theorem JoinOperator.begins (op : JoinOperator) (k : List Piece) :
    Begins joinEnds (op.pieces ++ k) := by
  obtain ⟨natural, kind⟩ := op
  cases natural <;> cases kind <;> first | exact .mark (by decide) _ | exact .word (by decide) _

theorem JoinOperator.read_eq_none {k : List Piece} (h : Begins treeEnds k) :
    JoinOperator.read k = none := by
  have comma : after [.fixed ",", .space] k = none := h.after_mark (by decide) _
  rw [JoinOperator.read, comma]
  cases h with
  | ending => rfl
  | mark _ rest => rfl
  | @word word hw rest =>
    have kinds : ∀ w ∈ treeEnds, w ≠ "NATURAL" ∧ ∀ first ∈ Phrase.starts JoinKind, first ≠ w := by
      decide
    have natural : after [.fixed "NATURAL", .space] (.fixed word :: rest) = none :=
      after_ne (fun same => (kinds word hw).1 (Piece.fixed.inj same).symm) _ rest
    have kind : Reader.choose JoinKind (.fixed word :: rest) = none :=
      Reader.choose_eq_none JoinKind.distinct.nonempty (.word hw rest)
        fun first hf hmem => (kinds first hmem).2 first hf rfl
    show ((Reader.flag [.fixed "NATURAL", .space] (.fixed word :: rest)).bind fun r =>
      (Reader.choose JoinKind r.2).bind _) = none
    rw [Reader.flag, natural]
    show (Reader.choose JoinKind (.fixed word :: rest)).bind _ = none
    rw [kind]
    rfl

namespace FromTree

theorem plainOf_joinPieces (join : JoinOperator × FromTree × Option JoinConstraint) :
    plainOf (joinPieces join) =
      join.1.pieces ++ (plainOf (rightPieces join.2.1) ++ plainOf (constraintPieces join.2.2)) := by
  rw [joinPieces, plainOf_append, plainOf_append, plainOf_joinOperator, List.append_assoc]

theorem begins_join (join : JoinOperator × FromTree × Option JoinConstraint) (k : List Piece) :
    Begins joinEnds (plainOf (joinPieces join) ++ k) := by
  rw [plainOf_joinPieces, List.append_assoc]
  exact join.1.begins _

end FromTree

section Parts
variable {expr : Reader E} {query : Reader Q} {f : Expr → E} {g : Select → Q}

theorem JoinTerm.reads {constraint : Option JoinConstraint}
    (h : ∀ e, constraint = some (.condition e) →
      Reads expr (Begins joinEnds) (plainOf e.bare) (f e)) :
    Reads (JoinTerm.read expr) (Begins joinEnds) (plainOf (constraintPieces constraint))
      (constraint.map (JoinConstraint.shape f)) := by
  have noCondition : Reads (Reader.optionally (lead ["ON"]) expr) (Begins ("USING" :: joinEnds)) []
      none :=
    fun k hk => Reader.optionally_none (hk.after_lead (by decide) [])
  have noColumns : Reads (Reader.optionally (lead ["USING"])
      (Reader.bracketed (Reader.items Reader.name))) (Begins joinEnds) [] none :=
    fun k hk => Reader.optionally_none (hk.after_lead (by decide) [])
  match constraint with
  | none =>
    exact .bind noCondition (fun k hk => hk.mono (List.subset_cons_self ..)) (noColumns.last _)
  | some (.condition e) =>
    have text : plainOf (constraintPieces (some (.condition e))) =
        (lead ["ON"] ++ plainOf e.bare) ++ [] := by
      rw [constraintPieces, List.append_nil]
      rfl
    rw [text]
    exact .bind ((h e rfl).optionally (lead ["ON"])) (fun k hk => hk) (noColumns.last _)
  | some (.columns names) =>
    have text : plainOf (constraintPieces (some (.columns names))) =
        [] ++ (lead ["USING"] ++ nameList names) := by
      rw [constraintPieces]
      simp only [plainOf_space, plainOf_fixed, plainOf_nameList]
      rfl
    have list : Reads (Reader.bracketed (Reader.items Reader.name)) (Begins joinEnds)
        (nameList names) (names.map id) :=
      .items (fun n _ => .name n _) (fun n _ k => rfl) _
    rw [List.map_id] at list
    rw [text]
    exact .bind noCondition (fun k _ => .word (List.mem_cons_self ..) _)
      ((list.optionally (lead ["USING"])).last _)

/-! ## Single tables -/

theorem QualifiedName.after_open (n : QualifiedName) (k : List Piece) :
    after [.fixed "("] (n.pieces ++ k) = none := by
  obtain ⟨schema, name⟩ := n
  cases schema <;> rfl

/-- The text after the parenthesis that opens in front of other text. -/
theorem after_parenthesized (ps k : List Piece) :
    after [.fixed "("] (parenthesized ps ++ k) = some (ps ++ [.fixed ")"] ++ k) := by
  simp [parenthesized, after]

namespace TableTree

theorem reads_table (tree : Reader (TableTree E Q)) (t : TableRef) :
    Reads (readSource expr query tree) (Begins tableEnds) t.pieces (.table t) := by
  have begins (k : List Piece) (hk : Begins tableEnds k) : Begins
      ("AS" :: "INDEXED" :: "NOT" :: tableEnds)
      (asClause t.asName ++ spaced (t.hint.map IndexHint.pieces) ++ k) := by
    rw [List.append_assoc]
    exact (hk.hint t.hint).clause "AS" [] _
  have named : Reads (readNamed (Q := Q) expr t.name) (Begins tableEnds)
      (asClause t.asName ++ spaced (t.hint.map IndexHint.pieces)) (.table t) := by
    intro k hk
    have opening := (begins k hk).after_mark (by decide : "(" ∉ _) []
    rw [readNamed, opening]
    exact Reads.bind (.asName (by decide) t.asName) (fun k hk => hk.hint t.hint)
      ((IndexHint.reads (by decide) (by decide) t.hint).last _) k hk
  intro k hk
  have opening : after [.fixed "("] (t.pieces ++ k) = none := by
    rw [TableRef.pieces, List.append_assoc, List.append_assoc]
    exact t.name.after_open _
  rw [readSource, opening, TableRef.pieces, List.append_assoc t.name.pieces]
  exact Reads.bind (t.name.reads (by decide)) begins named k hk

theorem reads_function (tree : Reader (TableTree E Q)) (name : QualifiedName)
    {arguments : List Expr} (asName : Option String)
    (h : ∀ e ∈ arguments, Reads expr (Begins joinEnds) (plainOf e.bare) (f e)) :
    Reads (readSource expr query tree) (Begins tableEnds)
      (plainOf (FromTree.function name arguments asName).pieces)
      (.function name (arguments.map f) asName) := by
  have items : Reads (Reader.bracketed (Reader.items expr)) (fun _ => True)
      (plainOf (parenthesized (commaSeparated (listPieces arguments)))) (arguments.map f) := by
    rw [plainOf_parenthesized, plainOf_list]
    exact .items (fun e he => (h e he).weaken fun k hk => hk.mono (by decide))
      (fun e _ => e.after_mark (by decide) []) _
  have named : Reads (readNamed (Q := Q) expr name) (Begins tableEnds)
      (plainOf (parenthesized (commaSeparated (listPieces arguments))) ++ asClause asName)
      (.function name (arguments.map f) asName) :=
    .bind items (fun _ _ => trivial) ((Reads.asName (by decide) asName).last _)
  have text : plainOf (FromTree.function name arguments asName).pieces = name.pieces ++
      (plainOf (parenthesized (commaSeparated (listPieces arguments))) ++ asClause asName) := by
    rw [FromTree.pieces, plainOf_append, plainOf_append, plainOf_qualifiedName, plainOf_asClause,
      List.append_assoc]
  intro k hk
  have opening : after [.fixed "("]
      (plainOf (FromTree.function name arguments asName).pieces ++ k) = none := by
    rw [text, List.append_assoc]
    exact name.after_open _
  rw [readSource, opening, text]
  refine Reads.bind (name.reads (by decide : "." ∉ ["("])) (fun k _ => ?_) named k hk
  rw [plainOf_parenthesized]
  exact .mark (List.mem_singleton.mpr rfl) _

theorem reads_subquery (tree : Reader (TableTree E Q)) {q : Select} (asName : Option String)
    (h : Reads query (fun _ => True) (plainOf q.pieces ++ [.fixed ")"]) (g q)) :
    Reads (readSource expr query tree) (Begins tableEnds)
      (plainOf (FromTree.subquery q asName).pieces) (.subquery (g q) asName) := by
  have text : plainOf (FromTree.subquery q asName).pieces =
      parenthesized (plainOf q.pieces) ++ asClause asName := by
    rw [FromTree.pieces, plainOf_append, plainOf_parenthesized, plainOf_asClause]
  intro k hk
  have begins : beginsQuery (plainOf q.pieces ++ [.fixed ")"] ++ (asClause asName ++ k)) = true := by
    rw [List.append_assoc]
    exact q.begins _
  rw [readSource, text, List.append_assoc, after_parenthesized]
  simp only [begins, if_true]
  rw [← List.append_assoc]
  exact Reads.bind h (fun _ _ => trivial) ((Reads.asName (by decide) asName).last _) k hk

/-- A join in parentheses is left to the reader of trees. -/
theorem reads_parenthesized {tree : Reader (TableTree E Q)} {t : FromTree} {t' : TableTree E Q}
    (h : Reads tree (Begins treeEnds) (plainOf t.pieces) t') (ok : List Piece → Prop) :
    Reads (readSource expr query tree) ok (parenthesized (plainOf t.pieces)) t' := by
  intro k hk
  have begins : beginsQuery (plainOf t.pieces ++ [.fixed ")"] ++ k) = false := by
    rw [List.append_assoc]
    exact t.begins _
  rw [readSource, after_parenthesized]
  simp only [begins, if_false, Bool.false_eq_true]
  exact h.closed (fun k => .mark (by decide) k) ok k hk

end TableTree
end Parts

/-! ## Whole trees -/

section Trees
variable (expr : Reader E) (query : Reader Q) (f : Expr → E) (g : Select → Q)

/-- In the tree no comma is natural; one reader takes each of its expressions, before what may follow
it, and the other each query with the parenthesis that closes behind it. -/
def FromTree.Taken : FromTree → Prop
  | .table _ => True
  | .subquery q _ => Reads query (fun _ => True) (plainOf q.pieces ++ [.fixed ")"]) (g q)
  | .function _ arguments _ =>
    ∀ e ∈ arguments, Reads expr (Begins joinEnds) (plainOf e.bare) (f e)
  | .join left op right constraint =>
    left.Taken ∧ right.Taken ∧ (op.natural = true → op.kind ≠ .comma) ∧
      ∀ e, constraint = some (.condition e) → Reads expr (Begins joinEnds) (plainOf e.bare) (f e)

namespace TableTree

/-- The first table and each join of a tree are read. -/
structure PartsRead (tree : Reader (TableTree E Q)) (t : FromTree) : Prop where
  first : Reads (readSource expr query tree) (Begins tableEnds) (plainOf t.first.pieces)
    (t.first.shape f g)
  joins : ∀ join ∈ t.joins, Reads (readJoin expr query tree) (Begins joinEnds)
    (plainOf (FromTree.joinPieces join)) (FromTree.shapeJoin f g join)

variable {expr query f g}

theorem PartsRead.whole {n : Nat} {t : FromTree}
    (h : PartsRead expr query f g (readUpTo expr query n) t) :
    Reads (readUpTo expr query (n + 1)) (Begins treeEnds) (plainOf t.pieces) (t.shape f g) := by
  have stop (k : List Piece) (hk : Begins treeEnds k) :
      readJoin expr query (readUpTo expr query n) k = none := by
    show (JoinOperator.read k).bind _ = none
    rw [JoinOperator.read_eq_none hk, Option.bind_none]
  have joins : Reads (Reader.many (readJoin expr query (readUpTo expr query n))) (Begins treeEnds)
      (t.joins.flatMap fun join => plainOf (FromTree.joinPieces join))
      (t.joins.map (FromTree.shapeJoin f g)) := by
    refine .many h.joins (fun join _ heq => ?_) (fun join _ => FromTree.begins_join join)
      (fun k hk => hk.mono (by decide)) stop
    have begins := FromTree.begins_join join [.fixed "AS"]
    rw [heq] at begins
    cases begins with
    | mark hw _ => exact absurd hw (by decide)
  have goesOn (k : List Piece) (hk : Begins treeEnds k) : Begins tableEnds
      ((t.joins.flatMap fun join => plainOf (FromTree.joinPieces join)) ++ k) := by
    cases t.joins with
    | nil => exact hk.mono (by decide)
    | cons join rest =>
      rw [List.flatMap_cons, List.append_assoc]
      exact (FromTree.begins_join join _).mono (by decide)
  have text : plainOf t.pieces =
      plainOf t.first.pieces ++ t.joins.flatMap fun join => plainOf (FromTree.joinPieces join) := by
    rw [t.pieces_eq, plainOf_append, plainOf_flatMap]
  rw [text, t.shape_eq]
  exact .bind h.first goesOn (joins.last fun joins => joins.foldl attach (t.first.shape f g))

theorem partsRead : (t : FromTree) → t.Taken expr query f g → ∀ n,
    (plainOf t.pieces).length ≤ n → PartsRead expr query f g (readUpTo expr query n) t
  | .join left op right constraint, h, n, hn => by
    rw [FromTree.Taken] at h
    obtain ⟨hl, hr, hop, hc⟩ := h
    have text : (plainOf (FromTree.join left op right constraint).pieces).length =
        (plainOf left.pieces).length +
          (plainOf (FromTree.joinPieces (op, right, constraint))).length := by
      rw [FromTree.pieces, FromTree.joinPieces, FromTree.rightPieces]
      simp only [plainOf_append, List.length_append]
      omega
    rw [FromTree.plainOf_joinPieces] at text
    simp only [List.length_append] at text
    have inLeft := partsRead left hl n (by omega)
    have source : Reads (readSource expr query (readUpTo expr query n)) (Begins tableEnds)
        (plainOf (FromTree.rightPieces right)) (right.shape f g) := by
      cases hj : right.isJoin with
      | true =>
        rw [FromTree.rightPieces, if_pos hj, plainOf_parenthesized] at text ⊢
        simp only [parenthesized, List.length_append, List.length_cons, List.length_nil] at text
        obtain ⟨m, rfl⟩ : ∃ m, n = m + 1 := ⟨n - 1, by omega⟩
        exact reads_parenthesized (partsRead right hr m (by omega)).whole _
      | false =>
        rw [FromTree.rightPieces, hj, if_neg Bool.false_ne_true] at text ⊢
        have inRight := (partsRead right hr n (by omega)).first
        rwa [FromTree.first_of_not_isJoin hj] at inRight
    refine ⟨inLeft.first, fun j hj => ?_⟩
    rw [FromTree.joins, List.mem_append, List.mem_singleton] at hj
    rcases hj with hj | rfl
    · exact inLeft.joins j hj
    · rw [FromTree.plainOf_joinPieces]
      refine .bind (op.reads hop fun _ => True) (fun _ _ => trivial)
        (.bind source (fun k hk => ?_) ((JoinTerm.reads hc).last _))
      cases constraint with
      | none => exact hk.mono (by decide)
      | some constraint => cases constraint <;> exact .word (by decide) _
  | .table reference, _, n, _ => by
    refine ⟨?_, fun j hj => absurd hj List.not_mem_nil⟩
    have text : plainOf (FromTree.table reference).pieces = reference.pieces := by
      rw [FromTree.pieces, plainOf_tableRef]
    show Reads _ _ (plainOf (FromTree.table reference).pieces) (TableTree.table reference)
    rw [text]
    exact reads_table _ reference
  | .subquery q asName, h, n, _ => by
    rw [FromTree.Taken] at h
    exact ⟨reads_subquery _ asName h, fun j hj => absurd hj List.not_mem_nil⟩
  | .function name arguments asName, h, n, _ => by
    rw [FromTree.Taken] at h
    exact ⟨reads_function _ name asName h, fun j hj => absurd hj List.not_mem_nil⟩

/-- The text of a tree is read as the tree with what the other readers give in its places. -/
theorem reads {t : FromTree} (h : t.Taken expr query f g) :
    Reads (TableTree.read expr query) (Begins treeEnds) (plainOf t.pieces) (t.shape f g) := by
  intro k hk
  exact (partsRead t h _ (by rw [List.length_append]; omega)).whole k hk

end TableTree
end Trees

/-! ## Trees of expressions -/

/-- In the tree, outside of its queries, expressions can be read and no comma is natural; and its queries
have a property. -/
def FromTree.Readable (P : Select → Prop) : FromTree → Prop
  | .table _ => True
  | .subquery query _ => P query
  | .function _ arguments _ => ∀ e ∈ arguments, e.Readable P
  | .join left op right constraint =>
    left.Readable P ∧ right.Readable P ∧ (op.natural = true → op.kind ≠ .comma) ∧
      ∀ e, constraint = some (.condition e) → e.Readable P

namespace FromTree
variable {query : Reader Select}

theorem taken_of_readable : (t : FromTree) → t.Readable (Select.IsRead query) →
    t.Taken (Expr.read query) (Reader.closed query) Expr.canonical Select.canonical
  | .table _, _ => by rw [Taken]; trivial
  | .subquery q _, h => by
    rw [Readable] at h
    rw [Taken]
    exact h.reads.closed (fun k => .mark (by decide) k) _
  | .function _ arguments _, h => by
    rw [Readable] at h
    rw [Taken]
    exact fun e he => (Expr.reads (h e he)).weaken fun k hk => hk.mono joinEnds_subset
  | .join left op right constraint, h => by
    rw [Readable] at h
    obtain ⟨hl, hr, hop, hc⟩ := h
    rw [Taken]
    exact ⟨taken_of_readable left hl, taken_of_readable right hr, hop,
      fun e he => (Expr.reads (hc e he)).weaken fun k hk => hk.mono joinEnds_subset⟩

/-- The text of a tree is read as its canonical form. -/
theorem reads {t : FromTree} (h : t.Readable (Select.IsRead query)) :
    Reads (FromTree.read query) (Begins treeEnds) (plainOf t.pieces) t.canonical := by
  rw [t.canonical_eq]
  exact (TableTree.reads (t.taken_of_readable h)).map TableTree.fromTree

end FromTree

end SqliteSyntax
