import SqliteSyntax.Proofs.Reading.Extent
import SqliteSyntax.Proofs.Reading.ReadBack

/-! # Table trees as text tells them apart

The text of a table tree is read back with expressions and queries taken as the texts they are: the
first table, then each join operator with one table on its right and a constraint, put together from
the left. A join on the right stands in parentheses, and no query begins as a tree does, so these
parentheses are told from those of a subquery by what follows them. -/
namespace SqliteSyntax
set_option autoImplicit false

/-! ## Trees of texts -/

/-- A table tree in which expressions and queries are their texts. -/
abbrev TreeText : Type := TableTree String String

/-- What the text of a tree tells of it. -/
def FromTree.shown : FromTree → TreeText := shape Expr.sql Select.sql

/-- No comma in the tree is natural. -/
def FromTree.NoNaturalComma : FromTree → Prop
  | .join left op right _ =>
    left.NoNaturalComma ∧ right.NoNaturalComma ∧ (op.natural = true → op.kind ≠ .comma)
  | _ => True

/-! ## Readers -/

/-- A query as the text it is, with the parenthesis that closes behind it. -/
def Reader.queryText : Reader String := fun ps =>
  (closing 0 ps).map fun split => (textOf split.1, split.2)

/-- The table tree that a text is, all of the text. -/
def readTree (text : String) : Option TreeText :=
  match TableTree.read Reader.exprText Reader.queryText (lex text.toList) with
  | some (t, []) => some t
  | _ => none

/-! ## The parts of a tree -/

theorem Reads.queryText (q : Select) (words : ∀ p ∈ q.pieces, p.VerbatimWord)
    (ok : List Piece → Prop) :
    Reads Reader.queryText ok (plainOf q.pieces ++ [.fixed ")"]) q.sql := by
  intro k _
  rw [List.append_assoc, List.singleton_append, Reader.queryText, (q.tidy.closes words).closing k]
  show some (textOf (plainOf q.pieces), k) = _
  rw [q.textOf_plain]

theorem mem_commaSeparated {p : Piece} {part : List Piece} {parts : List (List Piece)}
    (h : part ∈ parts) (hp : p ∈ part) : p ∈ commaSeparated parts := by
  obtain ⟨first, rest, rfl⟩ := List.exists_cons_of_ne_nil (List.ne_nil_of_mem h)
  rw [commaSeparated_cons, List.mem_append, List.mem_flatMap]
  rcases List.mem_cons.mp h with rfl | h
  · exact Or.inl hp
  · exact Or.inr ⟨part, h, List.mem_append_right _ hp⟩

namespace FromTree

/-- While the verbatim words of a tree are words, its expressions and queries are taken as their
texts. -/
theorem taken_of_words : (t : FromTree) → t.NoNaturalComma → (∀ p ∈ t.pieces, p.VerbatimWord) →
    t.Taken Reader.exprText Reader.queryText Expr.sql Select.sql
  | .table _, _, _ => by rw [Taken]; trivial
  | .subquery q asName, _, words => by
    rw [FromTree.pieces] at words
    rw [Taken]
    exact .queryText q (fun p hp => words p (by simp [parenthesized, hp])) _
  | .function name arguments asName, _, words => by
    rw [FromTree.pieces] at words
    rw [Taken]
    intro e he
    refine e.reads_text fun p hp => words p ?_
    have listed : p ∈ commaSeparated (listPieces arguments) := by
      rw [listPieces_eq]
      exact mem_commaSeparated (List.mem_map_of_mem he) hp
    simp [parenthesized, listed]
  | .join left op right constraint, h, words => by
    rw [NoNaturalComma] at h
    obtain ⟨hl, hr, hop⟩ := h
    rw [FromTree.pieces] at words
    rw [Taken]
    refine ⟨taken_of_words left hl fun p hp => words p (by simp [hp]),
      taken_of_words right hr fun p hp => words p ?_, hop, ?_⟩
    · cases right.isJoin <;> simp [parenthesized, hp]
    · rintro e rfl
      exact e.reads_text fun p hp => words p (by simp [constraintPieces, hp])

end FromTree

/-- Reading the text of a table tree takes all of it and gives the tree back, expressions and queries as
their texts. -/
theorem FromTree.readTree_sql (t : FromTree) (commas : t.NoNaturalComma)
    (types : TypesAreWords t.leaves) : readTree t.sql = some t.shown := by
  have words : ∀ p ∈ t.pieces, p.VerbatimWord :=
    verbatimWord_of_leaves (by rwa [t.leavesOf_pieces])
  have text : lex t.sql.toList = plainOf t.pieces := t.tidy.lex_textOf words
  have whole := TableTree.reads (t.taken_of_words commas words) [] .ending
  rw [List.append_nil] at whole
  rw [readTree, text, whole]
  rfl

namespace Sample

/-- Two tables in a row, and a join with a subquery in parentheses on the right of the last operator. -/
def joined : FromTree :=
  .join
    (.join (.table ⟨.unqualified "t", none, some .notIndexed⟩) ⟨false, .left⟩
      (.function (.unqualified "f") [.named "x", .named "y"] none)
      (some (.condition (.between false (.named "p") (.cast (.named "m") "INT") (.named "n")))))
    ⟨true, .inner⟩
    (.join (.subquery (.ofBody (.values [[.named "k"]])) (some "s")) ⟨false, .comma⟩
      (.table (.ofName (.unqualified "u"))) (some (.columns ["c"])))
    none

end Sample

/-- The constraint stays with its own join, and the parentheses are told apart. -/
theorem FromTree.readTree_sql_joined :
    Sample.joined.NoNaturalComma ∧ TypesAreWords Sample.joined.leaves ∧
      Sample.joined.sql = "\"t\" NOT INDEXED LEFT JOIN \"f\"(\"x\", \"y\")" ++
        " ON \"p\" BETWEEN CAST(\"m\" AS INT) AND \"n\"" ++
        " NATURAL INNER JOIN ((VALUES (\"k\")) AS \"s\", \"u\" USING (\"c\"))" ∧
      readTree Sample.joined.sql = some (.join
        (.join (.table ⟨.unqualified "t", none, some .notIndexed⟩) ⟨false, .left⟩
          (.function (.unqualified "f") ["\"x\"", "\"y\""] none)
          (some (.condition "\"p\" BETWEEN CAST(\"m\" AS INT) AND \"n\"")))
        ⟨true, .inner⟩
        (.join (.subquery "VALUES (\"k\")" (some "s")) ⟨false, .comma⟩
          (.table (.ofName (.unqualified "u"))) (some (.columns ["c"]))) none) := by
  have commas : Sample.joined.NoNaturalComma := by
    simp [Sample.joined, NoNaturalComma]
  have types : TypesAreWords Sample.joined.leaves := by
    have contents : Sample.joined.leaves = [.name "t", .name "f", .name "x", .name "y",
      .name "p", .name "m", .verbatim "INT", .name "n", .name "k", .name "s", .name "u",
      .name "c"] := rfl
    intro v hv
    have only : v = "INT" := by simpa [contents] using hv
    rw [only]
    decide
  exact ⟨commas, types, by decide +kernel, readTree_sql Sample.joined commas types⟩

end SqliteSyntax
