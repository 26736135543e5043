import SqliteSyntax.Proofs.Pieces.StatementText
import SqliteSyntax.Proofs.Quotes.Scan
import SqliteSyntax.Proofs.Quotes.StatementBlank
import SqliteSyntax.Proofs.Quotes.StatementLeaves

/-! # Quotes close where they should

The scan of a statement ends outside of quotes, finds exactly the names, texts and byte strings of the
statement, and leaves the same text between them whatever they contain. -/
namespace SqliteSyntax
set_option autoImplicit false

/-- How a content of a statement is quoted: names in double quotes, texts and hexadecimal digits in
single ones. -/
def Leaf.token? : Leaf → Option (Char × List Char)
  | .name content => some ('"', content.toList)
  | .text content => some ('\'', content.toList)
  | .blob bytes => some ('\'', Hex.ofBytes bytes)
  | .verbatim _ => none

/-! ## The marks of a text -/

theorem marksOf_cons (p : Piece) (ps : List Piece) : marksOf (p :: ps) = p.marks ++ marksOf ps :=
  List.flatMap_cons

theorem tokens_plain (cs : List Char) : (cs.map Mark.plain).filterMap Mark.token? = [] := by
  induction cs with
  | nil => rfl
  | cons c rest ih => exact ih

theorem Piece.tokens (p : Piece) :
    p.marks.filterMap Mark.token? = p.leaf?.toList.filterMap Leaf.token? := by
  cases p with
  | name content => rfl
  | text content => rfl
  | blob bytes => rfl
  | space => rfl
  | groupOpen => rfl
  | groupClose => rfl
  | fixed t => exact tokens_plain t.toList
  | numeral t => exact tokens_plain t.toList
  | verbatim t => exact tokens_plain t.toList

theorem leavesOf_cons (p : Piece) (ps : List Piece) :
    leavesOf (p :: ps) = p.leaf?.toList ++ leavesOf ps := by
  cases p <;> rfl

/-- The quoted tokens of a text are its contents, as each is quoted. -/
theorem tokens_marksOf (ps : List Piece) :
    (marksOf ps).filterMap Mark.token? = (leavesOf ps).filterMap Leaf.token? := by
  induction ps with
  | nil => rfl
  | cons p rest ih =>
    rw [marksOf_cons, List.filterMap_append, p.tokens, ih, leavesOf_cons, List.filterMap_append]

theorem blank_plain (cs : List Char) : (cs.map Mark.plain).map Mark.blank = cs.map Mark.plain := by
  rw [List.map_map]
  rfl

theorem Piece.marks_blank (p : Piece) : p.marks.map Mark.blank = p.blank.marks := by
  cases p with
  | name content => rfl
  | text content => rfl
  | blob bytes => rfl
  | space => rfl
  | groupOpen => rfl
  | groupClose => rfl
  | fixed t => exact blank_plain t.toList
  | numeral t => exact blank_plain t.toList
  | verbatim t => exact blank_plain t.toList

/-- Emptying the quoted tokens of a text leaves the marks of the text with its contents emptied. -/
theorem marks_blankText (ps : List Piece) :
    (marksOf ps).map Mark.blank = marksOf (blankText ps) := by
  induction ps with
  | nil => rfl
  | cons p rest ih =>
    rw [marksOf_cons, List.map_append, p.marks_blank, ih, blankText_cons, marksOf_cons]

theorem verbatim_mem_iff (v : String) (ps : List Piece) :
    Piece.verbatim v ∈ ps ↔ Leaf.verbatim v ∈ leavesOf ps := by
  rw [leavesOf, List.mem_filterMap]
  constructor
  · intro h
    exact ⟨_, h, rfl⟩
  · rintro ⟨p, hp, shown⟩
    cases p <;> simp_all [Piece.leaf?]

theorem verbatim_mem_blankText (v : String) (ps : List Piece) :
    Piece.verbatim v ∈ blankText ps ↔ Piece.verbatim v ∈ ps := by
  rw [blankText, List.mem_map]
  constructor
  · rintro ⟨p, hp, hv⟩
    cases p <;> simp_all [Piece.blank]
  · intro h
    exact ⟨_, h, rfl⟩

/-! ## The scan of a statement -/

/-- No text that the statement gives as it stands has a quote in it. -/
def Statement.VerbatimQuoteFree (s : Statement) : Prop :=
  ∀ v, Leaf.verbatim v ∈ s.leaves → QuoteFree v.toList

theorem Statement.scan_sql {s : Statement} (free : s.VerbatimQuoteFree) :
    scan .outside s.sql.toList = some (marksOf s.pieces) := by
  have own := s.tidy.quotesOwn fun v hv => free v (by
    rw [← s.leavesOf_pieces]
    exact (verbatim_mem_iff v _).mp hv)
  have scanned := s.tidy.scans own .nil
  unfold Scans at scanned
  rw [List.append_nil] at scanned
  rw [Statement.sql, textOf, String.toList_ofList, scanned, scan, Option.map_some, List.append_nil]

/-- Whether a statement brings in quotes does not depend on its quoted contents. -/
theorem Statement.verbatimQuoteFree_of_blank {s t : Statement} (same : t.blank = s.blank)
    (free : s.VerbatimQuoteFree) : t.VerbatimQuoteFree := by
  intro v hv
  refine free v ?_
  rw [← leavesOf_pieces, ← verbatim_mem_iff, ← verbatim_mem_blankText, pieces_blank] at hv ⊢
  rw [← same]
  exact hv

/-- Every quote closes, the quoted tokens are the contents of the statement in the order in which it
is written, and what stands outside of quotes does not depend on them. -/
theorem Statement.quotes_close (s : Statement) (free : s.VerbatimQuoteFree) :
    ∃ marks, scan .outside s.sql.toList = some marks ∧
      marks.filterMap Mark.token? = s.leaves.filterMap Leaf.token? ∧
      ∀ t : Statement, t.blank = s.blank → ∃ others,
        scan .outside t.sql.toList = some others ∧
        others.map Mark.blank = marks.map Mark.blank := by
  refine ⟨_, s.scan_sql free, ?_, fun t same => ⟨_, t.scan_sql ?_, ?_⟩⟩
  · rw [tokens_marksOf, s.leavesOf_pieces]
  · exact verbatimQuoteFree_of_blank same free
  · rw [marks_blankText, marks_blankText, pieces_blank, pieces_blank, same]

/-- Contents that are made of quotes, comment marks and semicolons, or of nothing at all, stay where
they are. -/
theorem Statement.quotes_close_around_hostile :
    let query (column asName text : String) (bytes : List UInt8) : Statement :=
      .select (.ofBody (.core (.ofColumns false
        [.expr (.binary .concat (.named column) (.cast (.literal (.text text)) "VARCHAR(9)"))
          (some asName), .expr (.literal (.blob bytes)) none])))
    let hostile := query "a\"b" "" "'; DROP TABLE t; --" [0x27, 0xFF]
    hostile.VerbatimQuoteFree ∧
      ∃ marks, scan .outside hostile.sql.toList = some marks ∧
        marks.filterMap Mark.token? =
          [('"', "a\"b".toList), ('\'', "'; DROP TABLE t; --".toList), ('"', []),
            ('\'', "27FF".toList)] ∧
        ∃ others, scan .outside (query "c" "d" "e" []).sql.toList = some others ∧
          others.map Mark.blank = marks.map Mark.blank := by
  intro query hostile
  have contents : hostile.leaves = [.name "a\"b", .text "'; DROP TABLE t; --",
      .verbatim "VARCHAR(9)", .name "", .blob [0x27, 0xFF]] := rfl
  have free : hostile.VerbatimQuoteFree := by
    intro v hv
    have only : v = "VARCHAR(9)" := by simpa [contents] using hv
    rw [only]
    decide
  obtain ⟨marks, scanned, tokens, others⟩ := quotes_close hostile free
  exact ⟨free, marks, scanned, tokens, others (query "c" "d" "e" []) rfl⟩

end SqliteSyntax
