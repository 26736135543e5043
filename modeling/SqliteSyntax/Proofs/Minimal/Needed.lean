import SqliteSyntax.Proofs.Minimal.Asked
import SqliteSyntax.Proofs.Minimal.Charted
import SqliteSyntax.Proofs.Minimal.Ungrouped
import SqliteSyntax.Proofs.Reading.ReadBack

/-! # Precedence puts no parentheses in vain

Without any one pair of the parentheses that precedence put into it, the text of an expression is
not read as the expression (`Expr.parentheses_needed`). What is read as the expression has
parentheses where its term asks for them. The text without the pair has the same ink but, at the
place of the pair, no parentheses that hold the same ink; or the query that had the pair inside is
another text. -/
namespace SqliteSyntax
set_option autoImplicit false

/-! ## Reading at any depth -/

/-- The grammar of the tiers takes the whole text for the term, with the recursion bounded by some
depth. -/
def TakenFor (text : String) (x : Term String) : Prop :=
  ∃ depth, readAt queryText depth .lowest (lex text.toList) = some (x, [])

theorem firstPiece_ne_group (c : Char) (rest : List Char) :
    (firstPiece c rest).1 ≠ .groupOpen ∧ (firstPiece c rest).1 ≠ .groupClose := by
  unfold firstPiece
  repeat' split
  all_goals exact ⟨Piece.noConfusion, Piece.noConfusion⟩

/-- A lexer tells no parenthesis of precedence from another. -/
theorem lexed_lex (cs : List Char) : Lexed (lex cs) := by
  induction cs using lex.induct with
  | case1 =>
    intro p hp
    exact absurd hp (by simp [lex])
  | case2 c rest ih =>
    rw [lex]
    exact List.forall_mem_cons.mpr ⟨firstPiece_ne_group c rest, ih⟩

/-- What is read as the term has the parentheses that the term asks for. -/
theorem TakenFor.charts {text : String} {x : Term String} (h : TakenFor text x)
    (types : ∀ t ∈ x.cover.types, isWord t = true) : x.cover.Charts (lex text.toList) := by
  obtain ⟨depth, whole⟩ := h
  exact covers_of_readAt whole types (lexed_lex _)

/-! ## Places and counts -/

/-- A text that begins with ink has an outline that begins with it. -/
theorem outlineOf_begins {ps : List Piece} {c : Char} {rest : List Char}
    (h : charsOf ps = c :: rest) (hc : isInk c = true) :
    ∃ tail, outlineOf ps = .solid c :: tail := by
  induction ps with
  | nil => exact absurd h (by simp)
  | cons p ps ih =>
    rw [charsOf_cons] at h
    rcases p.outline_cases with ⟨chars, -⟩ | ⟨chars, -⟩ | rfl | outline
    · rw [chars] at h
      cases h
      exact absurd hc (by decide)
    · rw [chars] at h
      cases h
      exact absurd hc (by decide)
    · cases h
      exact absurd hc (by decide)
    · rw [outlineOf_cons, outline]
      cases chars : p.chars with
      | nil =>
        rw [chars] at h
        exact ih h
      | cons d ds =>
        rw [chars] at h
        cases h
        exact ⟨_, rfl⟩

/-- A parenthesis with ink behind it is at the place that the ink before it tells. -/
theorem place_unique {x y s t : List Mark} {p q : Mark} (hp : p.isInk = true) (hq : q.isInk = true)
    (h : x ++ .plain '(' :: p :: y = s ++ .plain '(' :: q :: t) (same : ink x = ink s) :
    x = s ∧ p :: y = q :: t := by
  have longer {x y s t : List Mark} {p q m : Mark} {w : List Mark} (hp : p.isInk = true)
      (long : s = x ++ m :: w) (rest : .plain '(' :: p :: y = m :: w ++ .plain '(' :: q :: t) :
      ink x < ink s := by
    obtain ⟨rfl, behind⟩ := List.cons.inj rest
    cases w with
    | nil =>
      obtain ⟨rfl, -⟩ := List.cons.inj behind
      exact Bool.noConfusion hp
    | cons m w =>
      obtain ⟨rfl, -⟩ := List.cons.inj behind
      rw [long, ink_append, ink_plain, ink_cons hp]
      omega
  rcases List.append_eq_append_iff.mp h with ⟨w, long, rest⟩ | ⟨w, long, rest⟩
  · cases w with
    | nil => exact ⟨by rw [long, List.append_nil], (List.cons.inj rest).2⟩
    | cons m w => exact absurd same (Nat.ne_of_lt (longer hp long rest))
  · cases w with
    | nil => exact ⟨by rw [long, List.append_nil], (List.cons.inj rest).2.symm⟩
    | cons m w => exact absurd same.symm (Nat.ne_of_lt (longer hq long rest))

/-- The character of a mark of an outline. -/
def Mark.char : Mark → Char
  | .plain c => c
  | .quoted c _ => c

theorem count_open (ps : List Piece) :
    (charsOf ps).count '(' = ((outlineOf ps).map Mark.char).count '(' := by
  induction ps with
  | nil => rfl
  | cons p ps ih =>
    have first : p.chars.count '(' = (p.outline.map Mark.char).count '(' := by
      rcases p.outline_cases with ⟨chars, outline⟩ | ⟨chars, outline⟩ | rfl | outline
      · rw [chars, outline]
        rfl
      · rw [chars, outline]
        rfl
      · rfl
      · have same : Mark.char ∘ Mark.solid = id := rfl
        rw [outline, List.map_map, same, List.map_id]
    rw [charsOf_cons, outlineOf_cons, List.map_append, List.count_append, List.count_append, ih,
      first]

/-- Without a pair inside, a query at the same place of the outline has another text. -/
theorem query_ne_of_outline {a q b q' z x y w : List Piece} {c : Char} {rest : List Char}
    (same : outlineOf (x ++ .fixed "(" :: y ++ .fixed ")" :: w) =
      outlineOf (a ++ .fixed "(" :: (q ++ b ++ q') ++ .fixed ")" :: z))
    (start : inkOf x = inkOf a) (begins : charsOf q = c :: rest) (hc : isInk c = true)
    (hy : Balanced (outlineOf y)) (hq : Balanced (outlineOf (q ++ b ++ q'))) :
    textOf y ≠ textOf (q ++ .groupOpen :: b ++ .groupClose :: q') := by
  intro text
  have chars : charsOf y = charsOf (q ++ .groupOpen :: b ++ .groupClose :: q') :=
    String.ofList_injective text
  -- Both texts begin with the same ink, so they begin at the same place and end at the same place.
  have first (ps : List Piece) : charsOf (q ++ ps) = c :: (rest ++ charsOf ps) := by
    rw [charsOf_append, begins, List.cons_append]
  obtain ⟨m, hm⟩ : ∃ m, outlineOf y = .solid c :: m :=
    outlineOf_begins (by rw [chars, List.append_assoc, first]) hc
  obtain ⟨n, hn⟩ : ∃ n, outlineOf (q ++ b ++ q') = .solid c :: n :=
    outlineOf_begins (by rw [List.append_assoc, first]) hc
  have outlines : outlineOf x ++ .plain '(' :: (outlineOf y ++ .plain ')' :: outlineOf w) =
      outlineOf a ++ .plain '(' :: (outlineOf (q ++ b ++ q') ++ .plain ')' :: outlineOf z) := by
    simpa using same
  have opened : outlineOf y ++ .plain ')' :: outlineOf w =
      outlineOf (q ++ b ++ q') ++ .plain ')' :: outlineOf z := by
    rw [hm, hn] at outlines ⊢
    exact (place_unique (p := .solid c) (q := .solid c) hc hc outlines (by simpa using start)).2
  have closed := (hy.close_unique hq opened).1
  have count := count_open y
  rw [closed, ← count_open, chars] at count
  simp [Piece.chars] at count

/-! ## Pairs of an expression -/

/-- Each opening parenthesis of precedence in an expression has its partner. -/
theorem Expr.partnered (e : Expr) : Partnered e.bare := e.tidy.partnered

/-- Without any one pair of the parentheses that precedence asks for, the text of an expression is
not read as the expression. -/
theorem Expr.parentheses_needed (e : Expr) (types : TypesAreWords e.leaves) {a b c : List Piece}
    (pair : e.bare = a ++ .groupOpen :: b ++ .groupClose :: c)
    (partners : Balanced (outlineOf b)) :
    ¬ TakenFor (textOf (a ++ b ++ c)) (e.term Select.sql) := by
  intro reads
  have words : ∀ p ∈ e.bare, p.VerbatimWord :=
    verbatimWord_of_leaves (by rwa [e.leavesOf_bare])
  have asked := e.asked.grouped
  have charts := reads.charts fun t ht => words _ (asked.types t ht)
  have outline : outlineOf (lex (textOf (a ++ b ++ c)).toList) = outlineOf (a ++ b ++ c) := by
    have whole := e.tidy.outlines_ungrouped words pair partners .nil
    rw [Outlines, List.append_nil, lex, outlineOf_nil, List.append_nil] at whole
    rw [textOf, String.toList_ofList, whole]
  cases asked.pairs a b c pair partners with
  | own bracket exposed next =>
    -- The term asks for parentheses with this ink inside: they cannot stand anywhere else.
    obtain ⟨a', b', c', text, balanced, start, size⟩ := charts.brackets _ bracket
    rw [text] at outline
    have same : outlineOf a ++ outlineOf b ++ outlineOf c =
        outlineOf a' ++ .plain '(' :: outlineOf b' ++ .plain ')' :: outlineOf c' := by
      simpa using outline.symm
    have size : inkOf b' = inkOf b := size
    exact exposed.not_enclosed (next.resolve_right (by simp)) same balanced (by simpa using start)
      (by simpa using size)
  | queried before behind bracket begins balanced =>
    -- The pair is inside a query, and the term asks for the query with its text.
    obtain ⟨x, y, z, text, hy, start, content⟩ := charts.brackets _ bracket
    obtain ⟨d, rest, chars, hd⟩ := begins
    rw [text, before, behind] at outline
    exact query_ne_of_outline (by simpa using outline) start chars hd hy balanced content

/-- A sum as a factor. -/
theorem Expr.parentheses_needed_around_sum :
    let sum : Expr := .binary .add (.named "a") (.cast (.named "b") "INTEGER")
    let e : Expr := .binary .mul sum (.named "c")
    let behind : List Piece := [.space, .fixed "*", .space, .name "c"]
    TypesAreWords e.leaves ∧ e.bare = [] ++ .groupOpen :: sum.bare ++ .groupClose :: behind ∧
      Balanced (outlineOf sum.bare) ∧
      ¬ TakenFor (textOf ([] ++ sum.bare ++ behind))
        (.binary .mul
          (.binary .add (.column ⟨none, "a"⟩) (.cast (.column ⟨none, "b"⟩) "INTEGER"))
          (.column ⟨none, "c"⟩)) := by
  intro sum e behind
  have types : TypesAreWords e.leaves := by
    have contents : e.leaves = [.name "a", .name "b", .verbatim "INTEGER", .name "c"] := rfl
    intro v hv
    have only : v = "INTEGER" := by simpa [contents] using hv
    rw [only]
    decide
  have balanced : Balanced (outlineOf sum.bare) := sum.tidy.balanced_outline
  exact ⟨types, rfl, balanced, e.parentheses_needed types rfl balanced⟩

end SqliteSyntax
