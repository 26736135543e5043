import SqliteSyntax.Proofs.Reading.Enclosed

/-! # Primaries

Each operand without operators outside of parentheses is read as what it stands for. The parts between
its words and parentheses may be any pieces that are read. -/
namespace SqliteSyntax
set_option autoImplicit false

variable {Q : Type} {readQuery : List Piece → Option Q}

/-! ## Words, quoted tokens and numerals -/

theorem ReadsPrimary.of_word {word : String} {ps : List Piece} {x : Term Q}
    (h : ∀ n k, 20 * ps.length + 19 ≤ n → Stops .primary k →
      readWord readQuery n word (ps ++ k) = some (x, k)) :
    ReadsPrimary readQuery (.fixed word :: ps) x := by
  intro n k hn hk
  rw [List.length_cons] at hn
  obtain ⟨m, rfl⟩ : ∃ m, n = m + 1 := ⟨n - 1, by omega⟩
  exact h m k (by omega) hk

theorem ReadsPrimary.constant {word : String} {value : Literal}
    (h : (word, value) ∈ [("NULL", Literal.null), ("TRUE", .boolean true),
      ("FALSE", .boolean false), ("CURRENT_TIME", .currentTime), ("CURRENT_DATE", .currentDate),
      ("CURRENT_TIMESTAMP", .currentTimestamp)]) :
    ReadsPrimary readQuery [.fixed word] (.literal value) := by
  refine .of_word fun n k hn hk => ?_
  obtain ⟨m, rfl⟩ : ∃ m, n = m + 1 := ⟨n - 1, by omega⟩
  simp only [List.mem_cons, Prod.mk.injEq, List.not_mem_nil, or_false] at h
  rcases h with ⟨rfl, rfl⟩ | ⟨rfl, rfl⟩ | ⟨rfl, rfl⟩ | ⟨rfl, rfl⟩ | ⟨rfl, rfl⟩ | ⟨rfl, rfl⟩
  all_goals rfl

theorem ReadsPrimary.numeral (digits : String) :
    ReadsPrimary readQuery [.numeral digits] (.numeral digits) := by
  intro n k hn hk
  obtain ⟨m, rfl⟩ : ∃ m, n = m + 1 := ⟨n - 1, by omega⟩
  rfl

theorem ReadsPrimary.text (value : String) :
    ReadsPrimary readQuery [.text value] (.literal (.text value)) := by
  intro n k hn hk
  obtain ⟨m, rfl⟩ : ∃ m, n = m + 1 := ⟨n - 1, by omega⟩
  rfl

theorem ReadsPrimary.blob (bytes : List UInt8) :
    ReadsPrimary readQuery [.blob bytes] (.literal (.blob bytes)) := by
  intro n k hn hk
  obtain ⟨m, rfl⟩ : ∃ m, n = m + 1 := ⟨n - 1, by omega⟩
  rfl

/-! ## Columns -/

theorem columnAfter_stops {tier : Precedence} {k : List Piece} (h : Stops tier k) (first : String) :
    columnAfter first k = (⟨none, first⟩, k) := by
  unfold columnAfter
  split
  · exact absurd rfl (h.apart (.fixed ".") rfl).2
  · exact absurd rfl (h.apart (.fixed ".") rfl).2
  · rfl

theorem columnAfter_dot {tier : Precedence} {k : List Piece} (h : Stops tier k)
    (first second : String) :
    columnAfter first (.fixed "." :: .name second :: k) =
      (⟨some (.table ⟨none, first⟩), second⟩, k) := by
  unfold columnAfter
  split
  · next heq =>
    cases heq
    exact absurd rfl (h.apart (.fixed ".") rfl).2
  · next heq =>
    cases heq
    rfl
  · next none => exact absurd rfl (none second k)

theorem callOpening_stops {tier : Precedence} {k : List Piece} (h : Stops tier k) :
    callOpening k = none := by
  unfold callOpening
  split
  · exact absurd rfl (h.apart (.fixed "(") rfl).1
  · rfl

theorem readPrimary_name {ps : List Piece} (h : callOpening ps = none) (n : Nat) (first : String) :
    readPrimary readQuery (n + 1) (.name first :: ps) =
      some (.column (columnAfter first ps).1, (columnAfter first ps).2) := by
  simp only [readPrimary, skip, h]
  rfl

theorem ReadsPrimary.column (c : ColumnRef) : ReadsPrimary readQuery c.pieces (.column c) := by
  obtain ⟨qualifier, column⟩ := c
  have dotted (first : String) (rest : List Piece) (n : Nat) :
      readPrimary readQuery (n + 1) (.name first :: .fixed "." :: rest) =
        some (.column (columnAfter first (.fixed "." :: rest)).1,
          (columnAfter first (.fixed "." :: rest)).2) :=
    readPrimary_name rfl n first
  cases qualifier with
  | none =>
    intro n k hn hk
    obtain ⟨m, rfl⟩ : ∃ m, n = m + 1 := ⟨n - 1, by omega⟩
    show readPrimary readQuery (m + 1) (.name column :: k) = _
    rw [readPrimary_name (callOpening_stops hk), columnAfter_stops hk]
  | some qualifier =>
    cases qualifier with
    | new =>
      refine ReadsPrimary.of_word fun n k hn hk => ?_
      obtain ⟨m, rfl⟩ : ∃ m, n = m + 1 := ⟨n - 1, by omega⟩
      rfl
    | old =>
      refine ReadsPrimary.of_word fun n k hn hk => ?_
      obtain ⟨m, rfl⟩ : ∃ m, n = m + 1 := ⟨n - 1, by omega⟩
      rfl
    | table name =>
      obtain ⟨schema, table⟩ := name
      intro n k hn hk
      obtain ⟨m, rfl⟩ : ∃ m, n = m + 1 := ⟨n - 1, by omega⟩
      cases schema with
      | none =>
        have whole := dotted table (.name column :: k) m
        rw [columnAfter_dot hk] at whole
        exact whole
      | some schema => exact dotted schema (.name table :: .fixed "." :: .name column :: k) m

/-! ## Parentheses -/

theorem parenthesized_append (ps k : List Piece) :
    parenthesized ps ++ k = .fixed "(" :: (ps ++ .fixed ")" :: k) := by
  simp [parenthesized]

/-- A single item between parentheses is that item. -/
theorem ReadsPrimary.row {items : List Piece} {xs : List (Term Q)}
    (h : ReadsItems readQuery items xs) :
    ReadsPrimary readQuery (parenthesized items) (.ofRow xs) := by
  refine .of_word fun n k hn hk => ?_
  rw [List.append_eq, List.length_append, List.length_singleton] at hn
  obtain ⟨m, rfl⟩ : ∃ m, n = m + 1 := ⟨n - 1, by omega⟩
  rw [List.append_eq, List.append_assoc, List.singleton_append]
  show (if beginsQuery (items ++ .fixed ")" :: k) then _ else _) = _
  rw [h.noQuery k, if_neg (by decide), h.reads m k (by omega)]
  rfl

theorem ReadsPrimary.subquery {inner : List Piece} {q : Q} (h : ReadsEnclosed readQuery inner q) :
    ReadsPrimary readQuery (parenthesized inner) (.subquery q) := by
  refine .of_word fun n k hn hk => ?_
  obtain ⟨m, rfl⟩ : ∃ m, n = m + 1 := ⟨n - 1, by omega⟩
  rw [List.append_eq, List.append_assoc, List.singleton_append]
  show (if beginsQuery (inner ++ .fixed ")" :: k) then _ else _) = _
  rw [(h k).1, if_pos rfl, (h k).2]
  rfl

theorem ReadsPrimary.existsRow {inner : List Piece} {q : Q} (h : ReadsEnclosed readQuery inner q) :
    ReadsPrimary readQuery (.fixed "EXISTS" :: .space :: parenthesized inner) (.existsRow q) := by
  refine .of_word fun n k hn hk => ?_
  obtain ⟨m, rfl⟩ : ∃ m, n = m + 1 := ⟨n - 1, by omega⟩
  rw [List.cons_append, parenthesized_append]
  show (readEnclosed readQuery (inner ++ .fixed ")" :: k)).bind _ = _
  rw [(h k).2]
  rfl

/-! ## Calls -/

theorem readItems_space (n : Nat) (ps : List Piece) :
    readItems readQuery n (.space :: ps) = readItems readQuery n ps := by
  cases n with
  | zero => rfl
  | succ n => rw [readItems, readItems, expect_space, readList_space]

theorem readCall_items (f : FunctionName) (distinct : Bool) {items : List Piece}
    {xs : List (Term Q)} (h : ReadsItems readQuery items xs) {n : Nat}
    (hn : 20 * items.length + 22 ≤ n) (k : List Piece) :
    readCall readQuery n f
        (onlyIf distinct [.fixed "DISTINCT", .space] ++ items ++ .fixed ")" :: k) =
      some (.call f distinct xs, k) := by
  obtain ⟨m, rfl⟩ : ∃ m, n = m + 1 := ⟨n - 1, by omega⟩
  have star := h.noWord "*" k (by decide)
  have word := h.noWord "DISTINCT" k (by decide)
  have read := h.reads m k (by omega)
  cases distinct with
  | false =>
    show readCall readQuery (m + 1) f (items ++ .fixed ")" :: k) = _
    simp only [readCall, word, star]
    show (readItems readQuery m (items ++ .fixed ")" :: k)).bind _ = _
    rw [read]
    rfl
  | true =>
    show readCall readQuery (m + 1) f
      (.fixed "DISTINCT" :: .space :: (items ++ .fixed ")" :: k)) = _
    simp only [readCall, expect_fixed, if_pos, expect_space, star]
    show (readItems readQuery m (.space :: (items ++ .fixed ")" :: k))).bind _ = _
    rw [readItems_space, read]
    rfl

theorem readCall_star (f : FunctionName) (distinct : Bool) {n : Nat} (hn : 1 ≤ n)
    (k : List Piece) :
    readCall readQuery n f
        (onlyIf distinct [.fixed "DISTINCT", .space] ++ [.fixed "*"] ++ .fixed ")" :: k) =
      some (.callStar f distinct, k) := by
  obtain ⟨m, rfl⟩ : ∃ m, n = m + 1 := ⟨n - 1, by omega⟩
  cases distinct <;> rfl

theorem readWord_builtin (f : Builtin) (n : Nat) (ps : List Piece) :
    readWord readQuery (n + 1) f.sql (.fixed "(" :: ps) = readCall readQuery n (.builtin f) ps := by
  cases f <;> rfl

/-- The name of a function and a parenthesis that touches it begin a call. -/
theorem ReadsPrimary.called {f : FunctionName} {distinct : Bool} {items : List Piece} {x : Term Q}
    (h : ∀ n k, 20 * items.length + 22 ≤ n →
      readCall readQuery n f
        (onlyIf distinct [.fixed "DISTINCT", .space] ++ items ++ .fixed ")" :: k) = some (x, k)) :
    ReadsPrimary readQuery (f.callPieces distinct items) x := by
  intro n k hn hk
  unfold FunctionName.callPieces at hn ⊢
  rw [List.append_assoc, parenthesized_append]
  have length : 20 * items.length + 22 + 2 ≤ n := by
    cases f <;> simp [FunctionName.pieces, parenthesized] at hn <;> omega
  obtain ⟨m, rfl⟩ : ∃ m, n = m + 2 := ⟨n - 2, by omega⟩
  cases f with
  | builtin f =>
    show readWord readQuery (m + 1) f.sql (.fixed "(" :: _) = _
    rw [readWord_builtin]
    exact h m k (by omega)
  | defined name =>
    show readCall readQuery (m + 1) (.defined name) _ = _
    exact h (m + 1) k (by omega)

/-! ## `CASE`, `CAST` and `RAISE` -/

/-- One branch of a `CASE`. -/
def branchOf (condition result : List Piece) : List Piece :=
  .space :: .fixed "WHEN" :: .space :: condition ++ .space :: .fixed "THEN" :: .space :: result

theorem branchOf_append (condition result k : List Piece) :
    branchOf condition result ++ k = .space :: .fixed "WHEN" :: .space ::
      (condition ++ .space :: .fixed "THEN" :: .space :: (result ++ k)) := by
  simp [branchOf]

theorem length_branchOf (condition result : List Piece) :
    (branchOf condition result).length = condition.length + result.length + 6 := by
  simp only [branchOf, List.cons_append, List.length_cons, List.length_append]
  omega

theorem readBranches_flatMap {α : Type} (shown : α → List Piece) (term : α → Term Q)
    (branches : List (α × α))
    (h : ∀ b ∈ branches, Fits readQuery .lowest (shown b.1) (term b.1) ∧
      Fits readQuery .lowest (shown b.2) (term b.2))
    {k : List Piece} (hk : Stops .lowest k) (done : expect "WHEN" k = none) (n : Nat)
    (hn : 20 * (branches.flatMap fun b => branchOf (shown b.1) (shown b.2)).length + 20 ≤ n) :
    readBranches readQuery n
        ((branches.flatMap fun b => branchOf (shown b.1) (shown b.2)) ++ k) =
      some (branches.map fun b => (term b.1, term b.2), k) := by
  induction branches generalizing n with
  | nil =>
    obtain ⟨m, rfl⟩ : ∃ m, n = m + 1 := ⟨n - 1, by omega⟩
    rw [List.flatMap_nil, List.nil_append, readBranches, done]
    rfl
  | cons b rest ih =>
    obtain ⟨condition, result⟩ := h b (List.mem_cons_self ..)
    rw [List.flatMap_cons, List.length_append, length_branchOf] at hn
    obtain ⟨m, rfl⟩ : ∃ m, n = m + 1 := ⟨n - 1, by omega⟩
    have next := ih (fun c hc => h c (List.mem_cons_of_mem b hc)) m (by omega)
    -- What follows the result is the next branch or the end of them.
    have after : Stops .lowest
        ((rest.flatMap fun b => branchOf (shown b.1) (shown b.2)) ++ k) := by
      cases rest with
      | nil => exact hk
      | cons c rest => exact .word (by decide) _ _
    rw [List.flatMap_cons, List.append_assoc, branchOf_append, readBranches, expect_space,
      expect_fixed, if_pos rfl]
    show (readAt readQuery m .lowest (.space :: _)).bind _ = _
    rw [readAt_space, condition.reads m _ (by omega) (.word (by decide) _ _)]
    show (readAt readQuery m .lowest (.space :: _)).bind _ = _
    rw [readAt_space, result.reads m _ (by omega) after]
    show (readBranches readQuery m _).bind _ = _
    rw [next]
    rfl

theorem readClause_some {word : String} {ps : List Piece} {x : Term Q}
    (h : Fits readQuery .lowest ps x) {n : Nat} (hn : 20 * ps.length + 15 ≤ n) {k : List Piece}
    (hk : Stops .lowest k) :
    readClause readQuery n word .lowest (.space :: .fixed word :: .space :: (ps ++ k)) =
      some (some x, k) := by
  obtain ⟨m, rfl⟩ : ∃ m, n = m + 1 := ⟨n - 1, by omega⟩
  rw [readClause, expect_space, expect_fixed, if_pos rfl]
  show (readAt readQuery m .lowest (.space :: (ps ++ k))).bind _ = _
  rw [readAt_space, h.reads m k (by omega) hk]
  rfl

theorem readClause_none {word : String} {k : List Piece} (h : expect word k = none) {n : Nat}
    (hn : 1 ≤ n) (tier : Precedence) : readClause readQuery n word tier k = some (none, k) := by
  obtain ⟨m, rfl⟩ : ∃ m, n = m + 1 := ⟨n - 1, by omega⟩
  rw [readClause, h]
  rfl

section Case
variable {α : Type} (shown : α → List Piece) (term : α → Term Q)

/-- What stands behind `CASE` is the operand, unless it is the first `WHEN`. -/
theorem readSubject_spaced {operand : Option α}
    (h : ∀ a ∈ operand, Fits readQuery .lowest (shown a) (term a)) {n : Nat}
    (hn : 20 * (spaced (operand.map shown)).length + 1 ≤ n) (rest : List Piece) :
    readSubject readQuery n (spaced (operand.map shown) ++ .space :: .fixed "WHEN" :: rest) =
      some (operand.map term, .space :: .fixed "WHEN" :: rest) := by
  obtain ⟨m, rfl⟩ : ∃ m, n = m + 1 := ⟨n - 1, by omega⟩
  cases operand with
  | none => rfl
  | some a =>
    have fits := h a rfl
    have length : (spaced (Option.map shown (some a))).length = (shown a).length + 1 := rfl
    rw [length] at hn
    show readSubject readQuery (m + 1) (.space :: (shown a ++ .space :: .fixed "WHEN" :: rest)) = _
    rw [readSubject, expect_space, fits.opens.expect_eq_none (by decide)]
    show (readAt readQuery m .lowest (.space :: _)).bind _ = _
    rw [readAt_space, fits.reads m _ (by omega) (.word (by decide) _ _)]
    rfl

theorem readClause_else {otherwise : Option α}
    (h : ∀ a ∈ otherwise, Fits readQuery .lowest (shown a) (term a)) {n : Nat}
    (hn : 20 * (clause ["ELSE"] (otherwise.map shown)).length + 1 ≤ n) {k : List Piece}
    (hk : Stops .lowest k) (done : expect "ELSE" k = none) :
    readClause readQuery n "ELSE" .lowest (clause ["ELSE"] (otherwise.map shown) ++ k) =
      some (otherwise.map term, k) := by
  cases otherwise with
  | none => exact readClause_none done (by omega) _
  | some a =>
    have length : (clause ["ELSE"] (Option.map shown (some a))).length = (shown a).length + 3 := rfl
    rw [length] at hn
    exact readClause_some (h a rfl) (by omega) hk

theorem ReadsPrimary.caseWhen {operand otherwise : Option α} {branches : List (α × α)}
    (ne : branches ≠ [])
    (ho : ∀ a ∈ operand, Fits readQuery .lowest (shown a) (term a))
    (hb : ∀ b ∈ branches, Fits readQuery .lowest (shown b.1) (term b.1) ∧
      Fits readQuery .lowest (shown b.2) (term b.2))
    (he : ∀ a ∈ otherwise, Fits readQuery .lowest (shown a) (term a)) :
    ReadsPrimary readQuery
      (.fixed "CASE" :: spaced (operand.map shown) ++
        (branches.flatMap fun b => branchOf (shown b.1) (shown b.2)) ++
        clause ["ELSE"] (otherwise.map shown) ++ [.space, .fixed "END"])
      (.caseWhen (operand.map term) (branches.map fun b => (term b.1, term b.2))
        (otherwise.map term)) := by
  refine .of_word fun n k hn hk => ?_
  obtain ⟨first, others, rfl⟩ := List.exists_cons_of_ne_nil ne
  generalize htext : ((first :: others).flatMap fun b => branchOf (shown b.1) (shown b.2)) = text
    at hn ⊢
  simp only [List.append_eq, List.length_append, List.length_cons, List.length_nil] at hn
  obtain ⟨m, rfl⟩ : ∃ m, n = m + 3 := ⟨n - 3, by omega⟩
  simp only [List.append_eq, List.append_assoc, List.cons_append, List.nil_append]
  have helse : readClause readQuery (m + 1) "ELSE" .lowest
      (clause ["ELSE"] (otherwise.map shown) ++ .space :: .fixed "END" :: k) =
      some (otherwise.map term, .space :: .fixed "END" :: k) :=
    readClause_else shown term he (by omega) (.word (by decide) _ _) rfl
  -- After the branches stands `ELSE` or `END`, and where the branches begin stands `WHEN`.
  have hend : Stops .lowest (clause ["ELSE"] (otherwise.map shown) ++ .space :: .fixed "END" :: k) ∧
      expect "WHEN" (clause ["ELSE"] (otherwise.map shown) ++ .space :: .fixed "END" :: k) =
        none := by
    cases otherwise <;> exact ⟨.word (by decide) _ _, rfl⟩
  generalize clause ["ELSE"] (otherwise.map shown) ++ .space :: .fixed "END" :: k = behind
    at helse hend ⊢
  have hbegin : ∃ rest, text ++ behind = .space :: .fixed "WHEN" :: rest := by
    rw [← htext, List.flatMap_cons, List.append_assoc, branchOf_append]
    exact ⟨_, rfl⟩
  have hbranches : readBranches readQuery (m + 1) (text ++ behind) =
      some ((first :: others).map fun b => (term b.1, term b.2), behind) := by
    rw [← htext]
    exact readBranches_flatMap shown term _ hb hend.1 hend.2 (m + 1) (by rw [htext]; omega)
  have hsubject : readSubject readQuery (m + 1) (spaced (operand.map shown) ++ (text ++ behind)) =
      some (operand.map term, text ++ behind) := by
    obtain ⟨rest, hrest⟩ := hbegin
    rw [hrest]
    exact readSubject_spaced shown term ho (by omega) rest
  show readCase readQuery (m + 2) _ = _
  rw [readCase, hsubject]
  show (readBranches readQuery (m + 1) _).bind _ = _
  rw [hbranches]
  show (readClause readQuery (m + 1) "ELSE" .lowest _).bind _ = _
  rw [helse]
  rfl

end Case

theorem ReadsPrimary.cast {operand : List Piece} {x : Term Q}
    (h : Fits readQuery .lowest operand x) (typeName : String) :
    ReadsPrimary readQuery
      (.fixed "CAST" ::
        parenthesized (operand ++ [.space, .fixed "AS", .space, .fixed typeName]))
      (.cast x typeName) := by
  refine .of_word fun n k hn hk => ?_
  simp only [parenthesized, List.length_append, List.length_cons, List.length_nil] at hn
  obtain ⟨m, rfl⟩ : ∃ m, n = m + 1 := ⟨n - 1, by omega⟩
  rw [parenthesized_append, List.append_assoc]
  show (readAt readQuery m .lowest (operand ++ ([.space, .fixed "AS", .space, .fixed typeName] ++
    .fixed ")" :: k))).bind _ = _
  have after : Stops .lowest ([.space, .fixed "AS", .space, .fixed typeName] ++ .fixed ")" :: k) :=
    .word (by decide) _ _
  rw [h.reads m _ (by omega) after]
  rfl

theorem ReadsPrimary.raise (action : RaiseAction) :
    ReadsPrimary readQuery (.fixed "RAISE" :: parenthesized action.pieces) (.raise action) := by
  refine .of_word fun n k hn hk => ?_
  obtain ⟨m, rfl⟩ : ∃ m, n = m + 1 := ⟨n - 1, by omega⟩
  cases action <;> rfl

end SqliteSyntax
