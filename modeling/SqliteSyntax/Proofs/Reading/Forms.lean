import SqliteSyntax.Proofs.Reading.PlainText
import SqliteSyntax.Proofs.Reading.Tiers

/-! # Forms after an operand

Each form that follows an operand, after a spine of its tier, gives a longer spine. The parts of the
form may be any pieces that are read as terms at the tiers that the grammar asks for. -/
namespace SqliteSyntax
set_option autoImplicit false

/-! ## Words that follow an operand and begin no form -/

/-- A word or mark that goes on with no operand. -/
def isIdle (word : String) : Bool :=
  (Follow.ofWord? word).isNone && word != "IS" && word != "NOT"

theorem follow_idle {word : String} (h : isIdle word = true) (ps : List Piece) :
    follow (.fixed word :: ps) = none := by
  simp only [isIdle, Bool.and_eq_true, bne_iff_ne, Option.isNone_iff_eq_none] at h
  obtain ⟨⟨none, is⟩, not⟩ := h
  unfold follow
  split
  · next heq =>
    cases heq
    exact absurd rfl is
  · next heq =>
    cases heq
    exact absurd rfl not
  · next heq =>
    cases heq
    rw [none]
    rfl
  · rfl

namespace Stops

theorem nil (tier : Precedence) : Stops tier [] := by
  refine ⟨fun p hp => ?_, fun form rest h => ?_⟩
  · exact absurd hp (by simp)
  · exact absurd h (by simp [follow, skip])

theorem word {word : String} (h : isIdle word = true) (tier : Precedence) (ps : List Piece) :
    Stops tier (.space :: .fixed word :: ps) := by
  refine ⟨fun p hp => ?_, fun form rest hf => ?_⟩
  · cases hp
    exact ⟨fun h => Piece.noConfusion h, fun h => Piece.noConfusion h⟩
  · rw [follow_space, follow_idle h] at hf
    exact absurd hf (by simp)

theorem mark {word : String} (h : isIdle word = true) (opening : word ≠ "(") (dot : word ≠ ".")
    (tier : Precedence) (ps : List Piece) : Stops tier (.fixed word :: ps) := by
  refine ⟨fun p hp => ?_, fun form rest hf => ?_⟩
  · cases hp
    exact ⟨fun h => opening (Piece.fixed.inj h), fun h => dot (Piece.fixed.inj h)⟩
  · rw [follow_idle h] at hf
    exact absurd hf (by simp)

theorem form {form : Follow} {ps rest : List Piece} (h : follow ps = some (form, rest))
    {tier : Precedence} (below : form.tier.rank < tier.rank) : Stops tier (.space :: ps) := by
  refine ⟨fun p hp => ?_, fun form' rest' hf => ?_⟩
  · cases hp
    exact ⟨fun h => Piece.noConfusion h, fun h => Piece.noConfusion h⟩
  · rw [follow_space, h] at hf
    cases hf
    exact below

end Stops

/-! ## The words of each form -/

theorem follow_is {ps : List Piece} (h : expect "NOT" ps = none) :
    follow (.space :: .fixed "IS" :: .space :: ps) = some (.binary .is, .space :: ps) := by
  have second : ∀ rest, skip ps ≠ .fixed "NOT" :: rest := by
    intro rest hs
    rw [expect, hs] at h
    exact absurd h (by simp)
  -- With `second` at hand only the case without a `NOT` is left.
  simp only [follow, skip]

theorem follow_binary {op : BinaryOp} {ps : List Piece} (h : op = .is → expect "NOT" ps = none) :
    follow (.space :: Phrase.pieces op ++ .space :: ps) = some (.binary op, .space :: ps) := by
  cases op with
  | is => exact follow_is (h rfl)
  | _ => rfl

theorem follow_pattern (op : PatternOp) (negated : Bool) (ps : List Piece) :
    follow (.space :: negatable negated (Phrase.words op) ++ ps) =
      some (.pattern op negated, ps) := by
  cases op <;> cases negated <;> rfl

theorem follow_between (negated : Bool) (ps : List Piece) :
    follow (.space :: negatable negated ["BETWEEN"] ++ ps) = some (.between negated, ps) := by
  cases negated <;> rfl

theorem follow_membership (negated : Bool) (ps : List Piece) :
    follow (.space :: negatable negated ["IN"] ++ ps) = some (.membership negated, ps) := by
  cases negated <;> rfl

/-! ## Forms as spines -/

variable {Q : Type} {readQuery : List Piece → Option Q}

theorem Spine.binary {op : BinaryOp} {left right : List Piece} {x y : Term Q}
    (hl : Spine readQuery (Follow.binary op).tier left x)
    (leads : op = .is → ∀ k, expect "NOT" (right ++ k) = none)
    (hr : ReadsAs readQuery (Follow.binary op).tier.above right y) :
    Spine readQuery (Follow.binary op).tier (left ++ .space :: Phrase.pieces op ++ .space :: right)
      (.binary op x y) := by
  have ne : (Follow.binary op).tier ≠ .primary := by
    cases op <;> exact fun h => Precedence.noConfusion h
  refine Spine.step hl (fun k => follow_binary fun h => leads h k) (fun h => Follow.noConfusion h)
    fun n k hn hk => ?_
  rw [List.length_cons] at hn
  obtain ⟨m, rfl⟩ : ∃ m, n = m + 1 := ⟨n - 1, by omega⟩
  rw [readFollow, List.cons_append, readAt_space, hr m k (by omega) (hk.stops ne)]
  rfl

theorem Spine.nullTest {test : NullTest} {left : List Piece} {x : Term Q}
    (ht : test ≠ .isNull ∧ test ≠ .isNotNull) (hl : Spine readQuery .equality left x) :
    Spine readQuery .equality (left ++ .space :: Phrase.pieces test) (.nullTest test x) := by
  have words : ∀ k, follow (.space :: Phrase.pieces test ++ ([] ++ k)) =
      some (.nullTest test, [] ++ k) := by
    intro k
    cases test with
    | isNull => exact absurd rfl ht.1
    | isNotNull => exact absurd rfl ht.2
    | _ => rfl
  have whole : Spine readQuery .equality (left ++ .space :: Phrase.pieces test ++ [])
      (.nullTest test x) := by
    refine Spine.step hl words (fun h => Follow.noConfusion h) fun n k hn hk => ?_
    obtain ⟨m, rfl⟩ : ∃ m, n = m + 1 := ⟨n - 1, by omega⟩
    rfl
  rwa [List.append_nil] at whole

theorem Spine.collate {left : List Piece} {x : Term Q} (hl : Spine readQuery .collate left x)
    (collation : String) :
    Spine readQuery .collate (left ++ [.space, .fixed "COLLATE", .space, .name collation])
      (.collate x collation) := by
  have words : ∀ k, follow (.space :: [.fixed "COLLATE"] ++ ([.space, .name collation] ++ k)) =
      some (.collate, [.space, .name collation] ++ k) := fun k => rfl
  have whole : Spine readQuery .collate
      (left ++ .space :: [.fixed "COLLATE"] ++ [.space, .name collation]) (.collate x collation) := by
    refine Spine.step hl words (fun h => Follow.noConfusion h) fun n k hn hk => ?_
    obtain ⟨m, rfl⟩ : ∃ m, n = m + 1 := ⟨n - 1, by omega⟩
    rfl
  rwa [List.append_assoc] at whole

/-- What follows a form of equality is no escape. -/
theorem Joins.expect_escape {k : List Piece} (h : Joins .equality k) : expect "ESCAPE" k = none := by
  have none : ∀ ps rest, skip ps = .fixed "ESCAPE" :: rest → follow ps = some (.escape, rest) := by
    intro ps rest hs
    rw [follow, hs]
    rfl
  unfold expect
  split
  · next t rest hs =>
    split
    · next ht =>
      rw [ht] at hs
      exact absurd (h.escape rest (none k rest hs)) (Nat.lt_irrefl _)
    · rfl
  · rfl

/-- A pattern is read at the tier of comparison, and so is its escape. -/
theorem Spine.pattern {op : PatternOp} {negated : Bool} {left against : List Piece}
    {escape : Option (List Piece)} {x y : Term Q} {z : Option (Term Q)}
    (hl : Spine readQuery .equality left x) (hr : ReadsAs readQuery .comparison against y)
    (he : Option.Rel (ReadsAs readQuery .comparison) escape z) :
    Spine readQuery .equality
      (left ++ .space :: negatable negated (Phrase.words op) ++ .space :: against ++
        clause ["ESCAPE"] escape)
      (.pattern op negated x y z) := by
  have whole : Spine readQuery .equality
      (left ++ .space :: negatable negated (Phrase.words op) ++
        (.space :: against ++ clause ["ESCAPE"] escape)) (.pattern op negated x y z) := by
    refine Spine.step hl (fun k => follow_pattern op negated _) (fun h => Follow.noConfusion h)
      fun n k hn hk => ?_
    rw [List.length_append, List.length_cons] at hn
    obtain ⟨m, rfl⟩ : ∃ m, n = m + 2 := ⟨n - 2, by omega⟩
    have stops : Stops .comparison k := hk.stops (fun h => Precedence.noConfusion h)
    cases he with
    | none =>
      rw [readFollow, show clause ["ESCAPE"] none = [] from rfl, List.append_nil, List.cons_append,
        readAt_space, hr (m + 1) k (by omega) stops]
      show ((readClause readQuery (m + 1) "ESCAPE" .comparison k).bind _) = _
      rw [readClause, hk.expect_escape]
      rfl
    | @some qs z he =>
      have text : clause ["ESCAPE"] (some qs) = .space :: .fixed "ESCAPE" :: .space :: qs := rfl
      rw [text] at hn ⊢
      simp only [List.length_cons] at hn
      have escape : Stops .comparison (.space :: .fixed "ESCAPE" :: .space :: qs ++ k) :=
        .form rfl (by decide)
      rw [readFollow, List.append_assoc, List.cons_append, readAt_space,
        hr (m + 1) _ (by omega) escape]
      show ((readClause readQuery (m + 1) "ESCAPE" .comparison
        (.space :: .fixed "ESCAPE" :: .space :: qs ++ k)).bind _) = _
      rw [readClause, List.cons_append, expect_space, List.cons_append, expect_fixed, if_pos rfl]
      show ((readAt readQuery m .comparison (.space :: (qs ++ k))).bind _).bind _ = _
      rw [readAt_space, he m k (by simp only [Precedence.rank]; omega) stops]
      rfl
  rwa [← List.append_assoc] at whole

theorem Spine.between {negated : Bool} {left low high : List Piece} {x y z : Term Q}
    (hl : Spine readQuery .equality left x) (hlow : ReadsAs readQuery .comparison low y)
    (hhigh : ReadsAs readQuery .comparison high z) :
    Spine readQuery .equality
      (left ++ .space :: negatable negated ["BETWEEN"] ++ .space :: low ++
        .space :: .fixed "AND" :: .space :: high)
      (.between negated x y z) := by
  have whole : Spine readQuery .equality
      (left ++ .space :: negatable negated ["BETWEEN"] ++
        (.space :: low ++ .space :: .fixed "AND" :: .space :: high)) (.between negated x y z) := by
    refine Spine.step hl (fun k => follow_between negated _) (fun h => Follow.noConfusion h)
      fun n k hn hk => ?_
    simp only [List.length_append, List.length_cons] at hn
    obtain ⟨m, rfl⟩ : ∃ m, n = m + 1 := ⟨n - 1, by omega⟩
    have stops : Stops .comparison k := hk.stops (fun h => Precedence.noConfusion h)
    have inner : Stops .comparison (.space :: .fixed "AND" :: .space :: high ++ k) :=
      .form rfl (by decide)
    rw [readFollow, List.append_assoc, List.cons_append, readAt_space, hlow m _ (by omega) inner]
    show ((readAt readQuery m .comparison (.space :: (high ++ k))).bind _) = _
    rw [readAt_space, hhigh m k (by omega) stops]
    rfl
  rwa [← List.append_assoc] at whole

/-! ## Lists and queries between parentheses -/

variable (readQuery) in
/-- The pieces up to a closing parenthesis are read as the terms. -/
structure ReadsItems (ps : List Piece) (xs : List (Term Q)) : Prop where
  noQuery : ∀ k, beginsQuery (ps ++ .fixed ")" :: k) = false
  noWord : ∀ word k, word ∉ ")" :: operandOpenings → expect word (ps ++ .fixed ")" :: k) = none
  reads : ∀ n k, 20 * ps.length + 21 ≤ n →
    readItems readQuery n (ps ++ .fixed ")" :: k) = some (xs, k)

variable (readQuery) in
/-- The pieces up to a closing parenthesis are read as the query. -/
def ReadsEnclosed (ps : List Piece) (q : Q) : Prop :=
  ∀ k, beginsQuery (ps ++ .fixed ")" :: k) = true ∧
    readEnclosed readQuery (ps ++ .fixed ")" :: k) = some (q, k)

theorem readList_space (n : Nat) (ps : List Piece) :
    readList readQuery n (.space :: ps) = readList readQuery n ps := by
  cases n with
  | zero => rfl
  | succ n => rw [readList, readList, readAt_space]

theorem readList_commaSeparated {α : Type} (shown : α → List Piece) (term : α → Term Q)
    (items : List α) (ne : items ≠ [])
    (h : ∀ a ∈ items, Fits readQuery .lowest (shown a) (term a)) (n : Nat) (k : List Piece)
    (hn : 20 * (commaSeparated (items.map shown)).length + 20 ≤ n) :
    readList readQuery n (commaSeparated (items.map shown) ++ .fixed ")" :: k) =
      some (items.map term, k) := by
  induction items generalizing n with
  | nil => exact absurd rfl ne
  | cons a rest ih =>
    have ha := (h a (List.mem_cons_self ..)).reads
    obtain ⟨m, rfl⟩ : ∃ m, n = m + 1 := ⟨n - 1, by omega⟩
    cases rest with
    | nil =>
      have text : commaSeparated ([a].map shown) = shown a := rfl
      rw [text] at hn ⊢
      rw [readList, ha m _ (by omega) (.mark (by decide) (by decide) (by decide) _ _)]
      rfl
    | cons b rest =>
      have text : commaSeparated ((a :: b :: rest).map shown) =
          shown a ++ [.fixed ",", .space] ++ commaSeparated ((b :: rest).map shown) := rfl
      rw [text] at hn ⊢
      simp only [List.length_append, List.length_cons] at hn
      have next := ih (List.cons_ne_nil b rest) (fun c hc => h c (List.mem_cons_of_mem a hc)) m
        (by omega)
      have after : Stops .lowest ([.fixed ",", .space] ++
          (commaSeparated ((b :: rest).map shown) ++ .fixed ")" :: k)) :=
        .mark (by decide) (by decide) (by decide) _ _
      rw [readList, List.append_assoc, List.append_assoc, ha m _ (by omega) after]
      show (readList readQuery m (.space ::
        (commaSeparated ((b :: rest).map shown) ++ .fixed ")" :: k))).bind _ = _
      rw [readList_space, next]
      rfl

theorem ReadsItems.of_fits {α : Type} (shown : α → List Piece) (term : α → Term Q) (items : List α)
    (h : ∀ a ∈ items, Fits readQuery .lowest (shown a) (term a)) :
    ReadsItems readQuery (commaSeparated (items.map shown)) (items.map term) := by
  cases items with
  | nil =>
    refine ⟨fun k => rfl, fun word k hw => ?_, fun n k hn => ?_⟩
    · show expect word (.fixed ")" :: k) = none
      rw [expect_fixed, if_neg]
      rintro rfl
      exact hw (List.mem_cons_self ..)
    · obtain ⟨m, rfl⟩ : ∃ m, n = m + 1 := ⟨n - 1, by omega⟩
      rfl
  | cons a rest =>
    have opens : Opens .lowest (commaSeparated ((a :: rest).map shown)) := by
      have first := (h a (List.mem_cons_self ..)).opens
      cases rest with
      | nil => exact first
      | cons b rest => exact (first.append _).append _
    refine ⟨fun k => opens.beginsQuery_eq_false _, fun word k hw => ?_, fun n k hn => ?_⟩
    · exact opens.expect_eq_none (fun h => hw (List.mem_cons_of_mem _ h)) _
    · obtain ⟨m, rfl⟩ : ∃ m, n = m + 1 := ⟨n - 1, by omega⟩
      have none : expect ")" (commaSeparated ((a :: rest).map shown) ++ .fixed ")" :: k) = none :=
        opens.expect_eq_none (by decide) _
      rw [readItems, none]
      exact readList_commaSeparated shown term (a :: rest) (List.cons_ne_nil a rest) h m k
        (by omega)

/-- A membership test against the items or the query between the parentheses. -/
theorem Spine.inList {negated : Bool} {left items : List Piece} {x : Term Q} {xs : List (Term Q)}
    (hl : Spine readQuery .equality left x) (hr : ReadsItems readQuery items xs) :
    Spine readQuery .equality
      (left ++ .space :: negatable negated ["IN"] ++ .space :: parenthesized items)
      (.inList negated x xs) := by
  refine Spine.step hl (fun k => follow_membership negated _) (fun h => Follow.noConfusion h)
    fun n k hn hk => ?_
  simp only [parenthesized, List.length_append, List.length_cons, List.length_nil] at hn
  obtain ⟨m, rfl⟩ : ∃ m, n = m + 1 := ⟨n - 1, by omega⟩
  have text : .space :: parenthesized items ++ k =
      .space :: .fixed "(" :: (items ++ .fixed ")" :: k) := by
    simp [parenthesized]
  rw [text, readFollow]
  show (if beginsQuery (items ++ .fixed ")" :: k) then _ else _) = _
  rw [hr.noQuery k, if_neg (by decide), hr.reads m k (by omega)]
  rfl

theorem Spine.inSelect {negated : Bool} {left inner : List Piece} {x : Term Q} {q : Q}
    (hl : Spine readQuery .equality left x) (hr : ReadsEnclosed readQuery inner q) :
    Spine readQuery .equality
      (left ++ .space :: negatable negated ["IN"] ++ .space :: parenthesized inner)
      (.inSelect negated x q) := by
  refine Spine.step hl (fun k => follow_membership negated _) (fun h => Follow.noConfusion h)
    fun n k hn hk => ?_
  obtain ⟨m, rfl⟩ : ∃ m, n = m + 1 := ⟨n - 1, by omega⟩
  have text : .space :: parenthesized inner ++ k =
      .space :: .fixed "(" :: (inner ++ .fixed ")" :: k) := by
    simp [parenthesized]
  rw [text, readFollow]
  show (if beginsQuery (inner ++ .fixed ")" :: k) then _ else _) = _
  rw [(hr k).1, if_pos rfl, (hr k).2]
  rfl

end SqliteSyntax
