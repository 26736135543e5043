import SqliteSyntax.Proofs.Minimal.Taken

/-! # What is read has its cover

Whatever pieces are read as a term at a tier have what the term asks for there
(`covers_of_readAt`): the reader comes to an operand that binds looser than its position only through
a parenthesis. -/
namespace SqliteSyntax
set_option autoImplicit false

/-- What is asked for in a position is asked for in every looser one. -/
theorem Takes.loosen {x : Term String} {tier level : Precedence} {ps rest : List Piece}
    (h : Takes (x.coverAt level) ps rest) (le : tier ≤ level) : Takes (x.coverAt tier) ps rest := by
  obtain ⟨d, text, covers⟩ := h
  exact ⟨d, text, covers.loosen le⟩

/-- What brings its own parentheses has its cover in any position. -/
theorem Takes.primary {x : Term String} {ps rest : List Piece} (tier : x.tier = .primary)
    (h : Takes x.cover ps rest) : Takes (x.coverAt .primary) ps rest := by
  rwa [Term.coverAt_tier tier]

/-- A single item between parentheses is that item, with the parentheses it may need. -/
theorem Takes.ofRow {items : List (Term String)} {ps mid rest : List Piece}
    (h : Takes (listCover items) mid ps) (hc : expect ")" ps = some rest) :
    Takes ((Term.ofRow items).coverAt .primary) (.fixed "(" :: mid) rest := by
  obtain ⟨bare, wrapped⟩ := h.between hc
  match items, bare, wrapped with
  | [], bare, _ => exact .primary rfl bare
  | [item], bare, wrapped =>
    rw [listCover] at bare wrapped
    show Takes (if item.tier < .primary then item.cover.wrap else item.cover) _ _
    split
    · exact wrapped
    · exact bare
  | a :: b :: others, bare, _ => exact .primary rfl bare

/-- A call has a star or arguments, with or without `DISTINCT`. -/
theorem readCall_cases {n : Nat} {f : FunctionName} {ps rest : List Piece} {x : Term String}
    (h : readCall queryText (n + 1) f ps = some (x, rest)) :
    ∃ distinct inner, Takes (.plain (onlyIf distinct [.fixed "DISTINCT"])) ps inner ∧
      ((∃ mid, expect "*" inner = some mid ∧ expect ")" mid = some rest ∧
          x = .callStar f distinct) ∨
        ∃ arguments, readItems queryText n inner = some (arguments, rest) ∧
          x = .call f distinct arguments) := by
  rw [readCall] at h
  cases hd : expect "DISTINCT" ps
  case' some inner =>
    rw [hd] at h
    refine ⟨true, inner, .word hd rfl, ?_⟩
  case' none =>
    rw [hd] at h
    refine ⟨false, ps, .nothing ps, ?_⟩
  all_goals
    dsimp only at h
    split at h
    · next mid hs =>
      obtain ⟨after, hc, same⟩ := Option.bind_eq_some_iff.mp h
      cases same
      exact .inl ⟨mid, hs, hc, rfl⟩
    · obtain ⟨⟨arguments, after⟩, hi, same⟩ := Option.bind_eq_some_iff.mp h
      cases same
      exact .inr ⟨arguments, hi, rfl⟩

/-- Each reader takes pieces with the cover of what it reads, if it may go down so many steps. -/
structure ReadersTake (n : Nat) : Prop where
  operand : ∀ {tier ps x rest}, readAt queryText n tier ps = some (x, rest) →
    Takes (x.coverAt tier) ps rest
  more : ∀ {tier x ps y rest}, readMore queryText n tier x ps = some (y, rest) →
    Extends (x.coverAt tier) (y.coverAt tier) ps rest
  follow : ∀ {x form ps y rest}, readFollow queryText n x form ps = some (y, rest) →
    y.tier = form.tier ∧ Extends (x.coverAt form.tier ++ .plain form.text) y.cover ps rest
  clause : ∀ {word tier ps item rest}, (Piece.fixed word).isParen = false →
    readClause queryText n word tier ps = some (item, rest) →
    Takes (optionCover [.fixed word] tier item) ps rest
  list : ∀ {ps items rest}, readList queryText n ps = some (items, rest) →
    items ≠ [] ∧ ∃ mid, Takes (listCover items) ps mid ∧ expect ")" mid = some rest
  items : ∀ {ps items rest}, readItems queryText n ps = some (items, rest) →
    ∃ mid, Takes (listCover items) ps mid ∧ expect ")" mid = some rest
  branches : ∀ {ps branches rest}, readBranches queryText n ps = some (branches, rest) →
    Takes (branchesCover branches) ps rest
  call : ∀ {function ps x rest}, readCall queryText n function ps = some (x, rest) →
    ∃ c mid, x.tier = .primary ∧ x.cover = .plain function.pieces ++ c ∧ Takes c ps mid ∧
      expect ")" mid = some rest
  subject : ∀ {ps item rest}, readSubject queryText n ps = some (item, rest) →
    Takes (optionCover [] .lowest item) ps rest
  caseWhen : ∀ {ps x rest}, readCase queryText n ps = some (x, rest) →
    x.tier = .primary ∧ Extends (.plain [.fixed "CASE"]) x.cover ps rest
  word : ∀ {word ps x rest}, readWord queryText n word ps = some (x, rest) →
    Takes (x.coverAt .primary) (.fixed word :: ps) rest
  primary : ∀ {ps x rest}, readPrimary queryText n ps = some (x, rest) →
    Takes (x.coverAt .primary) ps rest

namespace ReadersTake
variable {n : Nat}

theorem zero : ReadersTake 0 where
  operand h := by simp [readAt] at h
  more h := by simp [readMore] at h
  follow h := by simp [readFollow] at h
  clause _ h := by simp [readClause] at h
  list h := by simp [readList] at h
  items h := by simp [readItems] at h
  branches h := by simp [readBranches] at h
  call h := by simp [readCall] at h
  subject h := by simp [readSubject] at h
  caseWhen h := by simp [readCase] at h
  word h := by simp [readWord] at h
  primary h := by simp [readPrimary] at h

/-! ## Operands and forms -/

theorem operand_lowest (ih : ReadersTake n) {ps rest : List Piece} {x : Term String}
    (h : readAt queryText n .lowest ps = some (x, rest)) : Takes x.cover ps rest :=
  x.coverAt_lowest ▸ ih.operand h

theorem operand_step (ih : ReadersTake n) {tier : Precedence} {ps rest : List Piece}
    {x : Term String} (h : readAt queryText (n + 1) tier ps = some (x, rest)) :
    Takes (x.coverAt tier) ps rest := by
  by_cases chain : tier.isChain = true
  · rw [readAt_chain chain] at h
    obtain ⟨⟨left, mid⟩, hl, hr⟩ := Option.bind_eq_some_iff.mp h
    have above : tier ≤ tier.above := by cases tier <;> decide
    exact ((ih.operand hl).loosen above).of_extends (ih.more hr)
  · cases tier with
    | not =>
      rw [readAt] at h
      split at h
      · next hw =>
        obtain ⟨⟨operand, mid⟩, ho, same⟩ := Option.bind_eq_some_iff.mp h
        cases same
        have tier : (Term.unary .not operand).tier = .not := rfl
        rw [Term.coverAt_tier tier]
        exact (Takes.word hw rfl).append (ih.operand ho)
      · exact (ih.operand h).loosen (by decide)
    | unary =>
      rw [readAt] at h
      split at h
      · next op mid hp =>
        obtain ⟨⟨operand, mid⟩, ho, same⟩ := Option.bind_eq_some_iff.mp h
        cases same
        obtain ⟨tier, words⟩ := prefixOp_takes hp
        rw [Term.coverAt_tier (x := .unary op operand) tier, Term.cover, tier]
        exact words.append (ih.operand ho)
      · exact (ih.operand h).loosen (by decide)
    | primary =>
      rw [readAt] at h
      exact ih.primary h
    | _ => exact absurd rfl chain

theorem more_step (ih : ReadersTake n) {tier : Precedence} {x y : Term String}
    {ps rest : List Piece} (h : readMore queryText (n + 1) tier x ps = some (y, rest)) :
    Extends (x.coverAt tier) (y.coverAt tier) ps rest := by
  rw [readMore] at h
  split at h
  · next form mid hf =>
    split at h
    · next ht =>
      subst ht
      obtain ⟨⟨z, mid⟩, hz, hr⟩ := Option.bind_eq_some_iff.mp h
      obtain ⟨tier, covers⟩ := ih.follow hz
      rw [← Term.coverAt_tier tier] at covers
      exact ((follow_takes hf).extend.trans covers).trans (ih.more hr)
    · cases h
      exact .refl _ _
  · cases h
    exact .refl _ _

theorem follow_step (ih : ReadersTake n) {x y : Term String} {form : Follow} {ps rest : List Piece}
    (h : readFollow queryText (n + 1) x form ps = some (y, rest)) :
    y.tier = form.tier ∧ Extends (x.coverAt form.tier ++ .plain form.text) y.cover ps rest := by
  cases form with
  | binary op =>
    rw [readFollow] at h
    obtain ⟨⟨right, mid⟩, hr, same⟩ := Option.bind_eq_some_iff.mp h
    cases same
    exact ⟨rfl, (ih.operand hr).extend⟩
  | nullTest test =>
    rw [readFollow] at h
    cases h
    exact ⟨rfl, .refl _ _⟩
  | pattern op negated =>
    rw [readFollow] at h
    obtain ⟨⟨against, mid⟩, ha, h⟩ := Option.bind_eq_some_iff.mp h
    obtain ⟨⟨escape, mid⟩, he, same⟩ := Option.bind_eq_some_iff.mp h
    cases same
    exact ⟨rfl, (ih.operand ha).extend.trans (ih.clause rfl he).extend⟩
  | between negated =>
    rw [readFollow] at h
    obtain ⟨⟨low, mid⟩, hl, h⟩ := Option.bind_eq_some_iff.mp h
    obtain ⟨mid, hw, h⟩ := Option.bind_eq_some_iff.mp h
    obtain ⟨⟨high, mid⟩, hh, same⟩ := Option.bind_eq_some_iff.mp h
    cases same
    exact ⟨rfl, ((ih.operand hl).extend.trans (Takes.word hw rfl).extend).trans
      (ih.operand hh).extend⟩
  | membership negated =>
    rw [readFollow] at h
    obtain ⟨mid, hp, h⟩ := Option.bind_eq_some_iff.mp h
    split at h
    · obtain ⟨⟨query, mid⟩, hq, same⟩ := Option.bind_eq_some_iff.mp h
      cases same
      exact ⟨rfl, (Takes.opened hp (readEnclosed_takes hq)).extend⟩
    · obtain ⟨⟨items, mid⟩, hi, same⟩ := Option.bind_eq_some_iff.mp h
      cases same
      obtain ⟨mid, takes, hc⟩ := ih.items hi
      exact ⟨rfl, (Takes.opened hp (takes.between hc).1).extend⟩
  | escape =>
    rw [readFollow] at h
    exact absurd h (by simp)
  | collate =>
    rw [readFollow] at h
    split at h
    · next hs =>
      cases h
      exact ⟨rfl, (Takes.of_skip (hs ▸ .piece rfl _)).extend⟩
    · exact absurd h (by simp)

theorem clause_step (ih : ReadersTake n) {word : String} {tier : Precedence} {ps rest : List Piece}
    {item : Option (Term String)} (hw : (Piece.fixed word).isParen = false)
    (h : readClause queryText (n + 1) word tier ps = some (item, rest)) :
    Takes (optionCover [.fixed word] tier item) ps rest := by
  rw [readClause] at h
  split at h
  · next he =>
    obtain ⟨⟨x, mid⟩, hx, same⟩ := Option.bind_eq_some_iff.mp h
    cases same
    rw [optionCover]
    exact (Takes.word he hw).append (ih.operand hx)
  · cases h
    rw [optionCover]
    exact .nothing _

/-! ## Lists and branches -/

theorem list_step (ih : ReadersTake n) {ps rest : List Piece} {items : List (Term String)}
    (h : readList queryText (n + 1) ps = some (items, rest)) :
    items ≠ [] ∧ ∃ mid, Takes (listCover items) ps mid ∧ expect ")" mid = some rest := by
  rw [readList] at h
  obtain ⟨⟨x, mid⟩, hx, h⟩ := Option.bind_eq_some_iff.mp h
  have first := ih.operand_lowest hx
  dsimp only at h
  split at h
  · next hc =>
    cases h
    rw [listCover]
    exact ⟨List.cons_ne_nil _ _, mid, first, hc⟩
  · obtain ⟨mid', hc, h⟩ := Option.bind_eq_some_iff.mp h
    obtain ⟨⟨others, mid''⟩, ho, same⟩ := Option.bind_eq_some_iff.mp h
    cases same
    obtain ⟨ne, last, takes, hc'⟩ := ih.list ho
    obtain ⟨next, others, rfl⟩ := List.exists_cons_of_ne_nil ne
    rw [listCover]
    exact ⟨List.cons_ne_nil _ _, last, (first.append (.word hc rfl)).append takes, hc'⟩

theorem items_step (ih : ReadersTake n) {ps rest : List Piece} {items : List (Term String)}
    (h : readItems queryText (n + 1) ps = some (items, rest)) :
    ∃ mid, Takes (listCover items) ps mid ∧ expect ")" mid = some rest := by
  rw [readItems] at h
  split at h
  · next hc =>
    cases h
    rw [listCover]
    exact ⟨ps, .nothing ps, hc⟩
  · exact (ih.list h).2

theorem branches_step (ih : ReadersTake n) {ps rest : List Piece}
    {branches : List (Term String × Term String)}
    (h : readBranches queryText (n + 1) ps = some (branches, rest)) :
    Takes (branchesCover branches) ps rest := by
  rw [readBranches] at h
  split at h
  · next hw =>
    obtain ⟨⟨condition, mid⟩, hc, h⟩ := Option.bind_eq_some_iff.mp h
    obtain ⟨mid, ht, h⟩ := Option.bind_eq_some_iff.mp h
    obtain ⟨⟨result, mid⟩, hr, h⟩ := Option.bind_eq_some_iff.mp h
    obtain ⟨⟨others, mid⟩, ho, same⟩ := Option.bind_eq_some_iff.mp h
    cases same
    rw [branchesCover]
    have condition := (Takes.word hw rfl).append (ih.operand_lowest hc)
    have result := (condition.append (.word ht rfl)).append (ih.operand_lowest hr)
    exact result.append (ih.branches ho)
  · cases h
    rw [branchesCover]
    exact .nothing _

/-! ## Primaries -/

theorem call_step (ih : ReadersTake n) {function : FunctionName} {ps rest : List Piece}
    {x : Term String} (h : readCall queryText (n + 1) function ps = some (x, rest)) :
    ∃ c mid, x.tier = .primary ∧ x.cover = .plain function.pieces ++ c ∧ Takes c ps mid ∧
      expect ")" mid = some rest := by
  obtain ⟨distinct, inner, word, ⟨mid, hs, hc, rfl⟩ | ⟨arguments, hi, rfl⟩⟩ := readCall_cases h
  · exact ⟨_, _, rfl, rfl, word.append (.word hs rfl), hc⟩
  · obtain ⟨mid, takes, hc⟩ := ih.items hi
    exact ⟨_, _, rfl, rfl, word.append takes, hc⟩

theorem subject_step (ih : ReadersTake n) {ps rest : List Piece} {item : Option (Term String)}
    (h : readSubject queryText (n + 1) ps = some (item, rest)) :
    Takes (optionCover [] .lowest item) ps rest := by
  rw [readSubject] at h
  split at h
  · cases h
    rw [optionCover]
    exact .nothing _
  · obtain ⟨⟨x, mid⟩, hx, same⟩ := Option.bind_eq_some_iff.mp h
    cases same
    rw [optionCover]
    exact (Takes.nothing ps).append (ih.operand hx)

theorem caseWhen_step (ih : ReadersTake n) {ps rest : List Piece} {x : Term String}
    (h : readCase queryText (n + 1) ps = some (x, rest)) :
    x.tier = .primary ∧ Extends (.plain [.fixed "CASE"]) x.cover ps rest := by
  rw [readCase] at h
  obtain ⟨⟨operand, mid⟩, ho, h⟩ := Option.bind_eq_some_iff.mp h
  obtain ⟨⟨branches, mid⟩, hb, h⟩ := Option.bind_eq_some_iff.mp h
  obtain ⟨⟨otherwise, mid⟩, he, h⟩ := Option.bind_eq_some_iff.mp h
  obtain ⟨mid, hw, h⟩ := Option.bind_eq_some_iff.mp h
  split at h
  · exact absurd h (by simp)
  · cases h
    refine ⟨rfl, ?_⟩
    have subject := (ih.subject ho).extend (c := .plain [.fixed "CASE"])
    have parts := (subject.trans (ih.branches hb).extend).trans (ih.clause rfl he).extend
    exact parts.trans (Takes.word hw rfl).extend

/-- A name and, after a parenthesis, what follows it. -/
theorem of_call (ih : ReadersTake n) {f : FunctionName} {ps mid rest : List Piece}
    {x : Term String} (name : Takes (.plain f.pieces) ps (.fixed "(" :: mid))
    (h : readCall queryText n f mid = some (x, rest)) :
    Takes (x.coverAt .primary) ps rest := by
  obtain ⟨c, last, tier, cover, takes, hc⟩ := ih.call h
  refine .primary tier ?_
  rw [cover]
  exact name.append (takes.between hc).1

theorem word_step (ih : ReadersTake n) {word : String} {ps rest : List Piece} {x : Term String}
    (h : readWord queryText (n + 1) word ps = some (x, rest)) :
    Takes (x.coverAt .primary) (.fixed word :: ps) rest := by
  unfold readWord at h
  split at h
  · -- A query or items between parentheses.
    split at h
    · obtain ⟨⟨query, mid⟩, hq, same⟩ := Option.bind_eq_some_iff.mp h
      cases same
      exact .primary rfl (readEnclosed_takes hq)
    · obtain ⟨⟨items, mid⟩, hi, same⟩ := Option.bind_eq_some_iff.mp h
      cases same
      obtain ⟨mid, takes, hc⟩ := ih.items hi
      exact takes.ofRow hc
  · -- `CASE`
    obtain ⟨tier, covers⟩ := ih.caseWhen h
    exact .primary tier ((Takes.piece rfl ps).of_extends covers)
  · -- `CAST`
    obtain ⟨mid, hp, h⟩ := Option.bind_eq_some_iff.mp h
    obtain ⟨⟨operand, mid⟩, ho, h⟩ := Option.bind_eq_some_iff.mp h
    obtain ⟨mid, hw, h⟩ := Option.bind_eq_some_iff.mp h
    split at h
    · next name last hs =>
      obtain ⟨mid, hc, same⟩ := Option.bind_eq_some_iff.mp h
      cases same
      have type : Takes (.type name) mid last := .of_skip (hs ▸ ⟨[.fixed name], rfl, .type name⟩)
      have inner := ((ih.operand_lowest ho).append (.word hw rfl)).append type
      exact .primary rfl ((Takes.piece rfl ps).append (.opened hp (inner.between hc).1))
    · exact absurd h (by simp)
  · -- `EXISTS`
    obtain ⟨mid, hp, h⟩ := Option.bind_eq_some_iff.mp h
    obtain ⟨⟨query, mid⟩, hq, same⟩ := Option.bind_eq_some_iff.mp h
    cases same
    exact .primary rfl ((Takes.piece rfl ps).append (.opened hp (readEnclosed_takes hq)))
  · -- `RAISE`
    obtain ⟨mid, hp, h⟩ := Option.bind_eq_some_iff.mp h
    obtain ⟨⟨action, mid⟩, ha, same⟩ := Option.bind_eq_some_iff.mp h
    cases same
    obtain ⟨mid, takes, hc⟩ := readRaise_takes ha
    exact .primary rfl ((Takes.piece rfl ps).append (.opened hp (takes.between hc).1))
  · -- `NEW`
    split at h
    · next column _ =>
      cases h
      exact .primary rfl (Takes.pieces (ColumnRef.isParen_pieces ⟨some .new, column⟩) rest)
    · exact absurd h (by simp)
  · -- `OLD`
    split at h
    · next column _ =>
      cases h
      exact .primary rfl (Takes.pieces (ColumnRef.isParen_pieces ⟨some .old, column⟩) rest)
    · exact absurd h (by simp)
  · split at h
    · next value hv =>
      cases h
      exact .primary rfl (constant_takes hv ps)
    · split at h
      · next function hf =>
        obtain ⟨mid, hp, h⟩ := Option.bind_eq_some_iff.mp h
        have name := (builtin_takes hf ps).to_skip
        rw [expect_eq_some hp] at name
        exact ih.of_call name h
      · exact absurd h (by simp)

theorem primary_step (ih : ReadersTake n) {ps rest : List Piece} {x : Term String}
    (h : readPrimary queryText (n + 1) ps = some (x, rest)) :
    Takes (x.coverAt .primary) ps rest := by
  unfold readPrimary at h
  refine .of_skip ?_
  split at h
  · next hs =>
    cases h
    rw [hs]
    exact .primary rfl (.piece rfl _)
  · next hs =>
    cases h
    rw [hs]
    exact .primary rfl (.piece rfl _)
  · next hs =>
    cases h
    rw [hs]
    exact .primary rfl (.piece rfl _)
  · next first mid hs =>
    rw [hs]
    split at h
    · next hc =>
      have text := callOpening_some hc
      subst text
      exact ih.of_call (f := .defined first) (.piece rfl _) h
    · cases h
      refine .primary rfl ?_
      have takes := Takes.pieces (columnAfter first mid).1.isParen_pieces (columnAfter first mid).2
      rwa [← columnAfter_pieces] at takes
  · next hs =>
    rw [hs]
    exact ih.word h
  · exact absurd h (by simp)

theorem succ (ih : ReadersTake n) : ReadersTake (n + 1) where
  operand := ih.operand_step
  more := ih.more_step
  follow := ih.follow_step
  clause := ih.clause_step
  list := ih.list_step
  items := ih.items_step
  branches := ih.branches_step
  call := ih.call_step
  subject := ih.subject_step
  caseWhen := ih.caseWhen_step
  word := ih.word_step
  primary := ih.primary_step

end ReadersTake

theorem readersTake : (n : Nat) → ReadersTake n
  | 0 => .zero
  | n + 1 => (readersTake n).succ

/-- Pieces that are read as an expression have the cover of its term. -/
theorem covers_of_readAt {n : Nat} {ps : List Piece} {x : Term String}
    (h : readAt queryText n .lowest ps = some (x, [])) : x.cover.Covers ps := by
  obtain ⟨d, rfl, covers⟩ := (readersTake n).operand_lowest h
  rwa [List.append_nil]

end SqliteSyntax
