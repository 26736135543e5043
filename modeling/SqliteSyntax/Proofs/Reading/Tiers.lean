import SqliteSyntax.Proofs.Pieces.Rendered
import SqliteSyntax.Proofs.Reading.Reader

/-! # Reading at a tier

`ReadsAs`: pieces are read at a tier as a term, whatever follows that does not go on at the tier.
`Spine`: they are read at a tier of forms that follow an operand, and the reader then looks for more
forms with the term in hand. What is read at one tier is read at every looser one (`Fits.loosen`), and a
form after a spine gives a longer spine (`Spine.step`), which is how operators come to group to the
left. -/
namespace SqliteSyntax
set_option autoImplicit false

/-! ## Leading spaces -/

@[simp] theorem skip_space (ps : List Piece) : skip (.space :: ps) = skip ps := rfl

@[simp] theorem skip_fixed (t : String) (ps : List Piece) :
    skip (.fixed t :: ps) = .fixed t :: ps := rfl

@[simp] theorem expect_space (word : String) (ps : List Piece) :
    expect word (.space :: ps) = expect word ps := rfl

@[simp] theorem expect_fixed (word t : String) (ps : List Piece) :
    expect word (.fixed t :: ps) = if t = word then some ps else none := rfl

@[simp] theorem follow_space (ps : List Piece) : follow (.space :: ps) = follow ps := rfl

variable {Q : Type} {readQuery : List Piece → Option Q}

theorem readPrimary_space (n : Nat) (ps : List Piece) :
    readPrimary readQuery n (.space :: ps) = readPrimary readQuery n ps := by
  cases n <;> rfl

/-- A tier of forms that follow an operand is read as one operand and as many forms as follow. -/
theorem readAt_chain {tier : Precedence} (h : tier.isChain = true) (n : Nat) (ps : List Piece) :
    readAt readQuery (n + 1) tier ps =
      (readAt readQuery n tier.above ps).bind fun r => readMore readQuery n tier r.1 r.2 := by
  cases tier with
  | not => exact Bool.noConfusion h
  | unary => exact Bool.noConfusion h
  | primary => exact Bool.noConfusion h
  | _ => rfl

theorem readAt_space (n : Nat) (tier : Precedence) (ps : List Piece) :
    readAt readQuery n tier (.space :: ps) = readAt readQuery n tier ps := by
  induction n generalizing tier with
  | zero => rfl
  | succ n ih =>
    by_cases h : tier.isChain = true
    · rw [readAt_chain h, readAt_chain h, ih]
    · cases tier with
      | not => rw [readAt, readAt, expect_space, ih]
      | unary => 
        rw [readAt, readAt, ih]
        rfl
      | primary => rw [readAt, readAt, readPrimary_space]
      | _ => exact absurd rfl h

/-! ## What may follow an operand -/

namespace Precedence

theorem rank_above {tier : Precedence} (h : tier ≠ .primary) : tier.above.rank = tier.rank + 1 := by
  cases tier with
  | primary => exact absurd rfl h
  | _ => rfl

theorem rank_le (tier : Precedence) : tier.rank ≤ 12 := by
  cases tier <;> decide

theorem isChain_ne_primary {tier : Precedence} (h : tier.isChain = true) : tier ≠ .primary := by
  rintro rfl
  exact Bool.noConfusion h

end Precedence

/-- What follows does not go on at the tier, and touches no operand. -/
structure Stops (tier : Precedence) (k : List Piece) : Prop where
  apart : ∀ p ∈ k.head?, p ≠ .fixed "(" ∧ p ≠ .fixed "."
  loose : ∀ form rest, follow k = some (form, rest) → form.tier.rank < tier.rank

theorem Stops.tighten {tier tier' : Precedence} {k : List Piece} (h : Stops tier k)
    (hle : tier.rank ≤ tier'.rank) : Stops tier' k :=
  ⟨h.apart, fun form rest hf => Nat.lt_of_lt_of_le (h.loose form rest hf) hle⟩

/-- What follows may go on at the tier, but with no escape for a pattern of the tier. -/
structure Joins (tier : Precedence) (k : List Piece) : Prop where
  apart : ∀ p ∈ k.head?, p ≠ .fixed "(" ∧ p ≠ .fixed "."
  loose : ∀ form rest, follow k = some (form, rest) → form.tier.rank ≤ tier.rank
  escape : ∀ rest, follow k = some (.escape, rest) → Precedence.rank .equality < tier.rank

theorem Stops.joins {tier : Precedence} {k : List Piece} (h : Stops tier k) : Joins tier k :=
  ⟨h.apart, fun form rest hf => Nat.le_of_lt (h.loose form rest hf),
    fun rest hf => h.loose .escape rest hf⟩

theorem Joins.stops {tier : Precedence} {k : List Piece} (h : Joins tier k)
    (ne : tier ≠ .primary) : Stops tier.above k := by
  refine ⟨h.apart, fun form rest hf => ?_⟩
  rw [Precedence.rank_above ne]
  exact Nat.lt_succ_of_le (h.loose form rest hf)

theorem Stops.above {tier : Precedence} {k : List Piece} (h : Stops tier k) :
    Stops tier.above k := by
  refine h.tighten ?_
  cases tier <;> decide

/-! ## Reading pieces as a term -/

variable (readQuery) in
/-- The pieces are read as the term. The recursion is deep enough if it may go twenty steps down for
each piece and one for each tier above. -/
def ReadsAs (tier : Precedence) (ps : List Piece) (x : Term Q) : Prop :=
  ∀ n k, 20 * ps.length + 14 ≤ n + tier.rank → Stops tier k →
    readAt readQuery n tier (ps ++ k) = some (x, k)

variable (readQuery) in
/-- The pieces are read as the term, and the reader goes on to look for forms that follow. -/
def Spine (tier : Precedence) (ps : List Piece) (x : Term Q) : Prop :=
  ∀ n k, 20 * ps.length + 14 ≤ n + tier.rank → Joins tier k →
    ∃ m, n ≤ m + 20 * ps.length ∧
      readAt readQuery n tier (ps ++ k) = readMore readQuery m tier x k

variable (readQuery) in
/-- Operands without operators outside of parentheses. -/
def ReadsPrimary (ps : List Piece) (x : Term Q) : Prop :=
  ∀ n k, 20 * ps.length + 1 ≤ n → Stops .primary k →
    readPrimary readQuery n (ps ++ k) = some (x, k)

theorem readMore_stops {tier : Precedence} {k : List Piece} (h : Stops tier k) (m : Nat)
    (x : Term Q) : readMore readQuery (m + 1) tier x k = some (x, k) := by
  rw [readMore]
  split
  · next form rest hf =>
    have loose := h.loose form rest hf
    rw [if_neg]
    · rfl
    · rintro rfl
      exact Nat.lt_irrefl _ loose
  · rfl

theorem Spine.reads {tier : Precedence} {ps : List Piece} {x : Term Q}
    (h : Spine readQuery tier ps x) : ReadsAs readQuery tier ps x := by
  intro n k hn hk
  obtain ⟨m, hm, heq⟩ := h n k hn hk.joins
  have := tier.rank_le
  obtain ⟨m', rfl⟩ : ∃ m', m = m' + 1 := ⟨m - 1, by omega⟩
  rw [heq, readMore_stops hk]

theorem ReadsAs.spine {tier : Precedence} {ps : List Piece} {x : Term Q}
    (chain : tier.isChain = true) (ne : ps ≠ []) (h : ReadsAs readQuery tier.above ps x) :
    Spine readQuery tier ps x := by
  intro n k hn hk
  have := tier.rank_le
  have hne := Precedence.isChain_ne_primary chain
  have above := Precedence.rank_above hne
  have pos := List.length_pos_iff.mpr ne
  obtain ⟨m, rfl⟩ : ∃ m, n = m + 1 := ⟨n - 1, by omega⟩
  refine ⟨m, by omega, ?_⟩
  rw [readAt_chain chain, h m k (by omega) (hk.stops hne), Option.bind_some]

variable (readQuery) in
/-- The pieces are read at the tier, ready for more forms of it where the tier has such forms, and
begin as its operands do. -/
structure Fits (tier : Precedence) (ps : List Piece) (x : Term Q) : Prop where
  opens : Opens tier ps
  reads : ReadsAs readQuery tier ps x
  spine : tier.isChain = true → Spine readQuery tier ps x

theorem Spine.fits {tier : Precedence} {ps : List Piece} {x : Term Q} (opens : Opens tier ps)
    (h : Spine readQuery tier ps x) : Fits readQuery tier ps x :=
  ⟨opens, h.reads, fun _ => h⟩

theorem ReadsAs.fits {tier : Precedence} {ps : List Piece} {x : Term Q} (opens : Opens tier ps)
    (chain : tier.isChain = false) (h : ReadsAs readQuery tier ps x) : Fits readQuery tier ps x :=
  ⟨opens, h, fun h' => absurd h' (by rw [chain]; exact Bool.noConfusion)⟩

/-! ## How operands begin -/

namespace Opens

theorem ne_nil {tier : Precedence} {ps : List Piece} (h : Opens tier ps) : ps ≠ [] := by
  obtain ⟨p, rest, rfl, -, -⟩ := h
  exact List.cons_ne_nil p rest

/-- A word that begins no operand is not found where an operand stands. -/
theorem expect_eq_none {tier : Precedence} {ps : List Piece} (h : Opens tier ps) {word : String}
    (hw : word ∉ operandOpenings) (k : List Piece) : expect word (ps ++ k) = none := by
  obtain ⟨p, rest, rfl, opens, -⟩ := h
  cases p with
  | fixed t =>
    rw [List.cons_append, expect_fixed, if_neg]
    rintro rfl
    exact hw (of_decide_eq_true opens)
  | space => exact Bool.noConfusion opens
  | _ => rfl

theorem expect_not {tier : Precedence} {ps : List Piece} (h : Opens tier ps)
    (hn : Precedence.not < tier) (k : List Piece) : expect "NOT" (ps ++ k) = none := by
  obtain ⟨p, rest, rfl, opens, ne⟩ := h
  cases p with
  | fixed t =>
    rw [List.cons_append, expect_fixed, if_neg]
    rintro rfl
    exact ne hn rfl
  | space => exact Bool.noConfusion opens
  | _ => rfl

theorem beginsQuery_eq_false {tier : Precedence} {ps : List Piece} (h : Opens tier ps)
    (k : List Piece) : beginsQuery (ps ++ k) = false := by
  obtain ⟨p, rest, rfl, opens, -⟩ := h
  cases p with
  | fixed t =>
    have words : ∀ t ∈ operandOpenings, (t == "SELECT" || t == "VALUES" || t == "WITH") = false := by
      decide
    exact words t (of_decide_eq_true opens)
  | space => exact Bool.noConfusion opens
  | _ => rfl

end Opens

/-! ## From a tier to the looser ones -/

theorem ReadsPrimary.fits {ps : List Piece} {x : Term Q} (h : ReadsPrimary readQuery ps x)
    (opens : Opens .unary ps) (leads : ∀ k, prefixOp (ps ++ k) = none) :
    Fits readQuery .unary ps x := by
  refine ReadsAs.fits opens rfl fun n k hn hk => ?_
  obtain ⟨m, rfl⟩ : ∃ m, n = m + 2 := ⟨n - 2, by simp only [Precedence.rank] at hn; omega⟩
  rw [readAt, leads k]
  show readAt readQuery (m + 1) .primary (ps ++ k) = _
  rw [readAt]
  exact h m k (by simp only [Precedence.rank] at hn; omega) hk.above

theorem Fits.below {tier : Precedence} {ps : List Piece} {x : Term Q}
    (below : tier.rank < Precedence.rank .unary) (h : Fits readQuery tier.above ps x) :
    Fits readQuery tier ps x := by
  have hne : tier ≠ .primary := by
    rintro rfl
    exact absurd below (by decide)
  have opens : Opens tier ps := h.opens.weaken (by
    show tier.rank ≤ tier.above.rank
    rw [Precedence.rank_above hne]
    exact Nat.le_succ _)
  by_cases chain : tier.isChain = true
  · exact (h.reads.spine chain h.opens.ne_nil).fits opens
  · cases tier with
    | not =>
      refine ReadsAs.fits opens rfl fun n k hn hk => ?_
      obtain ⟨m, rfl⟩ : ∃ m, n = m + 1 := ⟨n - 1, by simp only [Precedence.rank] at hn; omega⟩
      rw [readAt, h.opens.expect_not (by decide) k]
      exact h.reads m k (by simp only [Precedence.rank, Precedence.above] at hn ⊢; omega) hk.above
    | unary => exact absurd below (Nat.lt_irrefl _)
    | primary => exact absurd rfl hne
    | _ => exact absurd rfl chain

/-- What is read at a tier is read at every looser one. -/
theorem Fits.loosen {tier level : Precedence} {ps : List Piece} {x : Term Q}
    (h : Fits readQuery level ps x) (le : tier.rank ≤ level.rank)
    (top : level.rank ≤ Precedence.rank .unary) : Fits readQuery tier ps x := by
  -- Down from the level, one tier at a time.
  have down : ∀ d : Nat, ∀ tier : Precedence, tier.rank + d = level.rank →
      Fits readQuery tier ps x := by
    intro d
    induction d with
    | zero =>
      intro tier heq
      have same : tier = level := by
        cases tier <;> cases level <;> first | rfl | exact absurd heq (by decide)
      rw [same]
      exact h
    | succ d ih =>
      intro tier heq
      have hne : tier ≠ .primary := by
        rintro rfl
        simp only [Precedence.rank] at heq top
        omega
      refine Fits.below (by omega) (ih tier.above ?_)
      rw [Precedence.rank_above hne]
      omega
  exact down (level.rank - tier.rank) tier (by omega)

/-! ## Forms after an operand -/

/-- A form after a spine of its tier gives a longer spine. -/
theorem Spine.step {form : Follow} {left words rest : List Piece} {x y : Term Q}
    (hl : Spine readQuery form.tier left x)
    (hf : ∀ k, follow (.space :: words ++ (rest ++ k)) = some (form, rest ++ k))
    (ne : form ≠ .escape)
    (hr : ∀ n k, 20 * rest.length + 20 ≤ n → Joins form.tier k →
      readFollow readQuery n x form (rest ++ k) = some (y, k)) :
    Spine readQuery form.tier (left ++ .space :: words ++ rest) y := by
  intro n k hn hk
  have length : (left ++ .space :: words ++ rest).length =
      left.length + words.length + rest.length + 1 := by
    simp only [List.length_append, List.length_cons]
    omega
  rw [length] at hn ⊢
  have goesOn : Joins form.tier (.space :: words ++ (rest ++ k)) := by
    refine ⟨fun p hp => ?_, fun form' rest' h => ?_, fun rest' h => ?_⟩
    · cases hp
      exact ⟨fun h => Piece.noConfusion h, fun h => Piece.noConfusion h⟩
    · rw [hf k] at h
      cases h
      exact Nat.le_refl _
    · rw [hf k] at h
      cases h
      exact absurd rfl ne
  obtain ⟨m, hm, heq⟩ := hl n _ (by omega) goesOn
  have := form.tier.rank_le
  obtain ⟨m', rfl⟩ : ∃ m', m = m' + 1 := ⟨m - 1, by omega⟩
  refine ⟨m', by omega, ?_⟩
  rw [List.append_assoc, List.append_assoc, heq, readMore, hf k]
  show (if form.tier = form.tier then _ else _) = _
  rw [if_pos rfl, hr m' k (by omega) hk]
  rfl

end SqliteSyntax
