import SqliteSyntax.Expr.Render
import SqliteSyntax.Proofs.Minimal.Outline

/-! # Pairs of parentheses of precedence

A pair is an opening and a closing parenthesis of precedence with a balanced part between them. In
tidy text each opening parenthesis has its partner (`Tidy.partnered`). A pair in balanced parts that
follow one another is in one of them. -/
namespace SqliteSyntax
set_option autoImplicit false

/-! ## Pieces without parentheses -/

theorem Piece.isParen_of_standsAlone {p : Piece} (h : p.standsAlone = true) :
    p.isParen = false := by
  cases p with
  | fixed t =>
    rw [isParen, Bool.or_eq_false_iff, beq_eq_false_iff_ne, beq_eq_false_iff_ne]
    constructor
    all_goals
      rintro rfl
      exact absurd h (by decide)
  | groupOpen => exact Bool.noConfusion h
  | groupClose => exact Bool.noConfusion h
  | _ => rfl

theorem ColumnRef.isParen_pieces (c : ColumnRef) : ∀ p ∈ c.pieces, p.isParen = false := by
  obtain ⟨qualifier, column⟩ := c
  cases qualifier with
  | none => simp [ColumnRef.pieces, Piece.isParen]
  | some qualifier =>
    cases qualifier with
    | table name =>
      obtain ⟨schema, table⟩ := name
      cases schema <;> simp [ColumnRef.pieces, QualifiedName.pieces, Piece.isParen]
    | new => simp [ColumnRef.pieces, Piece.isParen]
    | old => simp [ColumnRef.pieces, Piece.isParen]

theorem isParen_functionName (f : FunctionName) : ∀ p ∈ f.pieces, p.isParen = false := by
  cases f with
  | builtin f => cases f <;> decide
  | defined name => simp [FunctionName.pieces, Piece.isParen]

/-! ## Tidy text balances -/

theorem Tidy.balanced_outline {ps : List Piece} (h : Tidy ps) : Balanced (outlineOf ps) := by
  have level {p : Piece} (hp : p.isParen = false) {ps : List Piece} (h : Balanced (outlineOf ps)) :
      Balanced (outlineOf (p :: ps)) :=
    (Balanced.of_level (p.step_outline hp)).append h
  have between {ps : List Piece} (h : Balanced (outlineOf ps)) :
      Balanced (.plain '(' :: outlineOf ps ++ [.plain ')']) :=
    h.wrap
  induction h with
  | nil => exact .nil
  | one alone => exact level (Piece.isParen_of_standsAlone alone) .nil
  | spaced _ _ ihl ihr =>
    rw [outlineOf_append]
    exact ihl.append (level rfl ihr)
  | listed _ _ ihl ihr =>
    rw [outlineOf_append]
    exact ihl.append (level rfl (level rfl ihr))
  | ended _ _ ihl ihr =>
    rw [outlineOf_append]
    exact ihl.append (level rfl (level rfl ihr))
  | enclosed _ ih => simpa using between ih
  | grouped _ ih => simpa using between ih
  | @called p a label _ ih =>
    have inner : Balanced (outlineOf (.fixed "(" :: a ++ [.fixed ")"])) := by simpa using between ih
    exact level (Piece.isParen_of_standsAlone (Piece.standsAlone_of_isLabel label)) inner
  | dotted label _ _ ih =>
    exact level (Piece.isParen_of_standsAlone (Piece.standsAlone_of_isLabel label)) (level rfl ih)
  | signed hm _ _ _ ih =>
    have signs : ∀ m ∈ prefixMarks, (Piece.fixed m).isParen = false := by decide
    exact level (signs _ hm) ih

/-! ## Partners -/

/-- Each opening parenthesis of precedence has its partner. -/
def Partnered (ps : List Piece) : Prop :=
  ∀ a z, ps = a ++ .groupOpen :: z → ∃ b c, z = b ++ .groupClose :: c ∧ Balanced (outlineOf b)

namespace Partnered
variable {p : Piece} {ps qs : List Piece}

theorem append (hp : Partnered ps) (hq : Partnered qs) : Partnered (ps ++ qs) := by
  intro a z h
  rcases List.append_eq_append_iff.mp h with ⟨a', rfl, right⟩ | ⟨w, rfl, rest⟩
  · exact hq a' z right
  · cases w with
    | nil => exact hq [] z rest.symm
    | cons p w =>
      obtain ⟨rfl, rfl⟩ := List.cons.inj rest
      obtain ⟨b, c, rfl, hb⟩ := hp a w rfl
      exact ⟨b, c ++ qs, by simp, hb⟩

theorem nil : Partnered [] := fun a z h => absurd (congrArg List.length h) (by simp)

theorem cons (hp : p ≠ .groupOpen) (h : Partnered ps) : Partnered (p :: ps) := by
  intro a z whole
  cases a with
  | nil => exact absurd (List.cons.inj whole).1 hp
  | cons p' a => exact h a z (List.cons.inj whole).2

theorem grouped (h : Partnered ps) (balanced : Balanced (outlineOf ps)) :
    Partnered (.groupOpen :: ps ++ [.groupClose]) := by
  intro a z whole
  cases a with
  | nil => exact ⟨ps, [], (List.cons.inj whole).2.symm, balanced⟩
  | cons p a =>
    exact h.append (.cons (p := .groupClose) Piece.noConfusion .nil) a z (List.cons.inj whole).2

end Partnered

/-- In tidy text the partner of each opening parenthesis of precedence is found. -/
theorem Tidy.partnered {ps : List Piece} (h : Tidy ps) : Partnered ps := by
  have closing {ps : List Piece} (h : Partnered ps) : Partnered (ps ++ [.fixed ")"]) :=
    h.append (.cons Piece.noConfusion .nil)
  induction h with
  | nil => exact .nil
  | one alone =>
    refine .cons ?_ .nil
    rintro rfl
    exact Bool.noConfusion alone
  | spaced _ _ ihl ihr => exact ihl.append (.cons Piece.noConfusion ihr)
  | listed _ _ ihl ihr | ended _ _ ihl ihr =>
    exact ihl.append (.cons Piece.noConfusion (.cons Piece.noConfusion ihr))
  | enclosed _ ih => exact .cons Piece.noConfusion (closing ih)
  | grouped hp ih => exact ih.grouped hp.balanced_outline
  | called label _ ih =>
    refine .cons ?_ (.cons Piece.noConfusion (closing ih))
    rintro rfl
    exact Bool.noConfusion label
  | dotted label _ _ ih =>
    refine .cons ?_ (.cons Piece.noConfusion ih)
    rintro rfl
    exact Bool.noConfusion label
  | signed _ _ _ _ ih => exact .cons Piece.noConfusion ih

/-! ## Where a pair is -/

section Pairs
variable {ps qs a b z : List Piece}

/-- A balanced part does not end after an opening parenthesis and what may follow it. -/
theorem not_balanced_open {w u : List Piece} (hp : Balanced (outlineOf (a ++ .groupOpen :: w)))
    (hw : Balanced (outlineOf (w ++ u))) : False := by
  rw [outlineOf_append] at hp hw
  have closed := hp.net_back
  have opened := hw.net_front
  rw [outlineOf_cons, Piece.outline_groupOpen, List.singleton_append, net_open] at closed
  omega

theorem pair_of_append (hp : Balanced (outlineOf ps)) (hb : Balanced (outlineOf b))
    (h : ps ++ qs = a ++ .groupOpen :: b ++ .groupClose :: z) :
    (∃ z', z = z' ++ qs ∧ ps = a ++ .groupOpen :: b ++ .groupClose :: z') ∨
      ∃ a', a = ps ++ a' ∧ qs = a' ++ .groupOpen :: b ++ .groupClose :: z := by
  rw [List.append_assoc, List.cons_append] at h
  rcases List.append_eq_append_iff.mp h with ⟨a', rfl, hq⟩ | ⟨w, rfl, hw⟩
  · exact .inr ⟨a', rfl, by rw [hq, List.append_assoc, List.cons_append]⟩
  · cases w with
    | nil => exact .inr ⟨[], by simp, by simpa using hw.symm⟩
    | cons p w =>
      obtain ⟨rfl, behind⟩ := List.cons_eq_cons.mp hw
      rcases List.append_eq_append_iff.mp behind with ⟨u, rfl, hu⟩ | ⟨u, rfl, -⟩
      · cases u with
        | nil =>
          exact (not_balanced_open (w := b) (u := []) (by simpa using hp) (by simpa using hb)).elim
        | cons p u =>
          obtain ⟨rfl, rfl⟩ := List.cons.inj hu
          exact .inl ⟨u, rfl, by simp⟩
      · exact (not_balanced_open hp hb).elim

/-- A pair between two other pieces. -/
theorem pair_of_between {p q : Piece} (hp : p ≠ .groupOpen) (hq : q ≠ .groupClose)
    (h : p :: ps ++ [q] = a ++ .groupOpen :: b ++ .groupClose :: z) :
    ∃ a' z', a = p :: a' ∧ z = z' ++ [q] ∧ ps = a' ++ .groupOpen :: b ++ .groupClose :: z' := by
  cases a with
  | nil => exact absurd (List.cons.inj h).1 hp
  | cons p' a =>
    obtain ⟨rfl, h⟩ := List.cons.inj h
    rcases List.eq_nil_or_concat z with rfl | ⟨z, q', rfl⟩
    · exact absurd (List.append_inj' h rfl).2 (by simpa using hq)
    · have h : ps ++ [q] = (a ++ .groupOpen :: b ++ .groupClose :: z) ++ [q'] := by simpa using h
      obtain ⟨rfl, last⟩ := List.append_inj' h rfl
      cases last
      exact ⟨a, z, rfl, by simp, rfl⟩

/-- A pair in a part between parentheses of precedence is these or inside them. -/
theorem pair_of_grouped (hp : Balanced (outlineOf ps)) (hb : Balanced (outlineOf b))
    (h : .groupOpen :: ps ++ [.groupClose] = a ++ .groupOpen :: b ++ .groupClose :: z) :
    (a = [] ∧ z = [] ∧ ps = b) ∨
      ∃ a' z', a = .groupOpen :: a' ∧ z = z' ++ [.groupClose] ∧
        ps = a' ++ .groupOpen :: b ++ .groupClose :: z' := by
  cases a with
  | nil =>
    have h : ps ++ [.groupClose] = b ++ .groupClose :: z := (List.cons.inj h).2
    rcases List.append_eq_append_iff.mp h with ⟨w, rfl, hw⟩ | ⟨w, rfl, hw⟩
    · cases w with
      | nil => exact .inl ⟨rfl, (List.cons.inj hw).2.symm, (List.append_nil ps).symm⟩
      | cons p w => exact absurd (congrArg List.length hw) (by simp)
    · cases w with
      | nil => exact .inl ⟨rfl, (List.cons.inj hw).2, List.append_nil b⟩
      | cons p w =>
        obtain ⟨rfl, -⟩ := List.cons.inj hw
        have inside : Balanced ((outlineOf b ++ [.plain ')']) ++ outlineOf w) := by simpa using hp
        have opened := inside.net_front
        rw [net_append, hb.closed] at opened
        exact absurd opened (by decide)
  | cons p a =>
    obtain ⟨rfl, h⟩ := List.cons.inj h
    rcases List.eq_nil_or_concat z with rfl | ⟨z, q, rfl⟩
    · have h : ps ++ [.groupClose] = (a ++ .groupOpen :: b) ++ [.groupClose] := by simpa using h
      obtain ⟨rfl, -⟩ := List.append_inj' h rfl
      exact (not_balanced_open (u := []) hp (by simpa using hb)).elim
    · have h : ps ++ [.groupClose] = (a ++ .groupOpen :: b ++ .groupClose :: z) ++ [q] := by
        simpa using h
      obtain ⟨rfl, last⟩ := List.append_inj' h rfl
      cases last
      exact .inr ⟨a, z, rfl, by simp, rfl⟩

end Pairs

end SqliteSyntax
