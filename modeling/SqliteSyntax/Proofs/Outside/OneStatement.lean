import SqliteSyntax.Proofs.Outside.Parentheses
import SqliteSyntax.Proofs.Outside.Semicolons
import SqliteSyntax.Proofs.Quotes.Closed
import SqliteSyntax.Proofs.Rules.Shape

/-! # Outside of quotes the text is one statement

Whatever its names and values, a statement opens no comment, its parentheses balance, and its only
semicolons end the steps of triggers. What it gives as it stands must have none of the characters that
break text up. -/
namespace SqliteSyntax
set_option autoImplicit false

/-! ## Semicolons of tidy text -/

theorem count_semicolon_marksOf {ps : List Piece}
    (h : ∀ p ∈ ps, p.marks.count (.plain ';') = [p].count (.fixed ";")) :
    (marksOf ps).count (.plain ';') = ps.count (.fixed ";") := by
  induction ps with
  | nil => rfl
  | cons p rest ih =>
    have here := h p (List.mem_cons_self ..)
    have below := ih fun q hq => h q (List.mem_cons_of_mem p hq)
    rw [marksOf_cons, List.count_append, here, below, ← List.count_append, List.singleton_append]

/-- A semicolon outside of quotes is one that the grammar wrote. -/
theorem Tidy.count_semicolon {ps : List Piece} (h : Tidy ps)
    (given : ∀ v, Piece.verbatim v ∈ ps → Unbroken v.toList) :
    (marksOf ps).count (.plain ';') = ps.count (.fixed ";") := by
  have each : ∀ p ∈ ps, (∀ v, p = .verbatim v → Unbroken v.toList) →
      p.marks.count (.plain ';') = [p].count (.fixed ";") := by
    refine h.forall_mem (fun p alone given => ?_) (fun _ => by decide) (fun _ => by decide)
      (fun _ => by decide) fun t ht _ => ?_
    · have none : Mark.plain ';' ∉ p.marks := Piece.plain_not_mem_marks alone given (by decide)
      have other : p ≠ .fixed ";" := by
        rintro rfl
        exact absurd alone (by decide)
      rw [List.count_eq_zero.mpr none, List.count_cons_of_ne other, List.count_nil]
    · have marks : ∀ t ∈ punctuation,
          (Piece.fixed t).marks.count (.plain ';') = [Piece.fixed t].count (.fixed ";") := by decide
      exact marks t ht
  exact count_semicolon_marksOf fun p hp => each p hp fun v hv => given v (hv ▸ hp)

/-! ## Statements -/

namespace Statement

/-- No text that the statement gives as it stands has a character that breaks text up. -/
def VerbatimUnbroken (s : Statement) : Prop :=
  ∀ v, Leaf.verbatim v ∈ s.leaves → Unbroken v.toList

theorem unbroken_of_verbatim {s : Statement} (h : s.VerbatimUnbroken) {v : String}
    (hv : .verbatim v ∈ s.pieces) : Unbroken v.toList := by
  refine h v ?_
  rw [← s.leavesOf_pieces]
  exact (verbatim_mem_iff v _).mp hv

/-- Steps are counted only where a trigger is. -/
theorem stepCount_eq_zero {s : Statement}
    (h : ∀ header steps, ¬ Inside (.statement (.createTrigger header steps)) (.statement s)) :
    s.stepCount = 0 := by
  induction s using inner_induction with
  | step s ih =>
    cases s with
    | createTrigger header steps => exact absurd .refl (h header steps)
    | explain plan t =>
      have inside : t ∈ (explain plan t).inner := List.mem_singleton.mpr rfl
      rw [stepCount]
      exact ih t inside fun header steps hin =>
        h header steps (inside_iff.mpr (.inr ⟨t, inside, hin⟩))
    | _ => rfl

/-- Outside of quotes a statement opens no comment, each of its parentheses closes what was opened,
and it has one semicolon for each step of a trigger, so none at all without a trigger. -/
theorem one_statement_outside_quotes (s : Statement) (unbroken : s.VerbatimUnbroken) :
    ∃ marks, scan .outside s.sql.toList = some marks ∧
      ¬ [.plain '-', .plain '-'] <:+: marks ∧ ¬ [.plain '/', .plain '*'] <:+: marks ∧
      Balanced marks ∧ marks.count (.plain ';') = s.stepCount ∧
      ((∀ header steps, ¬ Inside (.statement (.createTrigger header steps)) (.statement s)) →
        marks.count (.plain ';') = 0) := by
  have given : ∀ v, Piece.verbatim v ∈ s.pieces → Unbroken v.toList :=
    fun v hv => unbroken_of_verbatim unbroken hv
  have comments := s.tidy.noComment given
  have semicolons : (marksOf s.pieces).count (.plain ';') = s.stepCount :=
    (s.tidy.count_semicolon given).trans s.count_semicolon
  refine ⟨marksOf s.pieces, s.scan_sql fun v hv => (unbroken v hv).quoteFree,
    comments.not_infix (by decide), comments.not_infix (by decide), s.tidy.balanced given,
    semicolons, fun none => ?_⟩
  rw [semicolons]
  exact stepCount_eq_zero none

/-- Signs before negative numbers, a difference of them, and values that would end the statement if
they were not quoted, in the two steps of a trigger. -/
theorem one_statement_in_trigger :
    let change : Update := ⟨none, none, .ofName (.unqualified "t"),
      [⟨["a"], .unary .neg (.unary .plus (.binary .sub (.literal (.integer (-5)))
        (.unary .neg (.literal (.integer (-3))))))⟩], none, none, [], [], none, none⟩
    let query : Select := .ofBody (.core (.ofColumns false
      [.expr (.cast (.literal (.text "'); DROP TABLE t; -- /*")) "DOUBLE PRECISION") (some "--(")]))
    let trigger : Statement := .createTrigger
      ⟨false, false, .unqualified "r;", none, .delete, "t", false, none⟩ [.update change, .select query]
    trigger.VerbatimUnbroken ∧
      ∃ marks, scan .outside (explain false trigger).sql.toList = some marks ∧
        ¬ [.plain '-', .plain '-'] <:+: marks ∧ ¬ [.plain '/', .plain '*'] <:+: marks ∧
        Balanced marks ∧ marks.count (.plain ';') = 2 := by
  intro change query trigger
  have contents : (explain false trigger).leaves = [.name "r;", .name "t", .name "t", .name "a",
      .text "'); DROP TABLE t; -- /*", .verbatim "DOUBLE PRECISION", .name "--("] := rfl
  have unbroken : (explain false trigger).VerbatimUnbroken := by
    intro v hv
    have only : v = "DOUBLE PRECISION" := by simpa [contents] using hv
    rw [only]
    decide
  obtain ⟨marks, scanned, line, block, balanced, semicolons, -⟩ :=
    one_statement_outside_quotes (explain false trigger) unbroken
  exact ⟨unbroken, marks, scanned, line, block, balanced, semicolons⟩

end Statement
end SqliteSyntax
