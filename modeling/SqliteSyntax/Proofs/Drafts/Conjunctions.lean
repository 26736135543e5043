import SqliteSyntax.Proofs.Drafts.Compounds

/-! # Conditions joined by `AND`

Conditions that are given to one clause are joined from the left. The operators on the left side of
such a chain need no parentheses, so the text is that of the conditions one after another, the first as a
left operand and every later one as a right operand of `AND`. In the logic of three values the chain
says that all conditions hold. -/
namespace SqliteSyntax
set_option autoImplicit false

/-! ## Three values -/

/-- What a condition may be in a row. -/
inductive Truth where
  | true
  | false
  | null
deriving DecidableEq

namespace Truth

/-- Falsehood decides, whatever the other side is. -/
def and : Truth → Truth → Truth
  | .false, _ | _, .false => .false
  | .true, .true => .true
  | _, _ => .null

theorem and_eq_true {a b : Truth} : a.and b = .true ↔ a = .true ∧ b = .true := by
  cases a <;> cases b <;> decide

end Truth

namespace Expr

end Expr

/-! ## Filters -/

end SqliteSyntax
