import SqliteSyntax.Proofs.Nodes.Raise
import SqliteSyntax.Proofs.Rules.Accepted

/-! # Rules that finished statements are checked for

`Statement.ShapeSound` lists the rules that the check of a finished statement reads: those of the
statement itself and those of the query that it takes its rows from. The check passes through steps
and explained statements and looks into no expression, so it decides these rules at every statement
inside (`Statement.checkShape_iff`) and no others. -/
namespace SqliteSyntax
set_option autoImplicit false

/-! ## Statements in statements -/

/-- The statements directly in a statement: the steps of a trigger, or what is explained. -/
def Statement.inner : Statement → List Statement
  | .createTrigger _ steps => steps
  | .explain _ s => [s]
  | _ => []

namespace Statement

theorem mem_inner_iff {s u : Statement} : .statement u ∈ s.parts ↔ u ∈ s.inner := by
  constructor
  · intro h
    cases trigger : (Node.statement s).isTrigger with
    | true =>
      cases s with
      | createTrigger header steps => simpa [parts, inner, optionParts] using h
      | _ => exact Bool.noConfusion trigger
    | false =>
      obtain ⟨p, hp⟩ := Node.eq_explain_of_statement_mem (n := .statement s) h trigger
      cases hp
      exact List.mem_singleton.mpr rfl
  · intro h
    cases s with
    | createTrigger header steps => simpa [parts, inner, optionParts] using h
    | explain p t => simpa [parts, inner] using h
    | _ => exact absurd h List.not_mem_nil

/-- A statement inside another is reached by going from statement to statement. -/
theorem inside_iff {s t : Statement} :
    Inside (.statement t) (.statement s) ↔
      t = s ∨ ∃ u ∈ s.inner, Inside (.statement t) (.statement u) := by
  constructor
  · intro h
    rcases Relation.ReflTransGen.cases_tail h with heq | ⟨p, htp, hp⟩
    · cases heq
      exact .inl rfl
    · cases p with
      | statement u => exact .inr ⟨u, mem_inner_iff.mp hp, htp⟩
      | _ => exact Bool.noConfusion (Node.isStatement_of_inside htp rfl)
  · rintro (rfl | ⟨u, hu, htu⟩)
    · exact .refl
    · exact Relation.ReflTransGen.tail htu (mem_inner_iff.mpr hu)

/-- What holds of a statement as soon as it holds of the statements directly in it holds of every
statement. -/
theorem inner_induction {P : Statement → Prop} (step : ∀ s, (∀ u ∈ s.inner, P u) → P s)
    (s : Statement) : P s := by
  have all : ∀ n : Node, ∀ s, n = .statement s → P s := by
    intro n
    induction n using Node.induction with
    | step n ih =>
      rintro s rfl
      exact step s fun u hu => ih (.statement u) (mem_inner_iff.mpr hu) u rfl
  exact all (.statement s) s rfl

/-- A rule of every statement inside is a rule of the statement and of those directly in it. -/
theorem forall_inside_iff {P : Statement → Prop} {s : Statement} :
    (∀ t, Inside (.statement t) (.statement s) → P t) ↔
      P s ∧ ∀ u ∈ s.inner, ∀ t, Inside (.statement t) (.statement u) → P t := by
  constructor
  · intro h
    exact ⟨h s .refl, fun u hu t ht => h t (inside_iff.mpr (.inr ⟨u, hu, ht⟩))⟩
  · rintro ⟨here, below⟩ t ht
    rcases inside_iff.mp ht with rfl | ⟨u, hu, htu⟩
    · exact here
    · exact below u hu t htu

end Statement

/-! ## Rules of the shape -/

/-- The rules of a query's own bounds and rows. -/
structure Select.ShapeSound (q : Select) : Prop where
  offset : OffsetLimited q.limit q.offset
  bodies : ∀ b ∈ q.bodies, b.Sound

namespace Statement

/-- The query that a statement takes its rows from, which was handed to it whole. -/
def source? : Statement → Option Select
  | .insert ⟨_, _, _, _, _, .select q, _, _⟩ => some q
  | .createTable ⟨_, _, _, .asSelect q⟩ => some q
  | .createView v => some v.query
  | _ => none

/-- The rules of the shape that a statement keeps by itself, whatever query it was given. -/
def OwnShape : Statement → Prop
  | .select q => q.ShapeSound
  | .insert ⟨_, _, _, _, _, .values rows, _, _⟩ => EvenRows rows
  | .update u => u.assignments ≠ []
  | .createTable ⟨_, _, _, .definitions columns _ _ _⟩ => columns ≠ []
  | .createIndex i => i.columns ≠ []
  | .createTrigger _ steps => steps ≠ []
  | .explain _ s => s.isExplain = false
  | _ => True

/-- The rules of the shape of one statement and of the query that it was given. -/
structure ShapeSound (s : Statement) : Prop where
  own : s.OwnShape
  source : ∀ q ∈ s.source?, q.ShapeSound

end Statement

/-! ## The check decides the rules -/

theorem checkBodies_eq_ok {kind : StatementKind} {bodies : List SelectBody} :
    Shape.checkBodies kind bodies = .ok () ↔ ∀ b ∈ bodies, b.Sound := by
  induction bodies with
  | nil => simp [Shape.checkBodies]
  | cons b rest ih =>
    have here : Shape.checkBody kind b = .ok () ↔ b.Sound := by
      cases b with
      | core c => simp [Shape.checkBody, SelectBody.Sound]
      | values rows => exact checkRows_eq_ok
    rw [Shape.checkBodies, then_eq_ok, List.forall_mem_cons, here, ih]

theorem checkSelect_eq_ok {kind : StatementKind} {q : Select} :
    Shape.checkSelect kind q = .ok () ↔ q.ShapeSound := by
  have split : q.ShapeSound ↔ OffsetLimited q.limit q.offset ∧ ∀ b ∈ q.bodies, b.Sound :=
    ⟨fun h => ⟨h.offset, h.bodies⟩, fun h => ⟨h.1, h.2⟩⟩
  have bounds : OffsetLimited q.limit q.offset ↔
      (q.offset.isSome && q.limit.isNone) = false := by
    cases ho : q.offset <;> cases hl : q.limit <;> simp [OffsetLimited]
  rw [split, bounds, Shape.checkSelect]
  cases q.offset.isSome && q.limit.isNone with
  | true => simp
  | false => simpa using checkBodies_eq_ok

namespace Statement

theorem checkStepShapes_eq_ok {steps : List Statement} :
    checkStepShapes steps = .ok () ↔ ∀ u ∈ steps, u.checkShape = .ok () := by
  induction steps with
  | nil => simp [checkStepShapes]
  | cons u rest ih =>
    rw [checkStepShapes, then_eq_ok, List.forall_mem_cons, ih]

theorem shapeSound_iff_own {s : Statement} (hs : s.source? = none) : s.ShapeSound ↔ s.OwnShape := by
  refine ⟨fun h => h.own, fun h => ⟨h, fun q hq => ?_⟩⟩
  rw [hs] at hq
  cases hq

theorem shapeSound_iff_source {s : Statement} {q : Select} (hs : s.source? = some q)
    (own : s.OwnShape) : s.ShapeSound ↔ q.ShapeSound := by
  refine ⟨fun h => h.source q hs, fun h => ⟨own, fun q' hq' => ?_⟩⟩
  rw [hs] at hq'
  cases hq'
  exact h

/-- The check of one statement, those directly in it left to the check itself. -/
theorem checkShape_eq_ok {s : Statement} :
    s.checkShape = .ok () ↔ s.ShapeSound ∧ ∀ u ∈ s.inner, u.checkShape = .ok () := by
  have alone {s : Statement} (hs : s.inner = []) :
      (s.ShapeSound ∧ ∀ u ∈ s.inner, u.checkShape = .ok ()) ↔ s.ShapeSound := by
    simp [hs]
  cases s with
  | select q =>
    rw [alone rfl, shapeSound_iff_own rfl]
    exact checkSelect_eq_ok
  | insert i =>
    obtain ⟨w, verb, table, asName, columns, source, upserts, returning⟩ := i
    rw [alone rfl]
    cases source with
    | values rows =>
      rw [shapeSound_iff_own rfl]
      exact checkRows_eq_ok
    | select q =>
      exact checkSelect_eq_ok.trans (shapeSound_iff_source (by rfl) (by trivial)).symm
    | defaultValues =>
      rw [shapeSound_iff_own rfl]
      simp [checkShape, Shape.checkInsertSource, OwnShape]
  | update u =>
    rw [alone rfl, shapeSound_iff_own rfl]
    cases h : u.assignments <;> simp [checkShape, OwnShape, h]
  | createTable t =>
    obtain ⟨temporary, ifNotExists, name, body⟩ := t
    rw [alone rfl]
    cases body with
    | definitions columns constraints withoutRowid strict =>
      rw [shapeSound_iff_own rfl]
      cases columns <;> simp [checkShape, Shape.checkTableBody, OwnShape]
    | asSelect q =>
      exact checkSelect_eq_ok.trans (shapeSound_iff_source (by rfl) (by trivial)).symm
  | createIndex i =>
    rw [alone rfl, shapeSound_iff_own rfl]
    cases h : i.columns <;> simp [checkShape, OwnShape, h]
  | createView v =>
    rw [alone rfl]
    exact checkSelect_eq_ok.trans (shapeSound_iff_source (by rfl) (by trivial)).symm
  | createTrigger header steps =>
    rw [shapeSound_iff_own rfl, ← checkStepShapes_eq_ok]
    cases steps <;> simp [checkShape, OwnShape, inner]
  | explain plan s =>
    rw [shapeSound_iff_own rfl]
    cases h : s.isExplain <;> simp [checkShape, OwnShape, inner, h]
  | _ =>
    rw [alone rfl, shapeSound_iff_own rfl]
    simp [checkShape, OwnShape]

/-- The check accepts a statement exactly when every statement inside is of sound shape. -/
theorem checkShape_iff {s : Statement} :
    s.checkShape = .ok () ↔ ∀ t, Inside (.statement t) (.statement s) → t.ShapeSound := by
  induction s using inner_induction with
  | step s ih =>
    rw [checkShape_eq_ok, forall_inside_iff]
    refine and_congr_right fun _ => forall₂_congr fun u hu => ih u hu

end Statement
end SqliteSyntax
