import SqliteSyntax.Proofs.Rules.Shape

/-! # Building finished statements

A finished statement is built as it is or not at all. It is built exactly when every statement inside
is of sound shape and no `RAISE` stands outside of triggers, which holds of every statement that keeps
all rules. The converse fails: the rules that are not of the shape are not read. -/
namespace SqliteSyntax
set_option autoImplicit false

/-! ## Sound statements are of sound shape -/

namespace Node.SoundThroughout

theorem here {n : Node} (h : n.SoundThroughout) : n.Sound := h n .refl

theorem part {m n : Node} (h : n.SoundThroughout) (hm : m ∈ n.parts) : m.SoundThroughout :=
  (Node.soundThroughout_iff.mp h).2 m hm

theorem inside {m n : Node} (h : n.SoundThroughout) (hm : Inside m n) : m.SoundThroughout :=
  fun x hx => h x (Relation.ReflTransGen.trans hx hm)

theorem query_shape {q : Select} (h : (Node.query q).SoundThroughout) : q.ShapeSound := by
  refine ⟨h.here.offset, fun b hb => ?_⟩
  have hpart : .body b ∈ (Node.query q).parts := by
    simp only [Node.parts, Select.parts, List.mem_append]
    exact .inl (.inl (.inl (.inr (List.mem_map_of_mem hb))))
  exact (h.part hpart).here

end Node.SoundThroughout

theorem Statement.query_mem_parts {s : Statement} {q : Select} (hq : q ∈ s.source?) :
    .query q ∈ s.parts := by
  cases s with
  | insert i =>
    obtain ⟨w, verb, table, asName, columns, source, upserts, returning⟩ := i
    cases source with
    | select q' =>
      cases hq
      simp [parts, Insert.parts, InsertSource.parts]
    | _ => cases hq
  | createTable t =>
    obtain ⟨temporary, ifNotExists, name, body⟩ := t
    cases body with
    | asSelect q' =>
      cases hq
      exact List.mem_singleton.mpr rfl
    | definitions columns constraints withoutRowid strict => cases hq
  | createView v =>
    cases hq
    exact List.mem_singleton.mpr rfl
  | _ => cases hq

theorem Node.SoundThroughout.statement_shape {s : Statement}
    (h : (Node.statement s).SoundThroughout) : s.ShapeSound := by
  refine ⟨?_, fun q hq => (h.part (Statement.query_mem_parts hq)).query_shape⟩
  have own := h.here
  cases s with
  | select q =>
    exact (h.part (m := .query q) (List.mem_singleton.mpr rfl)).query_shape
  | insert i =>
    obtain ⟨w, verb, table, asName, columns, source, upserts, returning⟩ := i
    cases source with
    | values rows => exact (Insert.Sound.source own).1
    | _ => trivial
  | update u => exact (Update.Sound.assignments own).1
  | createTable t =>
    obtain ⟨temporary, ifNotExists, name, body⟩ := t
    cases body with
    | definitions columns constraints withoutRowid strict =>
      exact (CreateTable.Sound.body own).1
    | asSelect q => trivial
  | createIndex i => exact own
  | createTrigger header steps => exact own.1
  | explain plan s => exact own
  | _ => trivial

/-! ## The build -/

theorem Draft.build_eq_ok {d : Draft} {s : Statement} :
    d.build = .ok s ↔ d.finish = .ok s ∧ ¬ s.HasPlainRaise := by
  rw [← Statement.containsRaise_iff, build, bind_eq_ok]
  constructor
  · rintro ⟨t, ht, h⟩
    cases hr : t.containsRaise with
    | true => simp [hr] at h
    | false =>
      rw [hr, if_neg Bool.false_ne_true, pure_eq_ok] at h
      subst h
      exact ⟨ht, by simp [hr]⟩
  · rintro ⟨hs, hr⟩
    exact ⟨s, hs, by rw [if_neg hr, pure_eq_ok]⟩

theorem Draft.finish_finished {s t : Statement} :
    (Draft.finished s).finish = .ok t ↔ s.checkShape = .ok () ∧ s = t := by
  rw [finish, bind_eq_ok]
  constructor
  · rintro ⟨u, hu, ht⟩
    exact ⟨orRefuse_eq_ok.mp hu, pure_eq_ok.mp ht⟩
  · rintro ⟨hs, ht⟩
    exact ⟨(), orRefuse_eq_ok.mpr hs, pure_eq_ok.mpr ht⟩

theorem Draft.build_finished {s t : Statement} :
    (Draft.finished s).build = .ok t ↔
      s = t ∧ (∀ u, Inside (.statement u) (.statement s) → u.ShapeSound) ∧ ¬ s.HasPlainRaise := by
  rw [build_eq_ok, finish_finished, Statement.checkShape_iff]
  constructor
  · rintro ⟨⟨shape, rfl⟩, raise⟩
    exact ⟨rfl, shape, raise⟩
  · rintro ⟨rfl, shape, raise⟩
    exact ⟨⟨shape, rfl⟩, raise⟩

/-- A statement that keeps all rules at every depth is built as it is. -/
theorem Draft.build_finished_of_sound {s : Statement} (h : (Node.statement s).SoundThroughout)
    (raise : ¬ s.HasPlainRaise) : (Draft.finished s).build = .ok s :=
  build_finished.mpr ⟨rfl, fun _ hu => (h.inside hu).statement_shape, raise⟩

/-- The statement is built as it is. -/
def Statement.Passes (s : Statement) : Prop := (Draft.finished s).build = .ok s

/-- What is built of a finished statement is the statement itself, and it passes exactly when every
statement inside is of sound shape and no `RAISE` stands outside of triggers. A statement that keeps
all rules passes. -/
theorem Statement.passes_iff_shape (s : Statement) :
    (∀ t, (Draft.finished s).build = .ok t → t = s) ∧
    (s.Passes ↔
      (∀ u, Inside (.statement u) (.statement s) → u.ShapeSound) ∧ ¬ s.HasPlainRaise) ∧
    ((Node.statement s).SoundThroughout → ¬ s.HasPlainRaise → s.Passes) := by
  refine ⟨fun t ht => ?_, ?_, Draft.build_finished_of_sound⟩
  · exact (Draft.build_finished.mp ht).1.symm
  · rw [Passes, Draft.build_finished]
    exact and_iff_right rfl

/-- A step that updates a tuple of columns. -/
theorem Statement.passes_of_sound_step :
    let step : Statement := .update ⟨none, none, .ofName (.unqualified "t"),
      [⟨["a", "b"], .row [.named "c", .named "d"]⟩], none, none, [], [], none, none⟩
    let header : TriggerHeader :=
      ⟨false, false, .unqualified "r", none, .delete, "t", false, none⟩
    (Statement.createTrigger header [step]).Passes := by
  intro step header
  have value (column : String) : (Node.expr (.named column)).SoundThroughout :=
    Node.soundThroughout_iff.mpr ⟨trivial, .nil⟩
  have stepSound : (Node.statement step).SoundThroughout := by
    refine Node.soundThroughout_iff.mpr ⟨⟨?_, ⟨by simp, by simp⟩, ?_, ?_⟩, ?_⟩
    · simp [WithListed]
    · simp [OrderLimited]
    · simp [OffsetLimited]
    · have row := Node.soundThroughout_iff (n := .expr (.row [.named "c", .named "d"]))
      simp [Node.parts, Statement.parts, Update.parts, step, withParts, assignmentParts,
        optionParts, columnParts, termParts, row, Expr.parts, value, Node.Sound, Expr.Sound]
  have sound : (Node.statement (.createTrigger header [step])).SoundThroughout := by
    refine Node.soundThroughout_iff.mpr ⟨⟨by simp, ?_⟩, ?_⟩
    · exact List.forall_mem_singleton.mpr rfl
    · simp [Node.parts, Statement.parts, optionParts, header, stepSound]
  have raise : ¬ (Statement.createTrigger header [step]).HasPlainRaise := by
    rw [← containsRaise_iff]
    decide
  exact (passes_iff_shape _).2.2 sound raise

/-! ## Rules that are not read -/

namespace Sample

def insertion (columns : List String) (upserts : List Upsert) : Insert :=
  ⟨none, .insert, .unqualified "t", none, columns, .values [[.named "x"]], upserts, []⟩

def modification (assigned : List String) (orderBy : List OrderingTerm) (offset : Option Expr) :
    Update :=
  ⟨none, none, .ofName (.unqualified "t"), [⟨assigned, .named "x"⟩], none, none, [], orderBy, none,
    offset⟩

def deletion (orderBy : List OrderingTerm) (offset : Option Expr) : Delete :=
  ⟨none, .ofName (.unqualified "t"), none, [], orderBy, none, offset⟩

def table (temporary : Bool) (schema : Option String) (constraints : List TableConstraint)
    (withoutRowid : Bool) : CreateTable :=
  ⟨temporary, false, ⟨schema, "t"⟩, .definitions [.start "a"] constraints withoutRowid false⟩

def keyColumn : ColumnDef := (ColumnDef.start "a").constrained none (.primaryKey none none false)

/-- A trigger with one step. -/
def trigger (step : Statement) : Statement :=
  .createTrigger ⟨false, false, .unqualified "r", none, .delete, "t", false, none⟩ [step]

/-- A query whose only result column is another query. -/
def around (q : Select) : Statement :=
  .select (.ofBody (.core (.ofColumns false [.expr (.subquery q) none])))

theorem inside_around (q : Select) : Inside (.query q) (.statement (around q)) := by
  have hquery : Node.query q ∈ (Node.expr (.subquery q)).parts := by simp [Node.parts, Expr.parts]
  let body : SelectBody := .core (.ofColumns false [.expr (.subquery q) none])
  have hexpr : Node.expr (.subquery q) ∈ (Node.body body).parts := by
    simp [Node.parts, SelectBody.parts, columnParts, SelectCore.ofColumns, body]
  have hbody : Node.body body ∈ (Node.query (.ofBody body)).parts := by
    simp [Node.parts, Select.parts, Select.bodies, Select.ofBody]
  have htop : Node.query (.ofBody body) ∈ (Node.statement (around q)).parts := by
    simp [Node.parts, Statement.parts, around, body]
  exact .head hquery (.head hexpr (.head hbody (.single htop)))

end Sample

open Sample in
/-- Statements that break a rule and pass: a row that does not fit the column list, two clauses
without a target, empty lists of assignments and of assigned columns, bounds without a limit, a table
without row numbers and without a key, a temporary table in another schema, keys on no columns, an
added key, a step that cannot be a step, and queries of unsound shape below an expression. -/
theorem Statement.broken_rules_pass :
    (¬ RowsFit ["a", "b"] [[.named "x"]] ∧ Passes (.insert (insertion ["a", "b"] []))) ∧
    (¬ OnlyLastTargetless [⟨none, .nothing⟩, ⟨none, .nothing⟩] ∧
      Passes (.insert (insertion [] [⟨none, .nothing⟩, ⟨none, .nothing⟩]))) ∧
    (¬ SetSound [] ∧ Passes (.insert (insertion [] [⟨none, .update [] none⟩]))) ∧
    (¬ SetSound (modification [] [] none).assignments ∧ Passes (.update (modification [] [] none))) ∧
    (¬ OrderLimited [.ofExpr (.named "x")] none ∧
      Passes (.update (modification ["a"] [.ofExpr (.named "x")] none)) ∧
      Passes (.delete (deletion [.ofExpr (.named "x")] none))) ∧
    (¬ OffsetLimited none (some (.named "x")) ∧
      Passes (.update (modification ["a"] [] (some (.named "x")))) ∧
      Passes (.delete (deletion [] (some (.named "x"))))) ∧
    (¬ HasPrimaryKey [.start "a"] [] ∧ Passes (.createTable (table false none [] true))) ∧
    (sameIgnoringCase "main" "temp" = false ∧
      Passes (.createTable (table true (some "main") [] false))) ∧
    (∀ rule ∈ [.primaryKey [] none, .unique [] none, .foreignKey [] (.toTable "p")],
      ¬ TableRule.Sound rule ∧ Passes (.createTable (table false none [⟨none, rule⟩] false))) ∧
    (keyColumn.isPrimaryKey = true ∧
      Passes (.alterTable (.unqualified "t") (.addColumn keyColumn))) ∧
    (checkStep .commit ≠ .ok () ∧ Passes (trigger .commit)) ∧
    (∀ q ∈ [⟨none, .values [[.named "x"]], [], [], none, some (.named "x")⟩,
        .ofBody (.values []), .ofBody (.values [[.named "x"], []])],
      ¬ q.ShapeSound ∧ Inside (.query q) (.statement (around q)) ∧ Passes (around q)) := by
  refine ⟨⟨?_, rfl⟩, ⟨?_, rfl⟩, ⟨?_, rfl⟩, ⟨?_, rfl⟩, ⟨?_, rfl, rfl⟩, ⟨?_, rfl, rfl⟩, ⟨?_, rfl⟩,
    ⟨?_, rfl⟩, ?_, ⟨rfl, rfl⟩, ⟨?_, rfl⟩, ?_⟩
  · simp [RowsFit]
  · simp [OnlyLastTargetless]
  · simp [SetSound]
  · simp [SetSound, modification]
  · simp [OrderLimited]
  · simp [OffsetLimited]
  · simp [HasPrimaryKey, ColumnDef.start, ColumnDef.isPrimaryKey]
  · decide
  · refine List.forall_mem_cons.mpr ⟨⟨fun h => h rfl, rfl⟩, ?_⟩
    exact List.forall_mem_cons.mpr ⟨⟨fun h => h rfl, rfl⟩,
      List.forall_mem_singleton.mpr ⟨fun h => h rfl, rfl⟩⟩
  · simp [checkStep]
  · refine List.forall_mem_cons.mpr ⟨⟨fun h => ?_, inside_around _, rfl⟩, ?_⟩
    · exact Bool.noConfusion (h.offset rfl)
    refine List.forall_mem_cons.mpr ⟨⟨fun h => ?_, inside_around _, rfl⟩, ?_⟩
    · exact (h.bodies _ (.head _)).1 rfl
    refine List.forall_mem_singleton.mpr ⟨fun h => ?_, inside_around _, rfl⟩
    obtain ⟨-, width, hpos, hall⟩ := h.bodies _ (.head _)
    have empty : 0 = width := hall [] (by simp)
    omega

end SqliteSyntax
