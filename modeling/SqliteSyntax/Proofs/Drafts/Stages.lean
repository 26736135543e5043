import Mathlib.Data.List.Induction
import SqliteSyntax.Proofs.Rules.Bounds

/-! # What the stage of a draft says

A run of calls is followed call by call (`runCalls_induction`). The stage of a query says which clauses
are still open: in a stage that takes the clauses of a `SELECT` the first body is one, before a set
operator there are no further bodies, and order, limit and offset are absent until they are given
(`SelectDraft.Staged`). -/
namespace SqliteSyntax
set_option autoImplicit false

/-! ## Runs of calls -/

section Runs
variable {σ κ : Type} {apply : σ → κ → Except Failure σ} {d e : σ}

theorem runCalls_nil_eq_ok : runCalls apply d [] = .ok e ↔ d = e := pure_eq_ok

theorem runCalls_cons_eq_ok {call : κ} {rest : List κ} :
    runCalls apply d (call :: rest) = .ok e ↔
      ∃ next, apply d call = .ok next ∧ runCalls apply next rest = .ok e :=
  bind_eq_ok

theorem runCalls_append_eq_ok {front back : List κ} :
    runCalls apply d (front ++ back) = .ok e ↔
      ∃ next, runCalls apply d front = .ok next ∧ runCalls apply next back = .ok e := by
  rw [runCalls, List.foldlM_append]
  exact bind_eq_ok

theorem runCalls_concat_eq_ok {front : List κ} {call : κ} :
    runCalls apply d (front ++ [call]) = .ok e ↔
      ∃ next, runCalls apply d front = .ok next ∧ apply next call = .ok e := by
  simp only [runCalls_append_eq_ok, runCalls_cons_eq_ok, runCalls_nil_eq_ok, exists_eq_right]

/-- What holds of the first draft and no calls, and is kept by a call after any others, holds after a
run. -/
theorem runCalls_induction {P : List κ → σ → Prop} {calls : List κ} (start : P [] d)
    (step : ∀ calls next call e, P calls next → apply next call = .ok e → P (calls ++ [call]) e)
    (h : runCalls apply d calls = .ok e) : P calls e := by
  induction calls using List.reverseRecOn generalizing e with
  | nil => exact runCalls_nil_eq_ok.mp h ▸ start
  | append_singleton front call ih =>
    obtain ⟨next, hfront, hcall⟩ := runCalls_concat_eq_ok.mp h
    exact step front next call e (ih hfront) hcall

end Runs

/-! ## Queries -/

namespace SelectStage

/-- The stages in which a set operator may follow. -/
def isOpen : SelectStage → Bool
  | .core | .values | .compound => true
  | .ordered | .limited | .closed => false

/-- The stages with a single body. -/
def isSingle : SelectStage → Bool
  | .core | .values => true
  | .compound | .ordered | .limited | .closed => false

/-- The stages before a limit. -/
def isUnlimited : SelectStage → Bool
  | .core | .values | .compound | .ordered => true
  | .limited | .closed => false

end SelectStage

/-- The clauses of a `SELECT` itself. -/
def SelectClause.isOwn : SelectClause → Bool
  | .distinct | .source | .filter | .groupBy | .having => true
  | .combine | .orderBy | .thenBy | .limit | .offset => false

/-- What the stage of a draft says of its query. -/
structure SelectDraft.Staged (d : SelectDraft) : Prop where
  core : d.stage = .core → ∃ c, d.query.body = .core c
  single : d.stage.isSingle = true → d.query.compounds = []
  unordered : d.stage.isOpen = true → d.query.orderBy = []
  unlimited : d.stage.isUnlimited = true → d.query.limit = none
  noOffset : d.stage ≠ .closed → d.query.offset = none

namespace SelectDraft

theorem stages_of_own {stage next : SelectStage} {clause : SelectClause} (hc : clause.isOwn = true)
    (h : stage.after? clause = some next) : stage = .core ∧ next = .core := by
  cases clause <;> first | exact Bool.noConfusion hc | skip
  all_goals
    cases stage <;> cases h
    exact ⟨rfl, rfl⟩

theorem stages_of_combine {stage next : SelectStage} (h : stage.after? .combine = some next) :
    stage.isOpen = true ∧ next = .compound := by
  cases stage <;> cases h <;> exact ⟨rfl, rfl⟩

theorem stages_of_order {stage next : SelectStage} {clause : SelectClause}
    (hc : clause = .orderBy ∨ clause = .thenBy) (h : stage.after? clause = some next) :
    stage.isUnlimited = true ∧ next = .ordered := by
  rcases hc with rfl | rfl <;> cases stage <;> cases h <;> exact ⟨rfl, rfl⟩

theorem stages_of_limit {stage next : SelectStage} (h : stage.after? .limit = some next) :
    stage.isUnlimited = true ∧ next = .limited := by
  cases stage <;> cases h <;> exact ⟨rfl, rfl⟩

theorem stages_of_offset {stage next : SelectStage} (h : stage.after? .offset = some next) :
    stage = .limited ∧ next = .closed := by
  cases stage <;> cases h
  exact ⟨rfl, rfl⟩

end SelectDraft

theorem SelectStage.ne_closed_of_isUnlimited {stage : SelectStage} (h : stage.isUnlimited = true) :
    stage ≠ .closed := by
  rintro rfl
  exact Bool.noConfusion h

theorem SelectStage.isUnlimited_of_isOpen {stage : SelectStage} (h : stage.isOpen = true) :
    stage.isUnlimited = true := by
  cases stage <;> first | rfl | exact Bool.noConfusion h

namespace SelectDraft.Staged
variable {d e : SelectDraft}

theorem select (w : Option WithClause) (distinct : Bool) (columns : List ResultColumn) :
    (SelectDraft.select w distinct columns).Staged :=
  ⟨fun _ => ⟨_, rfl⟩, fun _ => rfl, fun _ => rfl, fun _ => rfl, fun _ => rfl⟩

theorem values {w : Option WithClause} {rows : List (List Expr)}
    (h : SelectDraft.values w rows = .ok d) : d.Staged := by
  obtain ⟨⟨⟩, -, hd⟩ := bind_eq_ok.mp h
  cases pure_eq_ok.mp hd
  exact ⟨fun h => SelectStage.noConfusion h, fun _ => rfl, fun _ => rfl, fun _ => rfl, fun _ => rfl⟩

/-- In the stage that takes the clauses of a `SELECT` none of them is dropped. -/
theorem editCore (h : d.Staged) (hs : d.stage = .core) (f : SelectCore → SelectCore) :
    ∃ c, d.query.body = .core c ∧ d.query.editCore f = { d.query with body := .core (f c) } := by
  obtain ⟨c, hc⟩ := h.core hs
  exact ⟨c, hc, by rw [Select.editCore, hc]⟩

/-- Each call keeps what the stage says. -/
theorem apply {call : SelectCall} (h : d.Staged) (happ : d.apply call = .ok e) : e.Staged := by
  obtain ⟨hstage, hedit⟩ := apply_eq_ok.mp happ
  obtain ⟨stage, query⟩ := e
  have edited (f : SelectCore → SelectCore) (hs : d.stage = .core ∧ stage = .core)
      (hq : d.query.editCore f = query) : Staged ⟨stage, query⟩ := by
    obtain ⟨hd, rfl⟩ := hs
    obtain ⟨c, -, heq⟩ := h.editCore hd f
    rw [heq] at hq
    subst hq
    exact ⟨fun _ => ⟨_, rfl⟩, fun _ => h.single (by rw [hd]; rfl), fun _ => h.unordered (by rw [hd]; rfl),
      fun _ => h.unlimited (by rw [hd]; rfl), fun _ => h.noOffset (by simp [hd])⟩
  have ordered (terms : List OrderingTerm) (hs : d.stage.isUnlimited = true ∧ stage = .ordered)
      (hq : { d.query with orderBy := d.query.orderBy ++ terms } = query) :
      Staged ⟨stage, query⟩ := by
    obtain ⟨hd, rfl⟩ := hs
    subst hq
    exact ⟨fun hs => SelectStage.noConfusion hs, fun hs => Bool.noConfusion hs,
      fun hs => Bool.noConfusion hs, fun _ => h.unlimited hd,
      fun _ => h.noOffset (SelectStage.ne_closed_of_isUnlimited hd)⟩
  cases call with
  | distinct => exact edited _ (stages_of_own rfl hstage) (Except.ok.inj hedit)
  | source tree => exact edited _ (stages_of_own rfl hstage) (Except.ok.inj hedit)
  | filter condition => exact edited _ (stages_of_own rfl hstage) (Except.ok.inj hedit)
  | groupBy exprs => exact edited _ (stages_of_own rfl hstage) (Except.ok.inj hedit)
  | having condition => exact edited _ (stages_of_own rfl hstage) (Except.ok.inj hedit)
  | combine op operand =>
    obtain ⟨hd, rfl⟩ := stages_of_combine hstage
    have unlimited := SelectStage.isUnlimited_of_isOpen hd
    rw [edit] at hedit
    split at hedit
    · cases hedit
      exact ⟨fun hs => SelectStage.noConfusion hs, fun hs => Bool.noConfusion hs,
        fun _ => h.unordered hd, fun _ => h.unlimited unlimited,
        fun _ => h.noOffset (SelectStage.ne_closed_of_isUnlimited unlimited)⟩
    · cases hedit
  | orderBy terms => exact ordered terms (stages_of_order (.inl rfl) hstage) (Except.ok.inj hedit)
  | thenBy terms => exact ordered terms (stages_of_order (.inr rfl) hstage) (Except.ok.inj hedit)
  | limit count =>
    obtain ⟨hd, rfl⟩ := stages_of_limit hstage
    cases hedit
    exact ⟨fun hs => SelectStage.noConfusion hs, fun hs => Bool.noConfusion hs,
      fun hs => Bool.noConfusion hs, fun hs => Bool.noConfusion hs,
      fun _ => h.noOffset (SelectStage.ne_closed_of_isUnlimited hd)⟩
  | offset count =>
    obtain ⟨-, rfl⟩ := stages_of_offset hstage
    cases hedit
    exact ⟨fun hs => SelectStage.noConfusion hs, fun hs => Bool.noConfusion hs,
      fun hs => Bool.noConfusion hs, fun hs => Bool.noConfusion hs, fun hs => absurd rfl hs⟩

end SelectDraft.Staged

end SqliteSyntax
