import Mathlib.Data.List.Forall2
import SqliteSyntax.Proofs.Drafts.Stages
import SqliteSyntax.Proofs.Rules.Finished
import SqliteSyntax.Proofs.Rules.Regular

/-! # Steps of a built trigger

`Statement.StepLegal` says what a statement lacks that stands in a trigger. The check of a step decides
exactly this (`Statement.checkStep_eq_ok`), so a built trigger has its accepted steps in call order and
nothing else (`TriggerDraft.steps_of_build`). The check does not read an offset: a finished update or
deletion keeps one. -/
namespace SqliteSyntax
set_option autoImplicit false

/-! ## Legal steps -/

/-- A table under its bare name. -/
def TableRef.Bare (t : TableRef) : Prop := t.name.schema = none ∧ t.asName = none ∧ t.hint = none

/-- A statement that may stand in a trigger, whether or not it has an offset. -/
def Statement.StepLegal : Statement → Prop
  | .select q => q.withClause = none
  | .insert i =>
    i.withClause = none ∧ i.table.schema = none ∧ i.asName = none ∧ i.source ≠ .defaultValues ∧
      i.returning = []
  | .update u =>
    u.withClause = none ∧ u.table.Bare ∧ u.returning = [] ∧ u.orderBy = [] ∧ u.limit = none
  | .delete d =>
    d.withClause = none ∧ d.table.Bare ∧ d.returning = [] ∧ d.orderBy = [] ∧ d.limit = none
  | _ => False

/-- The offset of a change of rows. -/
def Statement.offset? : Statement → Option Expr
  | .update u => u.offset
  | .delete d => d.offset
  | _ => none

theorem TableRef.checkStepTarget_eq_ok {t : TableRef} : t.checkStepTarget = .ok () ↔ t.Bare := by
  rw [checkStepTarget, then_eq_ok, demand_eq_ok, demand_eq_ok, Bool.and_eq_true]
  simp only [Option.isNone_iff_eq_none, Bare]

theorem Insert.takesDefaults_iff {i : Insert} :
    i.takesDefaults = true ↔ i.source = .defaultValues := by
  rw [takesDefaults]
  cases i.source <;> simp

/-- The check of a step decides whether it is legal. -/
theorem Statement.checkStep_eq_ok {s : Statement} : s.checkStep = .ok () ↔ s.StepLegal := by
  cases s with
  | select q => rw [checkStep, demand_eq_ok, Option.isNone_iff_eq_none, StepLegal]
  | insert i =>
    rw [checkStep, StepLegal, ne_eq, ← i.takesDefaults_iff]
    simp only [then_eq_ok, demand_eq_ok, Bool.and_eq_true, Option.isNone_iff_eq_none,
      List.isEmpty_iff, and_assoc, Bool.not_eq_true', Bool.not_eq_true]
  | update u | delete u =>
    rw [checkStep, StepLegal]
    simp only [then_eq_ok, demand_eq_ok, TableRef.checkStepTarget_eq_ok, Bool.and_eq_true,
      Option.isNone_iff_eq_none, List.isEmpty_iff]
  | _ => simp [checkStep, StepLegal]

/-! ## Steps of a run -/

def TriggerCall.drafts : TriggerCall → List Draft
  | .step draft => [draft]
  | _ => []

namespace TriggerDraft

/-- A call adds the step that it gives, if that is legal, and no other. -/
theorem steps_of_apply {d e : TriggerDraft} {call : TriggerCall} (h : d.apply call = .ok e) :
    ∃ added, e.steps = d.steps ++ added ∧
      List.Forall₂ (fun draft s => stepOf draft = .ok s) call.drafts added := by
  cases step_of_apply h with
  | step header steps accepted => exact ⟨[_], rfl, .cons accepted .nil⟩
  | temporary | ifNotExists | fires | table | forEachRow | condition =>
    exact ⟨[], (List.append_nil _).symm, .nil⟩

theorem apply_step (header : TriggerHeader) (steps : List Statement) (draft : Draft) :
    (bound header steps).apply (.step draft) =
      (stepOf draft).map fun s => .bound header (steps ++ [s]) := by
  cases steps <;>
  · rw [apply]
    cases stepOf draft <;> rfl

/-- The steps of a run are those that its calls gave, in call order. -/
theorem steps_of_runCalls {name : QualifiedName} {calls : List TriggerCall} {d : TriggerDraft}
    (h : runCalls apply (.start name) calls = .ok d) :
    List.Forall₂ (fun draft s => stepOf draft = .ok s) (calls.flatMap TriggerCall.drafts)
      d.steps := by
  refine runCalls_induction (P := fun calls d => List.Forall₂ (fun draft s => stepOf draft = .ok s)
    (calls.flatMap TriggerCall.drafts) d.steps) .nil ?_ h
  intro calls next call e hnext happ
  obtain ⟨added, hsteps, hadded⟩ := steps_of_apply happ
  rw [hsteps, List.flatMap_append, List.flatMap_singleton]
  exact List.rel_append hnext hadded

end TriggerDraft

theorem not_offset_of_unlimited {limit offset : Option Expr} (limited : OffsetLimited limit offset)
    (unlimited : limit = none) : ¬ offset ≠ none := by
  intro hoffset
  have hlimit := limited (Option.isSome_iff_ne_none.mpr hoffset)
  rw [unlimited] at hlimit
  exact Bool.noConfusion hlimit

/-- Of the drafts whose calls kept their rules only finished ones give a step with an offset. -/
theorem Draft.finished_of_offset {d : Draft} {s : Statement} (regular : d.Regular)
    (hfinish : d.finish = .ok s) (legal : s.StepLegal) (hs : s.offset? ≠ none) :
    ∃ t, d = .finished t := by
  cases finishes_of_finish hfinish with
  | finished => exact ⟨_, rfl⟩
  | update hu =>
    obtain ⟨-, -, limited⟩ := UpdateDraft.Regular.finish regular hu
    obtain ⟨-, -, -, -, unlimited⟩ := legal
    exact absurd hs (not_offset_of_unlimited limited unlimited)
  | delete hx =>
    obtain ⟨-, limited⟩ := DeleteDraft.Regular.finish regular hx
    obtain ⟨-, -, -, -, unlimited⟩ := legal
    exact absurd hs (not_offset_of_unlimited limited unlimited)
  | _ => exact absurd rfl hs

/-- A call with a step is accepted exactly when its draft ends, and ends in a legal step. A built
trigger has the steps that its calls gave, in call order, and at least one. Each is what its draft ends
in and is legal, whatever draft or finished statement was handed over; an offset is only kept in a
finished statement, for the check does not read it. -/
theorem TriggerDraft.steps_of_build {name : QualifiedName} {calls : List TriggerCall}
    {d : TriggerDraft} (h : runCalls apply (.start name) calls = .ok d) :
    (∀ draft, d.stage.offers .step = true →
      ((∃ e, d.apply (.step draft) = .ok e) ↔ ∃ s, draft.finish = .ok s ∧ s.StepLegal)) ∧
    ∀ t, (Draft.trigger d).build = .ok t →
      ∃ header steps, t = .createTrigger header steps ∧ steps ≠ [] ∧
        List.Forall₂ (fun draft s => draft.finish = .ok s ∧ s.StepLegal ∧
          (Made (fun _ => True) (.draft draft) → s.offset? ≠ none → ∃ u, draft = .finished u))
          (calls.flatMap TriggerCall.drafts) steps := by
  constructor
  · intro draft offered
    cases d with
    | bound header steps =>
      simp only [apply_step, map_eq_ok, stepOf_eq_ok, Statement.checkStep_eq_ok]
      constructor
      · rintro ⟨e, s, accepted, -⟩
        exact ⟨s, accepted⟩
      · rintro ⟨s, accepted⟩
        exact ⟨_, s, accepted, rfl⟩
    | unbound | timed => exact Bool.noConfusion offered
  · intro t hbuild
    obtain ⟨hfinish, -⟩ := Draft.build_eq_ok.mp hbuild
    obtain ⟨header, rfl, -, hne⟩ := finish_eq_ok hfinish
    refine ⟨header, d.steps, rfl, hne, (steps_of_runCalls h).imp ?_⟩
    intro draft s hs
    obtain ⟨hdraft, hcheck⟩ := stepOf_eq_ok.mp hs
    have legal := Statement.checkStep_eq_ok.mp hcheck
    exact ⟨hdraft, legal, fun made => Draft.finished_of_offset made.regular hdraft legal⟩

namespace Sample

def stepHeader : TriggerHeader :=
  ⟨false, false, .unqualified "r", none, .delete, "t", false, none⟩

/-- Calls that give a trigger its steps. -/
def stepCalls (steps : List Draft) : List TriggerCall :=
  [.fires none .delete, .table "t"] ++ steps.map .step

/-- The draft of an insertion of one row, and a finished deletion. -/
def stepDrafts : List Draft :=
  [.insert (.insert .rows
      ⟨none, .insert, .unqualified "t", none, ["a"], [[.named "x"]], none, [], []⟩),
    .finished (.delete (deletion [] none))]

/-- A deletion with an offset and no limit. -/
def skipping : Statement := .delete (deletion [] (some (.named "k")))

end Sample

open Sample in
/-- A trigger with an insertion and a deletion as its steps. -/
theorem TriggerDraft.steps_of_build_changes :
    let steps : List Statement := [.insert (insertion ["a"] []), .delete (deletion [] none)]
    ∃ d, runCalls apply (.start (.unqualified "r")) (stepCalls stepDrafts) = .ok d ∧
      (Draft.trigger d).build = .ok (.createTrigger stepHeader steps) ∧
      (∀ s ∈ steps, s.StepLegal) ∧
      ¬ ∃ e, d.apply (.step (.finished .commit)) = .ok e := by
  intro steps
  let d : TriggerDraft := .bound stepHeader steps
  have run : runCalls apply (.start (.unqualified "r")) (stepCalls stepDrafts) = .ok d := rfl
  have built : (Draft.trigger d).build = .ok (.createTrigger stepHeader steps) := rfl
  obtain ⟨accepted, given⟩ := steps_of_build run
  obtain ⟨header, found, heq, -, each⟩ := given _ built
  cases heq
  obtain ⟨⟨-, first, -⟩, rest⟩ := List.forall₂_cons.mp each
  obtain ⟨⟨-, second, -⟩, -⟩ := List.forall₂_cons.mp rest
  refine ⟨d, run, built, ?_, ?_⟩
  · exact List.forall_mem_cons.mpr ⟨first, List.forall_mem_singleton.mpr second⟩
  · rw [accepted _ rfl]
    rintro ⟨s, hs, legal⟩
    cases hs
    exact legal

open Sample in
/-- A deletion with an offset is no step that a trigger may hold, but a trigger is built with it. -/
theorem TriggerDraft.offset_in_step :
    ∃ d, runCalls apply (.start (.unqualified "r")) (stepCalls [.finished skipping]) = .ok d ∧
      (Draft.trigger d).build = .ok (.createTrigger stepHeader [skipping]) ∧
      skipping.offset? = some (.named "k") :=
  ⟨.bound stepHeader [skipping], rfl, rfl, rfl⟩

end SqliteSyntax
