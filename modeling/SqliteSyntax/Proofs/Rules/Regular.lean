import SqliteSyntax.Proofs.Rules.Bounds
import SqliteSyntax.Proofs.Rules.Calls
import SqliteSyntax.Proofs.Rules.Insertion
import SqliteSyntax.Proofs.Rules.Objects

/-! # What every call keeps

`Draft.Regular` holds of a draft of any statement whose own calls have kept the rules that they check,
whatever nodes were handed to them. A call keeps it (`Draft.Regular.apply`), so every made draft has
it (`Made.regular`), and a statement in which such a draft ends is of sound shape in itself and in its
steps, but for the queries handed to it (`Draft.Regular.own_of_finish`). -/
namespace SqliteSyntax
set_option autoImplicit false

/-! ## Drafts of all statements -/

/-- The statement and those in it keep the rules of the shape that are their own. -/
def Statement.OwnThroughout (s : Statement) : Prop :=
  ∀ t, Inside (.statement t) (.statement s) → t.OwnShape

def TriggerDraft.Regular (d : TriggerDraft) : Prop :=
  ∀ s ∈ d.steps, s.checkStep = .ok () ∧ s.OwnThroughout

def AlterDraft.Regular (d : AlterDraft) : Prop := ∀ change ∈ d.change, change.Sound

def Draft.Regular : Draft → Prop
  | .select d => d.Regular
  | .insert d => d.Regular
  | .update d => d.Regular
  | .delete d => d.Regular
  | .trigger d => d.Regular
  | .alter d => d.Regular
  | .table _ | .index _ | .view _ | .virtualTable _ | .drop _ | .vacuum _ | .finished _ => True

def Item.Regular : Item → Prop
  | .draft d => d.Regular
  | .node _ | .withClause _ | .constraint _ => True

namespace Statement

theorem ownThroughout_iff {s : Statement} :
    s.OwnThroughout ↔ s.OwnShape ∧ ∀ u ∈ s.inner, u.OwnThroughout :=
  forall_inside_iff

theorem ownThroughout_of_inner_eq_nil {s : Statement} (hs : s.inner = []) (h : s.OwnShape) :
    s.OwnThroughout :=
  ownThroughout_iff.mpr ⟨h, by simp [hs]⟩

end Statement

namespace Draft.Regular

/-- Whatever queries were handed to it, a draft ends in a statement of sound shape otherwise. -/
theorem own_of_finish {d : Draft} {s : Statement} (h : d.Regular) (hs : d.finish = .ok s) :
    s.OwnThroughout := by
  cases finishes_of_finish hs with
  | select d =>
    exact Statement.ownThroughout_of_inner_eq_nil rfl (SelectDraft.Regular.shapeSound h)
  | insert hi =>
    refine Statement.ownThroughout_of_inner_eq_nil rfl ?_
    obtain ⟨fits, ordered⟩ := h
    cases InsertDraft.finishes_of_finish fits hi with
    | defaults source =>
      rw [InsertRecord.insert, source]
      trivial
    | fromSelect _ source =>
      rw [InsertRecord.insert, source]
      trivial
    | rows source =>
      rw [InsertRecord.insert, source]
      exact ordered.1.even
  | update hu =>
    exact Statement.ownThroughout_of_inner_eq_nil rfl (UpdateDraft.Regular.finish h hu).1.1
  | table ht =>
    refine Statement.ownThroughout_of_inner_eq_nil rfl ?_
    cases TableDraft.finishes_of_finish ht with
    | definitions columns key schema => exact columns
    | fromSelect => trivial
  | index hi =>
    obtain ⟨ne, rfl⟩ := CreateIndex.finish_eq_ok.mp hi
    exact Statement.ownThroughout_of_inner_eq_nil rfl ne
  | trigger header ne => exact Statement.ownThroughout_iff.mpr ⟨ne, fun u hu => (h u hu).2⟩
  | delete | view | virtualTable | alter | drop | vacuum =>
    exact Statement.ownThroughout_of_inner_eq_nil rfl trivial
  | finished shape => exact fun u hu => (Statement.checkShape_iff.mp shape u hu).own

/-- Every beginning is in order. -/
theorem start {start : Start} {d : Draft} (hd : start.draft = .ok d) : d.Regular := by
  cases start with
  | opening w first =>
    cases first with
    | select distinct columns => cases hd; exact SelectDraft.Regular.select w distinct columns
    | values rows =>
      obtain ⟨x, hx, hd⟩ := bind_eq_ok.mp hd
      cases pure_eq_ok.mp hd
      exact SelectDraft.Regular.values hx
    | insert verb table => cases hd; exact ⟨.start w verb table, trivial⟩
    | update conflict table => cases hd; exact UpdateDraft.Regular.start w conflict table
    | delete table => cases hd; exact DeleteDraft.Regular.start w table
  | alter table => cases hd; exact fun change hchange => by cases hchange
  | trigger name => cases hd; exact fun s hs => absurd hs List.not_mem_nil
  | _ => cases hd; trivial

/-- Each call keeps what was in order, if the drafts handed to it are in order. -/
theorem apply {d e : Draft} {call : Call} (h : d.Regular) (items : ∀ i ∈ call.items, i.Regular)
    (happ : d.apply call = .ok e) : e.Regular := by
  cases Draft.step_of_apply happ with
  | @select _ _ call hx =>
    refine SelectDraft.Regular.apply h (fun op y hy => ?_) hx
    exact items (.draft (.select y)) (by simp [hy, Call.items, SelectCall.items])
  | insert hx => exact InsertDraft.Regular.apply h hx
  | update hx => exact UpdateDraft.Regular.apply h hx
  | delete hx => exact DeleteDraft.Regular.apply h hx
  | table | index | view | virtualTable | drop | vacuum => trivial
  | trigger hx =>
    intro s hs
    rcases TriggerDraft.cases_of_apply hx with ⟨same, -⟩ | ⟨c, -, same, -⟩ |
      ⟨draft, step, hcall, hstep, more, -⟩
    · exact h s (same ▸ hs)
    · exact h s (same ▸ hs)
    · rw [more] at hs
      rcases List.mem_append.mp hs with hs | hs
      · exact h s hs
      · cases List.mem_singleton.mp hs
        obtain ⟨hfinish, hcheck⟩ := TriggerDraft.stepOf_eq_ok.mp hstep
        have regular : draft.Regular := items (.draft draft) (by simp [hcall, Call.items, TriggerCall.items])
        exact ⟨hcheck, regular.own_of_finish hfinish⟩
  | alter hx =>
    obtain ⟨sound, rfl⟩ := AlterDraft.apply_eq_ok hx
    exact fun c hc => by cases hc; exact sound

end Draft.Regular

/-- Every made draft is in order, whatever nodes are given. -/
theorem Made.regular {given : Node → Prop} {i : Item} (h : Made given i) : i.Regular := by
  induction h with
  | started items call => exact Draft.Regular.start call
  | called hd items applied ihd ihitems => exact ihd.apply ihitems applied
  | _ => trivial

end SqliteSyntax
