import SqliteSyntax.Proofs.Rules.Built

/-! # Building what was built

A statement that a draft built passes the check of finished statements in all that the draft checked
itself. The queries that were handed to insertions, views and tables pass it only if they are of sound
shape, which no call has looked at. So a built statement can be built again exactly when these are. -/
namespace SqliteSyntax
set_option autoImplicit false

/-- The queries that the statement and those inside it take their rows from are of sound shape. -/
def Statement.SourcesSound (s : Statement) : Prop :=
  ∀ t, Inside (.statement t) (.statement s) → ∀ q ∈ t.source?, q.ShapeSound

theorem Statement.sourcesSound_of_sound {s : Statement} (h : (Node.statement s).SoundThroughout) :
    s.SourcesSound :=
  fun _ ht => (h.inside ht).statement_shape.source

/-- Only the queries that were handed over can keep a built statement from being built again. -/
theorem Draft.build_again_iff {given : Node → Prop} {d : Draft} {s : Statement}
    (hd : Made given (.draft d)) (hs : d.build = .ok s) :
    (Draft.finished s).build = .ok s ↔ s.SourcesSound := by
  obtain ⟨hfinish, raise⟩ := build_eq_ok.mp hs
  have own : s.OwnThroughout := Draft.Regular.own_of_finish hd.regular hfinish
  rw [build_finished]
  constructor
  · rintro ⟨-, shape, -⟩ t ht
    exact (shape t ht).source
  · intro sources
    exact ⟨rfl, fun t ht => ⟨own t ht, sources t ht⟩, raise⟩

theorem Draft.explain_finished_iff {queryPlan : Bool} {s : Statement} :
    (Draft.finished s).explain queryPlan = .ok (.explain queryPlan s) ↔
      (Draft.finished s).build = .ok s ∧ s.isExplain = false := by
  constructor
  · intro h
    obtain ⟨t, ht, plain, heq⟩ := explain_eq_ok h
    cases heq
    exact ⟨ht, plain⟩
  · rintro ⟨hs, plain⟩
    rw [explain, bind_eq_ok]
    exact ⟨s, hs, by rw [plain, if_neg Bool.false_ne_true, pure_eq_ok]⟩

/-- A statement built after any run of accepted calls, from drafts and from nodes given whole, is
built again as it is exactly when the queries handed to it are of sound shape, and is explained
exactly when it is also no `EXPLAIN` itself. If everything was made by calls, the queries are of sound
shape. -/
theorem Draft.rebuilt_iff_sources {given : Node → Prop} {d e : Draft} {s : Statement}
    {calls : List Call} (hd : Made given (.draft d))
    (items : ∀ call ∈ calls, ∀ i ∈ call.items, Made given i)
    (hrun : runCalls Draft.apply d calls = .ok e) (hs : e.build = .ok s) :
    ((Draft.finished s).build = .ok s ↔ s.SourcesSound) ∧
    (∀ queryPlan, (Draft.finished s).explain queryPlan = .ok (.explain queryPlan s) ↔
      s.SourcesSound ∧ s.isExplain = false) ∧
    ((∀ n, ¬ given n) → s.SourcesSound) := by
  have made : Made given (.draft e) := hd.run items hrun
  have again := build_again_iff made hs
  refine ⟨again, fun queryPlan => ?_, fun none => ?_⟩
  · rw [explain_finished_iff, again]
  · have calls : given = fun _ => False := funext fun n => propext ⟨none n, False.elim⟩
    subst calls
    exact Statement.sourcesSound_of_sound (Made.sound (.built made hs))

namespace Sample

/-- Rows of one column, with bounds that need not belong together. -/
def bounded (limit : Option Expr) : Select :=
  ⟨none, .core (.ofColumns false [.expr (.named "a") none]), [], [], limit, some (.named "n")⟩

def copied (q : Select) : Statement :=
  .insert ⟨none, .insert, .unqualified "t", none, [], .select q, [], []⟩

end Sample

open Sample in
/-- With a limit the query is of sound shape, and the insertion that takes it is built again. -/
theorem Draft.rebuilt_of_bounded :
    let s := copied (bounded (some (.named "m")))
    (Draft.finished s).build = .ok s := by
  intro s
  have first : Made (fun _ => True) (.draft (.insert (.start none .insert (.unqualified "t")))) := by
    have opening : Start.draft (.opening none (.insert .insert (.unqualified "t"))) =
        .ok (.insert (.start none .insert (.unqualified "t"))) := rfl
    exact .started (List.forall_mem_nil _) opening
  obtain ⟨e, run, built⟩ : ∃ e, runCalls Draft.apply (.insert (.start none .insert (.unqualified "t")))
      [.insert (.select (bounded (some (.named "m"))))] = .ok e ∧ e.build = .ok s := ⟨_, rfl, rfl⟩
  have rebuilt := rebuilt_iff_sources first
    (List.forall_mem_singleton.mpr (List.forall_mem_singleton.mpr (.given trivial))) run built
  refine rebuilt.1.mpr fun t ht q hq => ?_
  rcases Statement.inside_iff.mp ht with rfl | ⟨u, hu, -⟩
  · cases hq
    exact ⟨fun _ => rfl, List.forall_mem_singleton.mpr trivial⟩
  · exact absurd hu List.not_mem_nil

open Sample in
/-- Without a limit the insertion is built once, and neither built again nor explained. -/
theorem Draft.rebuild_refused :
    let q := bounded none
    let refusal : Failure := .refused (.construction (.shape .insert .offsetWithoutLimit))
    ((runCalls Draft.apply (.insert (.start none .insert (.unqualified "t")))
        [.insert (.select q)]).bind Draft.build = .ok (copied q)) ∧
      (Draft.finished (copied q)).build = .error refusal ∧
      (Draft.finished (copied q)).explain false = .error refusal :=
  ⟨rfl, rfl, rfl⟩

end SqliteSyntax
