import SqliteSyntax.Proofs.Drafts.Rows

/-! # Conflict clauses of a run

A call on an insertion is refused only for what was given before it (`InsertCall.Breaks`). The clauses
of what is built are those that the calls closed, in call order, and only the last may be without a
target. -/
namespace SqliteSyntax
set_option autoImplicit false

/-- The call breaks a rule after the calls that were accepted before it. -/
def InsertCall.Breaks (before : List InsertCall) : InsertCall → Prop
  | .columns names => names = []
  | .values row =>
    ∃ error, checkRowWidths .insert (before.flatMap InsertCall.row ++ [row])
      (askedWidth (before.flatMap InsertCall.columnNames)) = .error error
  | .onConflict target => target = [] ∨ ∃ u ∈ closedClauses before, u.target = none
  | .onAnyConflict => ∃ u ∈ closedClauses before, u.target = none
  | .targetFilter _ => (before.filter InsertCall.opens).getLast? = some .onAnyConflict
  | .assignRow names _ => names = []
  | _ => False

namespace OpenClause
variable {calls before between : List InsertCall} {opening : InsertCall}

/-- The open clause is the one that was begun last. -/
theorem getLast?_opens (h : OpenClause calls before opening between) :
    (calls.filter InsertCall.opens).getLast? = some opening := by
  have inner : between.filter InsertCall.opens = [] := by
    rw [List.filter_eq_nil_iff]
    intro call hc
    rw [(h.inner call hc).1]
    exact Bool.false_ne_true
  rw [h.split, List.filter_append, List.filter_cons_of_pos h.opens, inner, List.getLast?_concat]

theorem conflictTarget_eq_none (h : OpenClause calls before opening between) :
    conflictTarget opening between = none ↔ opening = .onAnyConflict := by
  have opens := h.opens
  cases opening with
  | onConflict columns => simp [conflictTarget]
  | onAnyConflict => simp [conflictTarget]
  | _ => exact Bool.noConfusion opens

end OpenClause

theorem InsertRecord.openConflict_eq_error {r : InsertRecord} {target : Option UpsertTarget} :
    (∃ failure, r.openConflict target = .error failure) ↔ ∃ u ∈ r.upserts, u.target = none := by
  have some_ : r.upserts.any (·.target.isNone) = true ↔ ∃ u ∈ r.upserts, u.target = none := by
    simp [List.any_eq_true]
  rw [openConflict, ← some_]
  by_cases h : r.upserts.any (·.target.isNone) = true
  · simp [h]
  · simp [h]

theorem Assignment.toColumns_eq_error {columns : List String} {value : Expr} :
    (∃ failure, orRefuse (toColumns columns value) = .error failure) ↔ columns = [] := by
  cases columns <;>
    simp [toColumns, required, orRefuse, bind, Except.bind, pure, Except.pure]

namespace InsertDraft

theorem values_eq_error {calls : List InsertCall} {d : InsertDraft} (run : d.Run calls)
    (checked : d.record.rows = [] ∨ d.record.Checked) {row : List Expr}
    (ho : d.stage.offers .values = true) :
    (∃ failure, d.apply (.values row) = .error failure) ↔ InsertCall.Breaks calls (.values row) := by
  rw [apply_values_eq_batched ho checked, batched, run.rows, run.columns, InsertCall.Breaks]
  cases checkRowWidths .insert (calls.flatMap InsertCall.row ++ [row])
    (askedWidth (calls.flatMap InsertCall.columnNames)) <;> simp [orRefuse, Except.map]

/-- A call that is offered fails exactly when it breaks a rule. -/
theorem apply_eq_error {calls : List InsertCall} {d : InsertDraft} (run : d.Run calls)
    (checked : d.record.rows = [] ∨ d.record.Checked) {call : InsertCall}
    (ho : d.stage.offers call.clause = true) :
    (∃ failure, d.apply call = .error failure) ↔ call.Breaks calls := by
  cases d with
  | insert state r =>
    cases state with
    | noSource =>
      cases call with
      | values row => exact values_eq_error run checked ho
      | columns names =>
        rw [apply, bind_eq_error, required_eq_error, InsertCall.Breaks]
        simp [pure, Except.pure]
      | named | defaultValues | select => exact not_error_of_ok rfl
      | _ => exact Bool.noConfusion ho
    | hasColumns =>
      cases call with
      | values row => exact values_eq_error run checked ho
      | named | select => exact not_error_of_ok rfl
      | _ => exact Bool.noConfusion ho
    | defaults | fromSelect =>
      cases call with
      | returning => exact not_error_of_ok rfl
      | _ => exact Bool.noConfusion ho
    | rows =>
      cases call with
      | values row => exact values_eq_error run checked ho
      | returning => exact not_error_of_ok rfl
      | onConflict target =>
        rw [apply, bind_eq_error, required_eq_error, InsertCall.Breaks]
        simp only [InsertRecord.openConflict_eq_error, orRefuse_eq_ok, required_eq_ok]
        rw [← run.upserts, record]
        by_cases h : target = []
        · simp [h]
        · simp [h]
      | onAnyConflict =>
        rw [apply, InsertRecord.openConflict_eq_error, InsertCall.Breaks, ← run.upserts, record]
      | _ => exact Bool.noConfusion ho
  | conflict r target =>
    cases call with
    | targetFilter condition =>
      obtain ⟨before, opening, between, hopen, rfl, -, -⟩ := run.opened
      rw [InsertCall.Breaks, hopen.getLast?_opens, Option.some_inj, ← hopen.conflictTarget_eq_none]
      cases conflictTarget opening between <;> simp [apply]
    | doNothing | doUpdate => cases target <;> exact not_error_of_ok rfl
    | _ => exact Bool.noConfusion ho
  | updating r target assignments filter =>
    cases call with
    | assignRow names value =>
      rw [apply, bind_eq_error, Assignment.toColumns_eq_error, InsertCall.Breaks]
      simp [pure, Except.pure]
    | assign | filter | done => exact not_error_of_ok rfl
    | _ => exact Bool.noConfusion ho

theorem onlyLastTargetless_of_finish {d : InsertDraft} {i : Insert} (regular : d.Regular)
    (h : d.finish = .ok i) : OnlyLastTargetless i.upserts := by
  cases finishes_of_finish regular.fits h with
  | defaults source unnamed upserts | fromSelect given source upserts =>
    simp [OnlyLastTargetless, InsertRecord.insert, upserts]
  | rows source => exact regular.ordered.2

/-- In a run of accepted calls, of any length, a call that is offered fails exactly when its list of
columns is empty, when its row is not of the width of those before, when it begins a conflict clause
after one without a target was closed, or when it gives a condition to the target of a clause that has
none. What is built has the clauses that the calls closed, in call order, each with the target, the
assignments and the conditions that were given to it, and only the last may be without a target. -/
theorem upserts_of_run {w : Option WithClause} {verb : InsertVerb} {table : QualifiedName}
    {calls : List InsertCall} {d : InsertDraft}
    (h : runCalls apply (.start w verb table) calls = .ok d) :
    (∀ call : InsertCall, d.stage.offers call.clause = true →
      ((∃ failure, d.apply call = .error failure) ↔ call.Breaks calls)) ∧
    (d.stage = .rows → ∃ i, d.finish = .ok i) ∧
    (∀ s, (Draft.insert d).build = .ok s → ∃ i, d.finish = .ok i ∧ s = .insert i) ∧
    ∀ i, d.finish = .ok i →
      i.upserts = closedClauses calls ∧ i.returning = calls.flatMap InsertCall.results ∧
        OnlyLastTargetless i.upserts := by
  have run := Run.of_runCalls h
  have regular : d.Regular :=
    runCalls_induction (P := fun _ next => next.Regular) ⟨.start w verb table, trivial⟩
      (fun _ _ _ _ hnext happ => hnext.apply happ) h
  refine ⟨fun call ho => apply_eq_error run (checked_of_runCalls h) ho, fun hs => ?_,
    fun s => built_of_build, fun i hi => ?_⟩
  · exact finish_isOk.mpr (.inr (.inr hs))
  · obtain ⟨-, upserts, returning⟩ := fields_of_finish run hi
    exact ⟨upserts, returning, onlyLastTargetless_of_finish regular hi⟩

end InsertDraft

namespace Sample

/-- Calls that close a clause of each kind, with a row and results between them. -/
def upsertCalls : List InsertCall :=
  [.values [.named "x"], .onConflict [.named "k"], .targetFilter (.named "p"),
    .targetFilter (.named "q"), .doUpdate "n" (.named "x"), .assignRow ["a", "b"] (.named "y"),
    .filter (.named "r"), .assign "c" (.named "z"), .filter (.named "s"), .done,
    .values [.named "z"], .returning [.star], .onAnyConflict, .doNothing]

def upserts : List Upsert :=
  [⟨some ⟨[.named "k"], some (.binary .and (.named "p") (.named "q"))⟩,
      .update [⟨["n"], .named "x"⟩, ⟨["a", "b"], .named "y"⟩, ⟨["c"], .named "z"⟩]
        (some (.binary .and (.named "r") (.named "s")))⟩,
    ⟨none, .nothing⟩]

end Sample

open Sample in
/-- After a clause without a target no further one can be begun, but a row can be given. -/
theorem InsertDraft.upserts_of_run_targetless :
    ∃ d i, runCalls apply (.start none .insert (.unqualified "t")) upsertCalls = .ok d ∧
      (∃ failure, d.apply (.onConflict [.named "k"]) = .error failure) ∧
      (¬ ∃ failure, d.apply (.values [.named "w"]) = .error failure) ∧
      d.finish = .ok i ∧ i.upserts = upserts ∧ i.returning = [.star] := by
  obtain ⟨d, run⟩ :
      ∃ d, runCalls apply (.start none .insert (.unqualified "t")) upsertCalls = .ok d := ⟨_, rfl⟩
  obtain ⟨refused, finishes, -, built⟩ := upserts_of_run run
  have rows : d.stage = .rows := by
    cases run
    rfl
  have offers (call : InsertCall) (hc : InsertStage.rows.offers call.clause = true) :
      d.stage.offers call.clause = true := by
    rw [rows]
    exact hc
  obtain ⟨i, hi⟩ := finishes rows
  obtain ⟨given, results, -⟩ := built i hi
  refine ⟨d, i, run, (refused _ (offers _ rfl)).mpr (.inr ⟨⟨none, .nothing⟩, ?_, rfl⟩), ?_, hi,
    given.trans rfl, results.trans rfl⟩
  · exact List.mem_of_getLast? rfl
  · rw [refused _ (offers _ rfl)]
    rintro ⟨error, herror⟩
    cases herror

end SqliteSyntax
