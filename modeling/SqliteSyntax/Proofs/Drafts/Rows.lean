import SqliteSyntax.Proofs.Drafts.Insertions
import SqliteSyntax.Proofs.Rules.Finished

/-! # Rows one at a time and at once

The width of each row is checked when it is given. The checks of a run add up to one check of all rows
against the number of the columns, with the same error (`InsertRecord.runCalls_values`). What is inserted
is what the calls chose: the rows, a query or the defaults (`InsertDraft.rows_and_source`). -/
namespace SqliteSyntax
set_option autoImplicit false

/-! ## Checks of rows -/

/-- The width that a column list asks of each row. -/
def askedWidth (columns : List String) : Option Nat :=
  if columns.isEmpty then none else some columns.length

/-- Rows that are refused are refused with any others behind them, and with the same error. -/
theorem checkRowWidths_append_error {place : RowPlace} {front : List (List Expr)}
    {width : Option Nat} {error : Error} (hne : front ≠ [])
    (h : checkRowWidths place front width = .error error) (back : List (List Expr)) :
    checkRowWidths place (front ++ back) width = .error error := by
  obtain ⟨first, rest, rfl⟩ := List.exists_cons_of_ne_nil hne
  simp only [List.cons_append, checkRowWidths] at h ⊢
  by_cases hzero : width.getD first.length = 0
  · rw [if_pos hzero] at h ⊢
    exact h
  · rw [if_neg hzero] at h ⊢
    rw [← List.cons_append, List.find?_append]
    cases hfind : (first :: rest).find? fun row => row.length != width.getD first.length with
    | none =>
      rw [hfind] at h
      cases h
    | some row =>
      rw [hfind] at h
      exact h

/-- After rows that are accepted a further one is checked alone, against the width that is asked or
else that of the first row. -/
theorem checkRowWidths_concat {place : RowPlace} {rows : List (List Expr)} {width : Option Nat}
    (h : checkRowWidths place rows width = .ok ()) (row : List Expr) :
    checkRowWidths place (rows ++ [row]) width =
      checkRowWidths place [row] (width.or (rows.head?.map List.length)) := by
  obtain ⟨hne, expected, hpos, hasked, hall⟩ := widths_of_checkRowWidths h
  obtain ⟨first, rest, rfl⟩ := List.exists_cons_of_ne_nil hne
  have hfirst : first.length = expected := hall first List.mem_cons_self
  have whole : width.getD first.length = expected := by
    cases width with
    | none => exact hfirst
    | some n => exact hasked n rfl
  have alone : (width.or (some first.length)).getD row.length = expected := by
    cases width with
    | none => exact hfirst
    | some n => exact hasked n rfl
  have front : (first :: rest).find? (fun row => row.length != expected) = none := by
    simpa [List.find?_eq_none] using hall
  simp only [List.cons_append, checkRowWidths, List.head?_cons, Option.map_some, whole, alone]
  rw [← List.cons_append, List.find?_append, front, Option.none_or]

namespace InsertRecord

/-- What was given is accepted as one batch. -/
def Checked (r : InsertRecord) : Prop :=
  checkRowWidths .insert r.rows (askedWidth r.columns) = .ok ()

theorem width_eq (r : InsertRecord) :
    r.width = (askedWidth r.columns).or (r.rows.head?.map List.length) := by
  rw [width, askedWidth]
  split <;> rfl

/-- The check of a further row is that of all rows together. -/
theorem addRow_eq {r : InsertRecord} (h : r.rows = [] ∨ r.Checked) (row : List Expr) :
    r.addRow row =
      (orRefuse (checkRowWidths .insert (r.rows ++ [row]) (askedWidth r.columns))).map
        fun _ => { r with rows := r.rows ++ [row] } := by
  have same : checkRowWidths .insert [row] r.width =
      checkRowWidths .insert (r.rows ++ [row]) (askedWidth r.columns) := by
    rw [width_eq]
    rcases h with hnil | hchecked
    · rw [hnil, List.head?_nil, Option.map_none, Option.or_none, List.nil_append]
    · rw [checkRowWidths_concat hchecked]
  rw [addRow, same]
  cases checkRowWidths .insert (r.rows ++ [row]) (askedWidth r.columns) <;> rfl

theorem checked_of_addRow {r s : InsertRecord} {row : List Expr} (h : r.rows = [] ∨ r.Checked)
    (added : r.addRow row = .ok s) : s.Checked := by
  rw [addRow_eq h, map_eq_ok] at added
  obtain ⟨u, checked, rfl⟩ := added
  exact orRefuse_eq_ok.mp checked

end InsertRecord

/-! ## Rows of a draft -/

namespace InsertDraft

theorem apply_values {d : InsertDraft} (h : d.stage.offers .values = true) (row : List Expr) :
    d.apply (.values row) = (d.record.addRow row).map (.insert .rows) := by
  cases d with
  | insert state r =>
    have takes : state.takesRows = true := by
      cases state with
      | noSource | hasColumns | rows => rfl
      | defaults | fromSelect => exact Bool.noConfusion h
    rw [apply, if_pos takes, record]
    cases r.addRow row <;> rfl
  | conflict | updating => exact Bool.noConfusion h

/-- The draft with further rows, if all rows together are accepted. -/
def batched (d : InsertDraft) (more : List (List Expr)) : Except Failure InsertDraft :=
  (orRefuse (checkRowWidths .insert (d.record.rows ++ more) (askedWidth d.record.columns))).map
    fun _ => .insert .rows { d.record with rows := d.record.rows ++ more }

theorem apply_values_eq_batched {d : InsertDraft} (h : d.stage.offers .values = true)
    (hd : d.record.rows = [] ∨ d.record.Checked) (row : List Expr) :
    d.apply (.values row) = d.batched [row] := by
  rw [apply_values h, InsertRecord.addRow_eq hd, batched]
  cases checkRowWidths .insert (d.record.rows ++ [row]) (askedWidth d.record.columns) <;> rfl

theorem batched_eq_ok {d e : InsertDraft} {more : List (List Expr)} :
    d.batched more = .ok e ↔
      checkRowWidths .insert (d.record.rows ++ more) (askedWidth d.record.columns) = .ok () ∧
        e = .insert .rows { d.record with rows := d.record.rows ++ more } := by
  rw [batched, map_eq_ok]
  constructor
  · rintro ⟨⟨⟩, hrows, rfl⟩
    exact ⟨orRefuse_eq_ok.mp hrows, rfl⟩
  · rintro ⟨hrows, rfl⟩
    exact ⟨(), orRefuse_eq_ok.mpr hrows, rfl⟩

/-- The rows that follow an accepted one may as well be given with it. -/
theorem batched_cons (d : InsertDraft) (row : List Expr) (rest : List (List Expr)) :
    (d.batched [row] >>= fun e => e.batched rest) = d.batched (row :: rest) := by
  have together : d.record.rows ++ row :: rest = d.record.rows ++ [row] ++ rest := by
    rw [List.append_assoc, List.singleton_append]
  rw [batched, batched, together]
  cases hrow : checkRowWidths .insert (d.record.rows ++ [row]) (askedWidth d.record.columns) with
  | error e =>
    rw [checkRowWidths_append_error (by simp) hrow]
    rfl
  | ok u => rfl

/-- Rows given one at a time are accepted exactly as in one batch with those before, and refused with
the same error. -/
theorem runCalls_values {d : InsertDraft} (fits : d.Fits) (h : d.stage.offers .values = true)
    (hd : d.record.rows = [] ∨ d.record.Checked) {more : List (List Expr)}
    (hne : d.record.rows ++ more ≠ []) :
    runCalls apply d (more.map .values) = d.batched more := by
  -- the draft changes with each row; that the rows before it are checked goes along
  induction more generalizing d with
  | nil =>
    rw [List.append_nil] at hne
    have checked := hd.resolve_left hne
    cases d with
    | insert state r =>
      cases state with
      | rows =>
        have same : (InsertDraft.insert .rows r).batched [] = .ok (.insert .rows r) := by
          rw [batched_eq_ok, List.append_nil]
          exact ⟨checked, rfl⟩
        rw [same]
        rfl
      | noSource | hasColumns => exact absurd fits.2.rows hne
      | defaults | fromSelect => exact Bool.noConfusion h
    | conflict | updating => exact Bool.noConfusion h
  | cons row rest ih =>
    have first : runCalls apply d ((row :: rest).map .values) =
        (d.batched [row] >>= fun e => runCalls apply e (rest.map .values)) := by
      rw [← apply_values_eq_batched h hd]
      rfl
    rw [first, ← batched_cons d row rest]
    cases hrow : d.batched [row] with
    | error failure => rfl
    | ok e =>
      have next : e.Fits := fits.apply ((apply_values_eq_batched h hd row).trans hrow)
      obtain ⟨checked, rfl⟩ := batched_eq_ok.mp hrow
      exact ih next rfl (.inr checked) (by simp [record])

theorem checked_of_apply {d e : InsertDraft} {call : InsertCall} (fits : d.Fits)
    (hd : d.record.rows = [] ∨ d.record.Checked) (h : d.apply call = .ok e) :
    e.record.rows = [] ∨ e.record.Checked := by
  cases step_of_apply h with
  | values takes added => exact .inr (InsertRecord.checked_of_addRow hd added)
  | columns => exact .inl fits.2.rows
  | named | defaultValues | select | returning | onConflict | onAnyConflict | targetFilter
  | doNothing | doUpdate | assign | assignRow | filter | done => exact hd

/-- The rows that a run gave pass the check of a batch. -/
theorem checked_of_runCalls {w : Option WithClause} {verb : InsertVerb} {table : QualifiedName}
    {calls : List InsertCall} {d : InsertDraft}
    (h : runCalls apply (.start w verb table) calls = .ok d) :
    d.record.rows = [] ∨ d.record.Checked := by
  have kept := runCalls_induction
    (P := fun _ next => next.Fits ∧ (next.record.rows = [] ∨ next.record.Checked))
    ⟨.start w verb table, .inl rfl⟩
    (fun _ _ _ _ hd happ => ⟨hd.1.apply happ, checked_of_apply hd.1 hd.2 happ⟩) h
  exact kept.2

/-! ## Sources -/

theorem finish_isOk {d : InsertDraft} :
    (∃ i, d.finish = .ok i) ↔ d.stage = .defaults ∨ d.stage = .fromSelect ∨ d.stage = .rows := by
  cases d with
  | insert state r => cases state <;> simp [finish, stage, InsertState.stage, InsertState.isSourced]
  | conflict | updating => simp [finish, stage]

/-- The source is found in the record: the query if there is one, else the rows, else none was given.
That is the source which the calls chose, since the record fits the state. -/
theorem source_of_finish {calls : List InsertCall} {d : InsertDraft} {i : Insert}
    (run : d.Run calls) (h : d.finish = .ok i) :
    (∀ rows, i.source = .values rows ↔
      (∃ row, .values row ∈ calls) ∧ rows = calls.flatMap InsertCall.row) ∧
    (∀ query, i.source = .select query ↔ .select query ∈ calls) ∧
    (i.source = .defaultValues ↔ .defaultValues ∈ calls) := by
  have asked (query : Select) : .select query ∈ calls ↔ d.record.query = some query := by
    have given : query ∈ d.record.query.toList ↔ .select query ∈ calls := by
      simp only [run.queries, List.mem_flatMap, InsertCall.mem_queries, exists_eq_right]
    rw [← given, Option.mem_toList]
  have hasRows : (∃ row, .values row ∈ calls) ↔ d.record.rows ≠ [] := by
    have given (row : List Expr) : row ∈ d.record.rows ↔ .values row ∈ calls := by
      simp only [run.rows, List.mem_flatMap, InsertCall.mem_row, exists_eq_right]
    simp only [← given]
    exact ⟨fun ⟨row, hrow⟩ => List.ne_nil_of_mem hrow, List.exists_mem_of_ne_nil _⟩
  simp only [hasRows, ← run.rows, asked, ← run.defaults]
  have fits := run.fits
  cases finishes_of_finish fits h with
  | defaults source =>
    simp [InsertRecord.insert, source, record, fits.2.rows, fits.2.query, stage, InsertState.stage]
  | fromSelect given source =>
    simp [InsertRecord.insert, source, record, given, fits.2.1, stage, InsertState.stage]
  | rows source =>
    simp [InsertRecord.insert, source, record, fits.1, fits.2, stage, InsertState.stage, eq_comm]

/-- Beside its source an insertion has the columns, clauses and results that its calls gave. -/
theorem fields_of_finish {calls : List InsertCall} {d : InsertDraft} {i : Insert}
    (run : d.Run calls) (h : d.finish = .ok i) :
    i.columns = calls.flatMap InsertCall.columnNames ∧ i.upserts = closedClauses calls ∧
      i.returning = calls.flatMap InsertCall.results := by
  rw [← run.columns, ← run.upserts, ← run.returning]
  cases finishes_of_finish run.fits h <;> exact ⟨rfl, rfl, rfl⟩

/-- Defaults come without columns, and conflict clauses with rows. -/
theorem fits_of_finish {d : InsertDraft} {i : Insert} (fits : d.Fits) (h : d.finish = .ok i) :
    (i.source = .defaultValues → i.columns = []) ∧
      (i.upserts ≠ [] → ∃ rows, i.source = .values rows) := by
  cases finishes_of_finish fits h with
  | defaults source unnamed upserts => exact ⟨fun _ => unnamed, fun hne => absurd upserts hne⟩
  | fromSelect given source upserts =>
    exact ⟨fun hs => InsertSource.noConfusion (source.symm.trans hs), fun hne => absurd upserts hne⟩
  | rows source =>
    exact ⟨fun hs => InsertSource.noConfusion (source.symm.trans hs), fun _ => ⟨_, source⟩⟩

theorem built_of_build {d : InsertDraft} {s : Statement} (h : (Draft.insert d).build = .ok s) :
    ∃ i, d.finish = .ok i ∧ s = .insert i := by
  cases Draft.finishes_of_finish (Draft.build_eq_ok.mp h).1 with
  | insert hi => exact ⟨_, hi, rfl⟩

/-- The rows that a run of accepted calls gave, with more behind them, and the check of them all. -/
theorem runCalls_values_of_run {w : Option WithClause} {verb : InsertVerb} {table : QualifiedName}
    {calls : List InsertCall} {d : InsertDraft}
    (h : runCalls apply (.start w verb table) calls = .ok d) (ho : d.stage.offers .values = true)
    {more : List (List Expr)} (hne : calls.flatMap InsertCall.row ++ more ≠ []) :
    runCalls apply d (more.map .values) =
      (orRefuse (checkRowWidths .insert (calls.flatMap InsertCall.row ++ more)
        (askedWidth (calls.flatMap InsertCall.columnNames)))).map
          fun _ => .insert .rows { d.record with rows := calls.flatMap InsertCall.row ++ more } := by
  have run := Run.of_runCalls h
  rw [← run.rows] at hne ⊢
  rw [runCalls_values run.fits ho (checked_of_runCalls h) hne, batched, run.columns]

end InsertDraft

/-- Without a column list the check of a batch is that of a finished statement. -/
theorem checkRowWidths_none_iff (place : RowPlace) {kind : StatementKind}
    {rows : List (List Expr)} :
    checkRowWidths place rows none = .ok () ↔ Shape.checkRows kind rows = .ok () := by
  rw [checkRows_eq_ok]
  refine ⟨evenRows_of_checkRowWidths, ?_⟩
  rintro ⟨hne, width, hpos, hall⟩
  obtain ⟨first, rest, rfl⟩ := List.exists_cons_of_ne_nil hne
  have hfirst : first.length = width := hall first List.mem_cons_self
  have same : (first :: rest).find? (fun row => row.length != first.length) = none := by
    rw [List.find?_eq_none]
    intro row hrow
    simp [hall row hrow, hfirst]
  simp only [checkRowWidths, Option.getD_none]
  rw [if_neg (by omega), same]

/-- The call that names columns, if there are any. -/
def naming (columns : List String) : List InsertCall :=
  if columns.isEmpty then [] else [.columns columns]

/-- The state after the columns, if there are any, were named. -/
def InsertState.named (columns : List String) : InsertState :=
  if columns.isEmpty then .noSource else .hasColumns

theorem InsertDraft.runCalls_naming (w : Option WithClause) (verb : InsertVerb)
    (table : QualifiedName) (columns : List String) :
    runCalls apply (.start w verb table) (naming columns) =
      .ok (.insert (.named columns) ⟨w, verb, table, none, columns, [], none, [], []⟩) := by
  cases columns <;> rfl

theorem InsertDraft.runCalls_naming_values (w : Option WithClause) (verb : InsertVerb)
    (table : QualifiedName) (columns : List String) {rows : List (List Expr)} (hne : rows ≠ []) :
    runCalls apply (.start w verb table) (naming columns ++ rows.map .values) =
      (orRefuse (checkRowWidths .insert rows (askedWidth columns))).map
        fun _ => .insert .rows ⟨w, verb, table, none, columns, rows, none, [], []⟩ := by
  let d : InsertDraft := .insert (.named columns) ⟨w, verb, table, none, columns, [], none, [], []⟩
  have offered : d.stage.offers .values = true := by cases columns <;> rfl
  have fits : d.Fits := (Run.of_runCalls (runCalls_naming w verb table columns)).fits
  have named : runCalls apply (.start w verb table) (naming columns ++ rows.map .values) =
      runCalls apply d (rows.map .values) := by
    rw [runCalls, List.foldlM_append, ← runCalls, runCalls_naming]
    rfl
  rw [named, runCalls_values fits offered (.inl rfl) hne]
  rfl

/-- An insertion takes rows one at a time exactly as it would take them at once: after any accepted
calls, and behind rows that were given before, further rows are accepted if and only if the check of
all rows against the number of the columns succeeds, and fail with the same error. Without a column
list that is the check of finished statements. The source that is chosen from the record is the one
that the state stands for, after any accepted calls. What is built has the source that was chosen: the
rows in call order, the query, or the defaults, which never come with columns; conflict clauses come
with rows only. -/
theorem InsertDraft.rows_and_source (w : Option WithClause) (verb : InsertVerb)
    (table : QualifiedName) :
    (∀ (columns : List String) (rows : List (List Expr)), rows ≠ [] →
      runCalls apply (.start w verb table) (naming columns ++ rows.map .values) =
        (orRefuse (checkRowWidths .insert rows (askedWidth columns))).map
          (fun _ => .insert .rows ⟨w, verb, table, none, columns, rows, none, [], []⟩) ∧
      (columns = [] → ∀ kind,
        (∃ d, runCalls apply (.start w verb table) (rows.map .values) = .ok d) ↔
          Shape.checkRows kind rows = .ok ())) ∧
    ∀ (calls : List InsertCall) (d : InsertDraft),
      runCalls apply (.start w verb table) calls = .ok d →
      (d.stage.offers .values = true → ∀ more, calls.flatMap InsertCall.row ++ more ≠ [] →
        runCalls apply d (more.map .values) =
          (orRefuse (checkRowWidths .insert (calls.flatMap InsertCall.row ++ more)
            (askedWidth (calls.flatMap InsertCall.columnNames)))).map
              fun _ => .insert .rows { d.record with rows := calls.flatMap InsertCall.row ++ more }) ∧
      ((∃ i, d.finish = .ok i) ↔
        d.stage = .defaults ∨ d.stage = .fromSelect ∨ d.stage = .rows) ∧
      (∀ state r, d = .insert state r → state.isSourced = true →
        state.source? r = some r.source) ∧
      (∀ s, (Draft.insert d).build = .ok s → ∃ i, d.finish = .ok i ∧ s = .insert i) ∧
      ∀ i, d.finish = .ok i →
        ((∀ rows, i.source = .values rows ↔
            (∃ row, .values row ∈ calls) ∧ rows = calls.flatMap InsertCall.row) ∧
          (∀ query, i.source = .select query ↔ .select query ∈ calls) ∧
          (i.source = .defaultValues ↔ .defaultValues ∈ calls)) ∧
        i.columns = calls.flatMap InsertCall.columnNames ∧
        (i.source = .defaultValues → i.columns = []) ∧
        (i.upserts ≠ [] → ∃ rows, i.source = .values rows) := by
  refine ⟨fun columns rows hne => ⟨runCalls_naming_values w verb table columns hne, ?_⟩,
    fun calls d h => ?_⟩
  · rintro rfl kind
    have chain : runCalls apply (.start w verb table) (rows.map .values) =
        (orRefuse (checkRowWidths .insert rows none)).map _ :=
      runCalls_naming_values w verb table [] hne
    rw [← checkRowWidths_none_iff .insert, chain]
    cases checkRowWidths .insert rows none <;> simp [orRefuse, Except.map]
  · have run := Run.of_runCalls h
    refine ⟨fun ho more hne => runCalls_values_of_run h ho hne, finish_isOk, ?_,
      fun s => built_of_build, fun i hi =>
        ⟨source_of_finish run hi, (fields_of_finish run hi).1, fits_of_finish run.fits hi⟩⟩
    rintro state r rfl sourced
    exact InsertState.Fits.source run.fits sourced

namespace Sample

/-- Calls that name two columns, give a row and close a conflict clause. -/
def rowCalls : List InsertCall :=
  [.columns ["a", "b"], .values [.named "x", .named "y"], .onAnyConflict, .doNothing,
    .returning [.star]]

/-- The draft after them. -/
def rowRecord : InsertRecord :=
  ⟨none, .insert, .unqualified "t", none, ["a", "b"], [[.named "x", .named "y"]], none,
    [⟨none, .nothing⟩], [.star]⟩

end Sample

open Sample in
/-- A row for two columns, and two rows behind a conflict clause of which the second is too short. -/
theorem InsertDraft.rows_and_source_after_upsert :
    let start : InsertDraft := .start none .insert (.unqualified "t")
    (∃ d, runCalls apply start (naming ["a", "b"] ++ [.values [.named "x", .named "y"]]) = .ok d) ∧
      runCalls apply start rowCalls = .ok (.insert .rows rowRecord) ∧
      runCalls apply (.insert .rows rowRecord)
        [.values [.named "u", .named "v"], .values [.named "z"]] =
          .error (.of (.rows .insert (.width 1 2))) ∧
      ∃ i, InsertDraft.finish (.insert .rows rowRecord) = .ok i ∧
        i.source = .values [[.named "x", .named "y"]] ∧ i.columns = ["a", "b"] := by
  intro start
  have run : runCalls apply start rowCalls = .ok (.insert .rows rowRecord) := rfl
  obtain ⟨chain, general⟩ := rows_and_source none .insert (.unqualified "t")
  obtain ⟨alone, -⟩ := chain ["a", "b"] [[.named "x", .named "y"]] (by simp)
  obtain ⟨further, -, -, -, chosen⟩ := general rowCalls (.insert .rows rowRecord) run
  obtain ⟨i, hi⟩ : ∃ i, InsertDraft.finish (.insert .rows rowRecord) = .ok i := ⟨_, rfl⟩
  obtain ⟨⟨values, -, -⟩, columns, -, -⟩ := chosen i hi
  have refused := further rfl [[.named "u", .named "v"], [.named "z"]] (by simp [rowCalls])
  have given : (∃ row, .values row ∈ rowCalls) ∧
      [[.named "x", .named "y"]] = rowCalls.flatMap InsertCall.row :=
    ⟨⟨[.named "x", .named "y"], by simp [rowCalls]⟩, rfl⟩
  exact ⟨⟨_, alone⟩, run, refused.trans rfl, i, hi, (values _).mpr given, columns.trans rfl⟩

end SqliteSyntax
