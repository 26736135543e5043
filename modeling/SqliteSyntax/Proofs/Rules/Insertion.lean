import SqliteSyntax.Proofs.Rules.Accepted

/-! # Calls on an insertion

`InsertDraft.Step` lists what a call on an insertion does and what was checked for it. The source of an
insertion is chosen from its record; since each call keeps that the record fits the state
(`InsertDraft.Fits`), it is the source that the state stands for (`InsertState.Fits.source`).
`InsertDraft.Regular` holds of an insertion whose calls have kept their rules besides, whatever
expressions and queries were handed to them: the rows are even and fit the columns, and while a conflict
clause is open those before it have targets. -/
namespace SqliteSyntax
set_option autoImplicit false

/-! ## Rules in between -/

def AllTargeted (upserts : List Upsert) : Prop := ∀ u ∈ upserts, u.target.isSome

def TargetSound (target : Option UpsertTarget) : Prop := ∀ t ∈ target, t.columns ≠ []

structure InsertRecord.Regular (r : InsertRecord) : Prop where
  even : EvenRows r.rows
  fit : RowsFit r.columns r.rows
  upserts : ∀ u ∈ r.upserts, u.Sound

/-- The record holds nothing that belongs to a source. -/
structure InsertRecord.Unsourced (r : InsertRecord) : Prop where
  rows : r.rows = []
  query : r.query = none
  upserts : r.upserts = []

/-- What the record holds in a state, by which the source chosen from it is the one that the calls
chose. -/
def InsertState.Fits : InsertState → InsertRecord → Prop
  | .noSource, r => r.columns = [] ∧ r.Unsourced
  | .hasColumns, r => r.columns ≠ [] ∧ r.Unsourced
  | .defaults, r => r.columns = [] ∧ r.Unsourced
  | .fromSelect, r => r.query.isSome = true ∧ r.rows = [] ∧ r.upserts = []
  | .rows, r => r.query = none ∧ r.rows ≠ []

/-- What was given so far, an open conflict clause left out. -/
def InsertDraft.record : InsertDraft → InsertRecord
  | .insert _ r | .conflict r _ | .updating r .. => r

/-- The record fits the state; conflict clauses belong to rows. -/
def InsertDraft.Fits : InsertDraft → Prop
  | .insert state r => state.Fits r
  | .conflict r _ | .updating r .. => InsertState.rows.Fits r

/-- Rows are even and fit the columns, and while a conflict clause is open, those before it have
targets. -/
def InsertDraft.Ordered : InsertDraft → Prop
  | .insert .rows r => r.Regular ∧ OnlyLastTargetless r.upserts
  | .insert .. => True
  | .conflict r target => r.Regular ∧ AllTargeted r.upserts ∧ TargetSound target
  | .updating r target assignments _ =>
    r.Regular ∧ AllTargeted r.upserts ∧ TargetSound target ∧ SetSound assignments

structure InsertDraft.Regular (d : InsertDraft) : Prop where
  fits : d.Fits
  ordered : d.Ordered

/-! ## Sources -/

/-- The source that a state stands for. -/
def InsertState.source? : InsertState → InsertRecord → Option InsertSource
  | .noSource, _ | .hasColumns, _ => none
  | .defaults, _ => some .defaultValues
  | .fromSelect, r => r.query.map .select
  | .rows, r => some (.values r.rows)

/-- The source that is chosen from the record is the one that the state stands for. -/
theorem InsertState.Fits.source {state : InsertState} {r : InsertRecord} (h : state.Fits r)
    (sourced : state.isSourced = true) : state.source? r = some r.source := by
  cases state with
  | noSource | hasColumns => exact Bool.noConfusion sourced
  | defaults =>
    obtain ⟨-, rows, query, -⟩ := h
    simp [source?, InsertRecord.source, rows, query]
  | fromSelect =>
    obtain ⟨query, -, -⟩ := h
    obtain ⟨q, hq⟩ := Option.isSome_iff_exists.mp query
    simp [source?, InsertRecord.source, hq]
  | rows =>
    obtain ⟨query, rows⟩ := h
    simp [source?, InsertRecord.source, query, rows]

namespace InsertRecord

theorem eq_of_addRow {r s : InsertRecord} {row : List Expr} (h : r.addRow row = .ok s) :
    s = { r with rows := r.rows ++ [row] } := by
  obtain ⟨⟨⟩, -, hs⟩ := bind_eq_ok.mp h
  exact (pure_eq_ok.mp hs).symm

/-- The first row, or a row of the width of those before it. -/
theorem rows_of_addRow {r s : InsertRecord} {row : List Expr} (h : r.addRow row = .ok s)
    (hr : r.rows = [] ∨ EvenRows r.rows ∧ RowsFit r.columns r.rows) :
    EvenRows s.rows ∧ RowsFit r.columns s.rows := by
  obtain ⟨⟨⟩, hcheck, -⟩ := bind_eq_ok.mp h
  obtain ⟨-, width, hpos, hasked, hrow⟩ :=
    widths_of_checkRowWidths (orRefuse_eq_ok.mp hcheck)
  rw [List.forall_mem_singleton] at hrow
  rw [eq_of_addRow h]
  have fitRow (hne : r.columns ≠ []) : row.length = r.columns.length := by
    rw [hrow]
    refine (hasked _ ?_).symm
    simp [InsertRecord.width, hne]
  rcases hr with hnil | ⟨⟨hne, old, hold, heven⟩, hfit⟩
  · simp only [hnil, List.nil_append]
    refine ⟨⟨by simp, width, hpos, List.forall_mem_singleton.mpr hrow⟩, fun hne => ?_⟩
    exact List.forall_mem_singleton.mpr (fitRow hne)
  · refine ⟨⟨by simp, old, hold, ?_⟩, fun hc => ?_⟩
    · have same : width = old := by
        obtain ⟨first, hfirst⟩ := List.exists_mem_of_ne_nil _ hne
        by_cases hcols : r.columns = []
        · cases hrows : r.rows with
          | nil => exact absurd hrows hne
          | cons first rest =>
            have asked : first.length = width := hasked _ (by simp [InsertRecord.width, hcols, hrows])
            rw [← asked]
            exact heven first (by simp [hrows])
        · rw [← hrow, fitRow hcols, ← hfit hcols first hfirst]
          exact heven first hfirst
      exact List.forall_mem_append.mpr
        ⟨heven, List.forall_mem_singleton.mpr (hrow.trans same)⟩
    · exact List.forall_mem_append.mpr ⟨hfit hc, List.forall_mem_singleton.mpr (fitRow hc)⟩

theorem openConflict_eq_ok {r : InsertRecord} {target : Option UpsertTarget} {d : InsertDraft}
    (h : r.openConflict target = .ok d) : AllTargeted r.upserts ∧ d = .conflict r target := by
  rw [openConflict] at h
  split at h
  · cases h
  · rename_i targeted
    cases h
    refine ⟨fun u hu => ?_, rfl⟩
    cases hu' : u.target with
    | some t => rfl
    | none => exact absurd (List.any_eq_true.mpr ⟨u, hu, by simp [hu']⟩) targeted

/-- A clause that is closed may be without a target, for it is the last now. -/
theorem Regular.addUpsert {r : InsertRecord} (h : r.Regular) (targeted : AllTargeted r.upserts)
    {u : Upsert} (hu : u.Sound) : (InsertDraft.insert .rows (r.addUpsert u)).Ordered := by
  refine ⟨⟨h.even, h.fit, List.forall_mem_append.mpr ⟨h.upserts, by simpa using hu⟩⟩, ?_⟩
  rw [InsertRecord.addUpsert, OnlyLastTargetless, List.dropLast_concat]
  exact targeted

end InsertRecord

namespace InsertDraft

/-- What the calls on an insertion do, with what was checked for them. -/
inductive Step : InsertDraft → InsertCall → InsertDraft → Prop
  | named {state : InsertState} (unsourced : state.isSourced = false) (r : InsertRecord)
      (asName : String) :
      Step (.insert state r) (.named asName) (.insert state { r with asName := some asName })
  | columns (r : InsertRecord) {columns : List String} (ne : columns ≠ []) :
      Step (.insert .noSource r) (.columns columns) (.insert .hasColumns { r with columns })
  | defaultValues (r : InsertRecord) :
      Step (.insert .noSource r) .defaultValues (.insert .defaults r)
  | values {state : InsertState} (takes : state.takesRows = true) {r s : InsertRecord}
      {row : List Expr} (added : r.addRow row = .ok s) :
      Step (.insert state r) (.values row) (.insert .rows s)
  | select {state : InsertState} (unsourced : state.isSourced = false) (r : InsertRecord)
      (query : Select) :
      Step (.insert state r) (.select query) (.insert .fromSelect { r with query := some query })
  | returning {state : InsertState} (sourced : state.isSourced = true) (r : InsertRecord)
      (columns : List ResultColumn) :
      Step (.insert state r) (.returning columns)
        (.insert state { r with returning := r.returning ++ columns })
  | onConflict {r : InsertRecord} {columns : List IndexedColumn} (ne : columns ≠ [])
      (targeted : AllTargeted r.upserts) :
      Step (.insert .rows r) (.onConflict columns) (.conflict r (some ⟨columns, none⟩))
  | onAnyConflict {r : InsertRecord} (targeted : AllTargeted r.upserts) :
      Step (.insert .rows r) .onAnyConflict (.conflict r none)
  | targetFilter (r : InsertRecord) (target : UpsertTarget) (condition : Expr) :
      Step (.conflict r (some target)) (.targetFilter condition)
        (.conflict r (some { target with filter := conjoin target.filter condition }))
  | doNothing (r : InsertRecord) (target : Option UpsertTarget) :
      Step (.conflict r target) .doNothing (.insert .rows (r.addUpsert ⟨target, .nothing⟩))
  | doUpdate (r : InsertRecord) (target : Option UpsertTarget) (column : String) (value : Expr) :
      Step (.conflict r target) (.doUpdate column value)
        (.updating r target [⟨[column], value⟩] none)
  | assign (r : InsertRecord) (target : Option UpsertTarget) (assignments : List Assignment)
      (filter : Option Expr) (column : String) (value : Expr) :
      Step (.updating r target assignments filter) (.assign column value)
        (.updating r target (assignments ++ [⟨[column], value⟩]) filter)
  | assignRow (r : InsertRecord) (target : Option UpsertTarget) (assignments : List Assignment)
      (filter : Option Expr) {columns : List String} (value : Expr) (ne : columns ≠ []) :
      Step (.updating r target assignments filter) (.assignRow columns value)
        (.updating r target (assignments ++ [⟨columns, value⟩]) filter)
  | filter (r : InsertRecord) (target : Option UpsertTarget) (assignments : List Assignment)
      (filter : Option Expr) (condition : Expr) :
      Step (.updating r target assignments filter) (.filter condition)
        (.updating r target assignments (conjoin filter condition))
  | done (r : InsertRecord) (target : Option UpsertTarget) (assignments : List Assignment)
      (filter : Option Expr) :
      Step (.updating r target assignments filter) .done
        (.insert .rows (r.addUpsert ⟨target, .update assignments filter⟩))

theorem step_of_apply {d e : InsertDraft} {call : InsertCall} (happ : d.apply call = .ok e) :
    Step d call e := by
  unfold apply at happ
  split at happ
  case h_1 =>
    split at happ
    · cases happ
    · rename_i unsourced
      cases happ
      exact .named (Bool.not_eq_true _ ▸ unsourced) ..
  case h_2 =>
    obtain ⟨found, hfound, he⟩ := bind_eq_ok.mp happ
    obtain ⟨ne, rfl⟩ := required_eq_ok.mp (orRefuse_eq_ok.mp hfound)
    cases pure_eq_ok.mp he
    exact .columns _ ne
  case h_3 => cases happ; exact .defaultValues _
  case h_4 =>
    split at happ
    · rename_i takes
      obtain ⟨s, hs, he⟩ := bind_eq_ok.mp happ
      cases pure_eq_ok.mp he
      exact .values takes hs
    · cases happ
  case h_5 =>
    split at happ
    · cases happ
    · rename_i unsourced
      cases happ
      exact .select (Bool.not_eq_true _ ▸ unsourced) ..
  case h_6 =>
    split at happ
    · rename_i sourced
      cases happ
      exact .returning sourced ..
    · cases happ
  case h_7 =>
    obtain ⟨found, hfound, hopen⟩ := bind_eq_ok.mp happ
    obtain ⟨ne, rfl⟩ := required_eq_ok.mp (orRefuse_eq_ok.mp hfound)
    obtain ⟨targeted, rfl⟩ := InsertRecord.openConflict_eq_ok hopen
    exact .onConflict ne targeted
  case h_8 =>
    obtain ⟨targeted, rfl⟩ := InsertRecord.openConflict_eq_ok happ
    exact .onAnyConflict targeted
  case h_9 => cases happ; exact .targetFilter ..
  case h_10 => cases happ
  case h_11 => cases happ; exact .doNothing ..
  case h_12 => cases happ; exact .doUpdate ..
  case h_13 => cases happ; exact .assign ..
  case h_14 =>
    obtain ⟨a, ha, he⟩ := bind_eq_ok.mp happ
    obtain ⟨rfl, ne⟩ := Assignment.columns_of_toColumns (orRefuse_eq_ok.mp ha)
    cases pure_eq_ok.mp he
    exact .assignRow _ _ _ _ _ ne
  case h_15 => cases happ; exact .filter ..
  case h_16 => cases happ; exact .done ..
  case h_17 => cases happ

theorem Fits.start (w : Option WithClause) (verb : InsertVerb) (table : QualifiedName) :
    (start w verb table).Fits :=
  ⟨rfl, rfl, rfl, rfl⟩

/-- Each call keeps that the record fits the state. -/
theorem Fits.apply {d e : InsertDraft} {call : InsertCall} (h : d.Fits)
    (happ : d.apply call = .ok e) : e.Fits := by
  cases step_of_apply happ with
  | @named state unsourced =>
    cases state with
    | noSource | hasColumns => exact ⟨h.1, h.2.rows, h.2.query, h.2.upserts⟩
    | defaults | fromSelect | rows => exact Bool.noConfusion unsourced
  | columns r ne => exact ⟨ne, h.2.rows, h.2.query, h.2.upserts⟩
  | defaultValues => exact h
  | @values state takes r s row added =>
    cases InsertRecord.eq_of_addRow added
    refine ⟨?_, by simp⟩
    cases state with
    | noSource | hasColumns => exact h.2.query
    | rows => exact h.1
    | defaults | fromSelect => exact Bool.noConfusion takes
  | @select state unsourced =>
    cases state with
    | noSource | hasColumns => exact ⟨rfl, h.2.rows, h.2.upserts⟩
    | defaults | fromSelect | rows => exact Bool.noConfusion unsourced
  | @returning state sourced =>
    cases state with
    | noSource | hasColumns => exact Bool.noConfusion sourced
    | defaults => exact ⟨h.1, h.2.rows, h.2.query, h.2.upserts⟩
    | fromSelect | rows => exact h
  | onConflict | onAnyConflict | targetFilter | doNothing | doUpdate | assign | assignRow | filter
  | done => exact h

/-- Each call keeps what was in order. -/
theorem Regular.apply {d e : InsertDraft} {call : InsertCall} (h : d.Regular)
    (happ : d.apply call = .ok e) : e.Regular := by
  refine ⟨h.fits.apply happ, ?_⟩
  obtain ⟨fits, h⟩ := h
  cases step_of_apply happ with
  | @named state unsourced =>
    cases state with
    | rows => exact Bool.noConfusion unsourced
    | noSource | hasColumns | defaults | fromSelect => trivial
  | columns | defaultValues | select => trivial
  | @values state takes r s row added =>
    cases state with
    | noSource | hasColumns =>
      obtain ⟨even, fit⟩ := InsertRecord.rows_of_addRow added (.inl fits.2.rows)
      cases InsertRecord.eq_of_addRow added
      have none : r.upserts = [] := fits.2.upserts
      exact ⟨⟨even, fit, by simp [none]⟩, by simp [OnlyLastTargetless, none]⟩
    | rows =>
      obtain ⟨even, fit⟩ := InsertRecord.rows_of_addRow added (.inr ⟨h.1.even, h.1.fit⟩)
      cases InsertRecord.eq_of_addRow added
      exact ⟨⟨even, fit, h.1.upserts⟩, h.2⟩
    | defaults | fromSelect => exact Bool.noConfusion takes
  | @returning state sourced =>
    cases state with
    | rows => exact ⟨⟨h.1.even, h.1.fit, h.1.upserts⟩, h.2⟩
    | noSource | hasColumns | defaults | fromSelect => trivial
  | onConflict ne targeted => exact ⟨h.1, targeted, fun t ht => by cases ht; exact ne⟩
  | onAnyConflict targeted => exact ⟨h.1, targeted, fun t ht => by cases ht⟩
  | targetFilter r target condition =>
    exact ⟨h.1, h.2.1, fun t ht => by cases ht; exact h.2.2 target rfl⟩
  | doNothing => exact h.1.addUpsert h.2.1 ⟨h.2.2, trivial⟩
  | doUpdate => exact ⟨h.1, h.2.1, h.2.2, by simp [SetSound]⟩
  | assign => exact ⟨h.1, h.2.1, h.2.2.1, .append h.2.2.2.2 (by simp)⟩
  | assignRow r target assignments filter value ne =>
    exact ⟨h.1, h.2.1, h.2.2.1, .append h.2.2.2.2 ne⟩
  | filter => exact h
  | done => exact h.1.addUpsert h.2.1 ⟨h.2.2.1, h.2.2.2⟩

/-! ## Ends -/

/-- What an insertion ends in: the source chosen from its record, which is the one of its state. -/
inductive Finishes : InsertDraft → Insert → Prop
  | defaults {r : InsertRecord} (source : r.source = .defaultValues) (unnamed : r.columns = [])
      (upserts : r.upserts = []) : Finishes (.insert .defaults r) r.insert
  | fromSelect {r : InsertRecord} {query : Select} (given : r.query = some query)
      (source : r.source = .select query) (upserts : r.upserts = []) :
      Finishes (.insert .fromSelect r) r.insert
  | rows {r : InsertRecord} (source : r.source = .values r.rows) :
      Finishes (.insert .rows r) r.insert

theorem finishes_of_finish {d : InsertDraft} {i : Insert} (fits : d.Fits) (h : d.finish = .ok i) :
    d.Finishes i := by
  cases d with
  | conflict | updating => cases h
  | insert state r =>
    rw [finish] at h
    split at h
    case isFalse => cases h
    case isTrue sourced =>
      cases h
      have source := InsertState.Fits.source fits sourced
      cases state with
      | noSource | hasColumns => exact Bool.noConfusion sourced
      | defaults => exact .defaults (Option.some.inj source).symm fits.1 fits.2.upserts
      | fromSelect =>
        obtain ⟨given, -, upserts⟩ := fits
        obtain ⟨query, hq⟩ := Option.isSome_iff_exists.mp given
        rw [InsertState.source?, hq] at source
        exact .fromSelect hq (Option.some.inj source).symm upserts
      | rows => exact .rows (Option.some.inj source).symm

end InsertDraft
end SqliteSyntax
