import SqliteSyntax.Proofs.Drafts.Tables
import SqliteSyntax.Proofs.Rules.Built

/-! # References to parent tables

A reference names no parent columns or as many as there are columns that refer. A constraint of a table
is refused where it breaks this (`TableConstraint.foreignKey_eq_ok_iff`), and no call on a column looks
at it. So the references of what calls make fit, all but those of columns, and these fit as long as no
column that was handed over names several parents (`Statement.references_of_calls`). -/
namespace SqliteSyntax
set_option autoImplicit false

/-- The reference names no parent columns, or one for each column that refers. -/
def ForeignKey.Fits (key : ForeignKey) (children : Nat) : Prop :=
  key.columns = [] ∨ key.columns.length = children

theorem ForeignKey.fits_one_iff {key : ForeignKey} : key.Fits 1 ↔ key.columns.length ≤ 1 := by
  rw [Fits, ← List.length_eq_zero_iff]
  omega

/-! ## Where references stand -/

def ColumnRule.reference? : ColumnRule → Option ForeignKey
  | .references key => some key
  | _ => none

/-- The references of a column. -/
def ColumnDef.references (c : ColumnDef) : List ForeignKey :=
  c.constraints.filterMap (·.rule.reference?)

/-- A foreign key of a table has as many parent columns as it has columns, or none. -/
def TableRule.KeyFits : TableRule → Prop
  | .foreignKey columns key => key.Fits columns.length
  | .primaryKey .. | .unique .. | .check _ => True

def TableBody.columns : TableBody → List ColumnDef
  | .definitions columns .. => columns
  | .asSelect _ => []

def TableBody.constraints : TableBody → List TableConstraint
  | .definitions _ constraints .. => constraints
  | .asSelect _ => []

def TableChange.columns : TableChange → List ColumnDef
  | .addColumn c => [c]
  | .renameTo _ | .renameColumn .. | .dropColumn _ => []

namespace Statement

/-- The columns that the statement defines, or would define if it were not only explained. -/
def columnDefs : Statement → List ColumnDef
  | .createTable t => t.body.columns
  | .alterTable _ change => change.columns
  | .explain _ s => s.columnDefs
  | _ => []

/-- The constraints of the table that the statement creates. -/
def tableConstraints : Statement → List TableConstraint
  | .createTable t => t.body.constraints
  | .explain _ s => s.tableConstraints
  | _ => []

/-- Every reference of the statement fits: a foreign key its columns, and that of a column the one. -/
structure KeysFit (s : Statement) : Prop where
  constraints : ∀ c ∈ s.tableConstraints, c.rule.KeyFits
  columns : ∀ c ∈ s.columnDefs, ∀ key ∈ c.references, key.Fits 1

end Statement

def Draft.columnDefs : Draft → List ColumnDef
  | .table d => d.columns
  | .alter d => d.change.toList.flatMap TableChange.columns
  | .finished s => s.columnDefs
  | _ => []

def Draft.tableConstraints : Draft → List TableConstraint
  | .table d => d.constraints
  | .finished s => s.tableConstraints
  | _ => []

/-- The columns that a call defines. -/
@[simp] def Call.columns : Call → List ColumnDef
  | .table call => call.columns
  | .alter change => change.columns
  | _ => []

/-- The constraints that a call puts on a table. -/
@[simp] def Call.constraints : Call → List TableConstraint
  | .table call => call.constraints
  | _ => []

/-! ## What calls give -/

/-- A call on a table adds what it defines: a query is taken only where nothing was defined. -/
theorem TableDraft.definitions_of_apply {d e : TableDraft} {call : TableCall}
    (h : d.apply call = .ok e) :
    e.columns = d.columns ++ call.columns ∧ e.constraints = d.constraints ++ call.constraints := by
  unfold apply at h
  split at h
  case h_7 =>
    obtain ⟨⟨columns, constraints, -⟩, rfl⟩ := TableParts.asSelect_eq_ok.mp h
    exact ⟨by simp [TableDraft.columns, columns], by simp [TableDraft.constraints, constraints]⟩
  case h_8 => cases h
  all_goals
    cases h
    simp [TableDraft.columns, TableDraft.constraints]

namespace Draft

/-- A call adds what it defines to what is defined. -/
theorem definitions_of_apply {d e : Draft} {call : Call} (h : d.apply call = .ok e) :
    e.columnDefs = d.columnDefs ++ call.columns ∧
      e.tableConstraints = d.tableConstraints ++ call.constraints := by
  cases step_of_apply h with
  | table hx => exact TableDraft.definitions_of_apply hx
  | @alter d _ change hx =>
    obtain ⟨table, _ | old⟩ := d
    · obtain ⟨-, rfl⟩ := AlterDraft.apply_eq_ok hx
      simp [columnDefs, tableConstraints]
    · cases hx
  | select | insert | update | delete | index | view | trigger | virtualTable | drop | vacuum =>
    exact ⟨rfl, rfl⟩

theorem definitions_of_runCalls {d e : Draft} {calls : List Call}
    (h : runCalls apply d calls = .ok e) :
    e.columnDefs = d.columnDefs ++ calls.flatMap Call.columns ∧
      e.tableConstraints = d.tableConstraints ++ calls.flatMap Call.constraints := by
  induction calls generalizing d with
  | nil =>
    cases h
    simp
  | cons call rest ih =>
    obtain ⟨next, happ, hrest⟩ := runCalls_cons_eq_ok.mp h
    obtain ⟨columns, constraints⟩ := definitions_of_apply happ
    rw [(ih hrest).1, (ih hrest).2, columns, constraints]
    simp

/-- The end of a draft keeps what is defined. -/
theorem definitions_of_finish {d : Draft} {s : Statement} (h : d.finish = .ok s) :
    s.columnDefs = d.columnDefs ∧ s.tableConstraints = d.tableConstraints := by
  cases finishes_of_finish h with
  | table ht => cases TableDraft.finishes_of_finish ht <;> exact ⟨rfl, rfl⟩
  | alter table change =>
    simp [Statement.columnDefs, Statement.tableConstraints, columnDefs, tableConstraints]
  | _ => exact ⟨rfl, rfl⟩

/-- What a draft builds or explains has the definitions of the draft. -/
theorem definitions_of_end {d : Draft} {s : Statement}
    (h : d.build = .ok s ∨ ∃ queryPlan, d.explain queryPlan = .ok s) :
    s.columnDefs = d.columnDefs ∧ s.tableConstraints = d.tableConstraints := by
  rcases h with h | ⟨queryPlan, h⟩
  · exact definitions_of_finish (build_eq_ok.mp h).1
  · obtain ⟨t, ht, -, rfl⟩ := explain_eq_ok h
    have inner := definitions_of_finish (build_eq_ok.mp ht).1
    exact ⟨inner.1, inner.2⟩

theorem definitions_of_start {start : Start} {d : Draft} (h : start.draft = .ok d) :
    d.columnDefs = [] ∧ d.tableConstraints = [] := by
  cases start with
  | opening w first =>
    cases first with
    | values rows =>
      obtain ⟨x, -, hd⟩ := bind_eq_ok.mp h
      cases pure_eq_ok.mp hd
      exact ⟨rfl, rfl⟩
    | _ => cases h; exact ⟨rfl, rfl⟩
  | _ => cases h; exact ⟨rfl, rfl⟩

end Draft

/-! ## Foreign keys of tables -/

namespace TableConstraint

/-- A foreign key is accepted exactly if it has columns and its reference fits them. -/
theorem foreignKey_eq_ok_iff {columns : List String} {key : ForeignKey} {c : TableConstraint} :
    foreignKey columns key = .ok c ↔
      columns ≠ [] ∧ key.Fits columns.length ∧ c = ⟨none, .foreignKey columns key⟩ := by
  rw [foreignKey, bind_eq_ok]
  simp only [required_eq_ok]
  have fits : key.Fits columns.length ↔
      (!key.columns.isEmpty && key.columns.length != columns.length) = false := by
    cases h : key.columns <;> simp [ForeignKey.Fits, h]
  constructor
  · rintro ⟨found, ⟨ne, rfl⟩, hc⟩
    split at hc
    · cases hc
    · rename_i arity
      exact ⟨ne, fits.mpr (Bool.not_eq_true _ ▸ arity), (pure_eq_ok.mp hc).symm⟩
  · rintro ⟨ne, hfits, rfl⟩
    exact ⟨columns, ⟨ne, rfl⟩, by rw [if_neg (by rw [fits.mp hfits]; exact Bool.false_ne_true)]; rfl⟩

theorem keyFits_of_onConflict {c d : TableConstraint} {action : ConflictAction}
    (h : c.onConflict action = .ok d) : d.rule.KeyFits := by
  obtain ⟨name, rule⟩ := c
  cases rule <;> cases h <;> trivial

end TableConstraint

/-- The foreign keys of what was made fit. -/
def Item.ConstraintsFit : Item → Prop
  | .constraint c => c.rule.KeyFits
  | .draft d => ∀ c ∈ d.tableConstraints, c.rule.KeyFits
  | .node (.statement s) => ∀ c ∈ s.tableConstraints, c.rule.KeyFits
  | .node _ | .withClause _ => True

theorem Call.constraints_mem_items {call : Call} {c : TableConstraint} (h : c ∈ call.constraints) :
    Item.constraint c ∈ call.items := by
  cases call with
  | table call =>
    cases call with
    | constraint found =>
      cases List.mem_singleton.mp h
      exact .head _
    | _ => exact absurd h List.not_mem_nil
  | _ => exact absurd h List.not_mem_nil

/-- A foreign key of a table is checked where it is made, and nothing changes it later. -/
theorem Made.constraintsFit {i : Item} (h : ByCalls i) : i.ConstraintsFit := by
  induction h with
  | given h => exact h.elim
  | primaryKey parts call =>
    obtain ⟨-, rfl⟩ := TableConstraint.primaryKey_eq_ok.mp call
    trivial
  | unique parts call =>
    obtain ⟨-, rfl⟩ := TableConstraint.unique_eq_ok.mp call
    trivial
  | foreignKey call =>
    obtain ⟨-, fits, rfl⟩ := TableConstraint.foreignKey_eq_ok_iff.mp call
    exact fits
  | constraintNamed name hc ih => exact ih
  | constraintConflict action hc call => exact TableConstraint.keyFits_of_onConflict call
  | @single s plain =>
    cases s with
    | createTable t | explain queryPlan s => exact Bool.noConfusion plain
    | _ => exact fun c hc => absurd hc List.not_mem_nil
  | built hd call ih =>
    intro c hc
    rw [(Draft.definitions_of_end (.inl call)).2] at hc
    exact ih c hc
  | explained queryPlan hd call ih =>
    intro c hc
    rw [(Draft.definitions_of_end (.inr ⟨queryPlan, call⟩)).2] at hc
    exact ih c hc
  | started items call =>
    intro c hc
    rw [(Draft.definitions_of_start call).2] at hc
    exact absurd hc List.not_mem_nil
  | called hd items applied ihd ihitems =>
    intro c hc
    rw [(Draft.definitions_of_apply applied).2] at hc
    rcases List.mem_append.mp hc with hc | hc
    · exact ihd c hc
    · exact ihitems _ (Call.constraints_mem_items hc)
  | finished hs ih => exact ih
  | _ => trivial

/-! ## Every reference -/

/-- What a draft builds or explains after a run of accepted calls defines the columns that the draft had
and those that were handed to the calls, each as it was given. Its foreign keys fit, if the draft and all
that its calls took were made by calls; the references of its columns need not: they fit exactly if none
of these columns names several parents. -/
theorem Statement.references_of_calls {d e : Draft} {s : Statement} {calls : List Call}
    (hd : ByCalls (.draft d)) (items : ∀ call ∈ calls, ∀ i ∈ call.items, ByCalls i)
    (hrun : runCalls Draft.apply d calls = .ok e)
    (hs : e.build = .ok s ∨ ∃ queryPlan, e.explain queryPlan = .ok s) :
    s.columnDefs = d.columnDefs ++ calls.flatMap Call.columns ∧
      (∀ c ∈ s.tableConstraints, c.rule.KeyFits) ∧
      (s.KeysFit ↔
        ∀ c ∈ d.columnDefs ++ calls.flatMap Call.columns, ∀ key ∈ c.references,
          key.columns.length ≤ 1) := by
  have columns : s.columnDefs = d.columnDefs ++ calls.flatMap Call.columns := by
    rw [(Draft.definitions_of_end hs).1, (Draft.definitions_of_runCalls hrun).1]
  have constraints : ∀ c ∈ s.tableConstraints, c.rule.KeyFits := by
    rw [(Draft.definitions_of_end hs).2]
    exact Made.constraintsFit (hd.run items hrun)
  refine ⟨columns, constraints, ?_⟩
  simp only [← columns, ← ForeignKey.fits_one_iff]
  exact ⟨fun h => h.columns, fun h => ⟨constraints, h⟩⟩

namespace Sample

def parents (columns : List String) : ForeignKey := (ForeignKey.toTable "p").toColumns columns

/-- A column with a named reference. -/
def child (columns : List String) : ColumnDef :=
  (ColumnDef.start "a").constrained (some "k") (.references (parents columns))

end Sample

open Sample in
/-- A table with a foreign key on two columns and a reference of one column. -/
theorem Statement.references_of_pair :
    ∃ s, (runCalls Draft.apply (.table (.start (.unqualified "t")))
        [.table (.column (child ["x"])), .table (.column (.start "b")),
          .table (.constraint ⟨none, .foreignKey ["a", "b"] (parents ["x", "y"])⟩)]).bind
        Draft.build = .ok s ∧ s.KeysFit := by
  have first : ByCalls (.draft (.table (.start (.unqualified "t")))) := by
    have opening : Start.draft (.table (.unqualified "t")) = .ok (.table (.start (.unqualified "t"))) :=
      rfl
    exact .started (List.forall_mem_nil _) opening
  have key : ByCalls (.constraint ⟨none, .foreignKey ["a", "b"] (parents ["x", "y"])⟩) := by
    have call : TableConstraint.foreignKey ["a", "b"] (parents ["x", "y"]) =
        .ok ⟨none, .foreignKey ["a", "b"] (parents ["x", "y"])⟩ := rfl
    exact .foreignKey call
  obtain ⟨e, s, run, built⟩ : ∃ e s, runCalls Draft.apply (.table (.start (.unqualified "t")))
      [.table (.column (child ["x"])), .table (.column (.start "b")),
        .table (.constraint ⟨none, .foreignKey ["a", "b"] (parents ["x", "y"])⟩)] = .ok e ∧
      e.build = .ok s := ⟨_, _, rfl, rfl⟩
  have items : ∀ call ∈ [.table (.column (child ["x"])), .table (.column (.start "b")),
      .table (.constraint ⟨none, .foreignKey ["a", "b"] (parents ["x", "y"])⟩)],
      ∀ i ∈ Call.items call, ByCalls i := by
    refine List.forall_mem_cons.mpr ⟨List.forall_mem_nil _, ?_⟩
    refine List.forall_mem_cons.mpr ⟨List.forall_mem_nil _, ?_⟩
    exact List.forall_mem_singleton.mpr (List.forall_mem_singleton.mpr key)
  refine ⟨s, by rw [run]; exact built, ?_⟩
  refine (references_of_calls first items run (.inl built)).2.2.mpr ?_
  decide

open Sample in
/-- One column that names two parents is taken into a new table and into an old one. As a foreign key of
the table the same reference is refused. -/
theorem Statement.column_names_two_parents :
    let two := parents ["x", "y"]
    (runCalls ColumnDraft.apply (.column (.start "a"))
        [.constraintName "k", .rule (.references two)]).bind ColumnDraft.finish =
      .ok (child ["x", "y"]) ∧
    (∃ s, (runCalls Draft.apply (.table (.start (.unqualified "t")))
        [.table (.column (child ["x", "y"]))]).bind Draft.build = .ok s ∧ ¬ s.KeysFit) ∧
    (∃ s, (runCalls Draft.apply (.alter (.start (.unqualified "t")))
        [.alter (.addColumn (child ["x", "y"]))]).bind Draft.build = .ok s ∧ ¬ s.KeysFit) ∧
    TableConstraint.foreignKey ["a"] two = .error (.construction (.foreignKeyArity 1 2)) := by
  have unfit : ¬ (parents ["x", "y"]).Fits 1 := by
    rw [ForeignKey.fits_one_iff]
    decide
  refine ⟨rfl, ⟨_, rfl, fun h => ?_⟩, ⟨_, rfl, fun h => ?_⟩, rfl⟩
  · exact unfit (h.columns _ (.head _) _ (.head _))
  · exact unfit (h.columns _ (.head _) _ (.head _))

end SqliteSyntax
