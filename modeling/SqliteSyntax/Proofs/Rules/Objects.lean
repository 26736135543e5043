import SqliteSyntax.Proofs.Rules.Accepted

/-! # Calls on schema objects

What the calls on tables, indexes, views, changes of tables and triggers do, and what their ends
check. -/
namespace SqliteSyntax
set_option autoImplicit false

/-! ## Tables -/

theorem checkTemporarySchema_eq_ok {temporary : Bool} {name : QualifiedName} :
    checkTemporarySchema temporary name = .ok () ↔
      (temporary → ∀ schema ∈ name.schema, sameIgnoringCase schema "temp") := by
  cases h : name.schema with
  | none => simp [checkTemporarySchema, h]
  | some schema =>
    cases temporary <;> cases hs : sameIgnoringCase schema "temp" <;>
      simp [checkTemporarySchema, h, hs]

namespace TableDraft

def columns : TableDraft → List ColumnDef
  | .definitions t => t.columns
  | .fromSelect .. => []

def constraints : TableDraft → List TableConstraint
  | .definitions t => t.constraints
  | .fromSelect .. => []

def query : TableDraft → Option Select
  | .definitions _ => none
  | .fromSelect _ _ _ q => some q

/-- What a call adds to the parts of a table. -/
inductive Adds (d e : TableDraft) : TableCall → Prop
  | column {c : ColumnDef} (columns : e.columns = d.columns ++ [c])
      (constraints : e.constraints = d.constraints) (query : e.query = d.query) :
      Adds d e (.column c)
  | constraint {c : TableConstraint} (columns : e.columns = d.columns)
      (constraints : e.constraints = d.constraints ++ [c]) (query : e.query = d.query) :
      Adds d e (.constraint c)
  | asSelect {q : Select} (columns : e.columns = []) (constraints : e.constraints = [])
      (query : e.query = some q) : Adds d e (.asSelect q)
  | nothing {call : TableCall} (columns : e.columns = d.columns)
      (constraints : e.constraints = d.constraints) (query : e.query = d.query) : Adds d e call

theorem adds_of_apply {d e : TableDraft} {call : TableCall} (happ : d.apply call = .ok e) :
    Adds d e call := by
  unfold apply at happ
  split at happ
  case h_1 => cases happ; exact .nothing rfl rfl rfl
  case h_2 => cases happ; exact .nothing rfl rfl rfl
  case h_3 => cases happ; exact .column rfl rfl rfl
  case h_4 => cases happ; exact .constraint rfl rfl rfl
  case h_5 => cases happ; exact .nothing rfl rfl rfl
  case h_6 => cases happ; exact .nothing rfl rfl rfl
  case h_7 =>
    unfold TableParts.asSelect at happ
    split at happ
    · cases happ
    · split at happ
      · cases happ
      · cases happ
        exact .asSelect rfl rfl rfl
  case h_8 => cases happ

/-- What a table ends in, and what was checked there. -/
inductive Finishes : TableDraft → CreateTable → Prop
  | definitions {parts : TableParts} (columns : parts.columns ≠ [])
      (key : parts.withoutRowid → parts.hasPrimaryKey)
      (schema : checkTemporarySchema parts.temporary parts.name = .ok ()) :
      Finishes (.definitions parts) ⟨parts.temporary, parts.ifNotExists, parts.name,
        .definitions parts.columns parts.constraints parts.withoutRowid parts.strict⟩
  | fromSelect {temporary : Bool} (ifNotExists : Bool) {name : QualifiedName} (q : Select)
      (schema : checkTemporarySchema temporary name = .ok ()) :
      Finishes (.fromSelect temporary ifNotExists name q)
        ⟨temporary, ifNotExists, name, .asSelect q⟩

theorem finishes_of_finish {d : TableDraft} {t : CreateTable} (h : d.finish = .ok t) :
    d.Finishes t := by
  cases d with
  | definitions parts =>
    rw [finish] at h
    split at h
    · cases h
    · rename_i columns
      split at h
      · cases h
      · rename_i key
        obtain ⟨⟨⟩, schema, ht⟩ := bind_eq_ok.mp h
        cases pure_eq_ok.mp ht
        exact .definitions (by simpa using columns) (by simpa using key) schema
  | fromSelect temporary ifNotExists name q =>
    obtain ⟨⟨⟩, schema, ht⟩ := bind_eq_ok.mp h
    cases pure_eq_ok.mp ht
    exact .fromSelect ifNotExists q schema

/-- Where a table can end, it keeps the rules of a table if its constraints keep theirs. -/
theorem sound_of_finish {d : TableDraft} {t : CreateTable} (h : d.finish = .ok t)
    (hc : ∀ c ∈ d.constraints, c.rule.Sound) : t.Sound := by
  cases finishes_of_finish h with
  | definitions columns key schema =>
    refine ⟨⟨columns, hc, fun hw => ?_⟩, checkTemporarySchema_eq_ok.mp schema⟩
    simpa [TableParts.hasPrimaryKey, HasPrimaryKey] using key hw
  | fromSelect ifNotExists q schema => exact ⟨trivial, checkTemporarySchema_eq_ok.mp schema⟩

end TableDraft

/-! ### Constraints -/

namespace TableConstraint

theorem primaryKey_eq_ok {columns : List IndexedColumn} {c : TableConstraint} :
    primaryKey columns = .ok c ↔ columns ≠ [] ∧ c = ⟨none, .primaryKey columns none⟩ := by
  simp only [primaryKey, bind_eq_ok, required_eq_ok, pure_eq_ok]
  constructor
  · rintro ⟨_, ⟨ne, rfl⟩, rfl⟩
    exact ⟨ne, rfl⟩
  · rintro ⟨ne, rfl⟩
    exact ⟨columns, ⟨ne, rfl⟩, rfl⟩

theorem unique_eq_ok {columns : List IndexedColumn} {c : TableConstraint} :
    unique columns = .ok c ↔ columns ≠ [] ∧ c = ⟨none, .unique columns none⟩ := by
  simp only [unique, bind_eq_ok, required_eq_ok, pure_eq_ok]
  constructor
  · rintro ⟨_, ⟨ne, rfl⟩, rfl⟩
    exact ⟨ne, rfl⟩
  · rintro ⟨ne, rfl⟩
    exact ⟨columns, ⟨ne, rfl⟩, rfl⟩

theorem foreignKey_eq_ok {columns : List String} {key : ForeignKey} {c : TableConstraint}
    (h : foreignKey columns key = .ok c) : columns ≠ [] ∧ c = ⟨none, .foreignKey columns key⟩ := by
  obtain ⟨found, hfound, hc⟩ := bind_eq_ok.mp h
  obtain ⟨ne, rfl⟩ := required_eq_ok.mp hfound
  split at hc
  · cases hc
  · exact ⟨ne, (pure_eq_ok.mp hc).symm⟩

/-- The action of a key leaves its columns alone. -/
theorem onConflict_eq_ok {c d : TableConstraint} {action : ConflictAction}
    (h : c.onConflict action = .ok d) :
    (d.rule.Sound ↔ c.rule.Sound) ∧ d.rule.parts = c.rule.parts := by
  obtain ⟨name, rule⟩ := c
  cases rule with
  | primaryKey columns old => cases h; exact ⟨Iff.rfl, rfl⟩
  | unique columns old => cases h; exact ⟨Iff.rfl, rfl⟩
  | _ => cases h

end TableConstraint

/-! ## Changes of tables -/

theorem AlterDraft.checkChange_eq_ok {change : TableChange} :
    checkChange change = .ok () ↔ change.Sound := by
  cases change with
  | addColumn c =>
    cases hp : c.isPrimaryKey <;> cases hu : c.isUnique <;>
      simp [checkChange, TableChange.Sound, hp, hu]
  | _ => simp [checkChange, TableChange.Sound]

theorem AlterDraft.apply_eq_ok {d e : AlterDraft} {change : TableChange}
    (h : d.apply change = .ok e) : change.Sound ∧ e = ⟨d.table, some change⟩ := by
  obtain ⟨table, old⟩ := d
  cases old with
  | some c => cases h
  | none =>
    obtain ⟨⟨⟩, hcheck, he⟩ := bind_eq_ok.mp h
    exact ⟨checkChange_eq_ok.mp hcheck, (pure_eq_ok.mp he).symm⟩

/-! ## Indexes and views -/

theorem CreateIndex.finish_eq_ok {i j : CreateIndex} :
    i.finish = .ok j ↔ i.columns ≠ [] ∧ i = j := by
  cases h : i.columns <;> simp [finish, h]

/-- A call adds columns to an index, a condition, or neither. -/
theorem CreateIndex.cases_of_apply {i j : CreateIndex} {call : IndexCall}
    (h : i.apply call = .ok j) :
    (j.columns = i.columns ∧ j.filter = i.filter) ∨
    (∃ c, call = .column c ∧ j.columns = i.columns ++ [c] ∧ j.filter = i.filter) ∨
    (∃ cs, call = .columns cs ∧ j.columns = i.columns ++ cs ∧ j.filter = i.filter) ∨
    ∃ e, call = .filter e ∧ j.columns = i.columns ∧ j.filter = conjoin i.filter e := by
  cases call with
  | unique => cases h; exact .inl ⟨rfl, rfl⟩
  | ifNotExists => cases h; exact .inl ⟨rfl, rfl⟩
  | column c => cases h; exact .inr (.inl ⟨c, rfl, rfl, rfl⟩)
  | columns cs =>
    obtain ⟨found, hfound, hj⟩ := bind_eq_ok.mp h
    obtain ⟨-, rfl⟩ := required_eq_ok.mp (orRefuse_eq_ok.mp hfound)
    cases pure_eq_ok.mp hj
    exact .inr (.inr (.inl ⟨found, rfl, rfl, rfl⟩))
  | filter e => cases h; exact .inr (.inr (.inr ⟨e, rfl, rfl, rfl⟩))

/-- A call gives the query of a view or leaves it alone. -/
theorem ViewDraft.query_of_apply {d e : ViewDraft} {call : ViewCall} (h : d.apply call = .ok e) :
    e.query = d.query ∨ ∃ q, call = .asSelect q ∧ e.query = some q := by
  unfold apply at h
  split at h
  · cases call with
    | temporary => cases h; exact .inl rfl
    | ifNotExists => cases h; exact .inl rfl
    | columns names =>
      obtain ⟨found, -, he⟩ := bind_eq_ok.mp h
      cases pure_eq_ok.mp he
      exact .inl rfl
    | asSelect q => cases h; exact .inr ⟨q, rfl, rfl⟩
  · cases h

theorem ViewDraft.finish_eq_ok {d : ViewDraft} {v : CreateView} (h : d.finish = .ok v) :
    d.query = some v.query := by
  unfold finish at h
  split at h
  · cases h
  · rename_i q hq
    cases h
    exact hq

/-! ## Triggers -/

namespace TriggerDraft

def steps : TriggerDraft → List Statement
  | .unbound .. | .timed .. => []
  | .bound _ steps => steps

def condition : TriggerDraft → Option Expr
  | .unbound .. | .timed .. => none
  | .bound header _ => header.condition

theorem stepOf_eq_ok {d : Draft} {s : Statement} :
    stepOf d = .ok s ↔ d.finish = .ok s ∧ s.checkStep = .ok () := by
  simp only [stepOf, bind_eq_ok, pure_eq_ok]
  constructor
  · rintro ⟨t, ht, ⟨⟩, hcheck, rfl⟩
    exact ⟨ht, hcheck⟩
  · rintro ⟨hs, hcheck⟩
    exact ⟨s, hs, (), hcheck, rfl⟩

/-- What the calls on a trigger do. -/
inductive Step : TriggerDraft → TriggerCall → TriggerDraft → Prop
  | temporary (temporary ifNotExists : Bool) (name : QualifiedName) :
      Step (.unbound temporary ifNotExists name) .temporary (.unbound true ifNotExists name)
  | ifNotExists (temporary ifNotExists : Bool) (name : QualifiedName) :
      Step (.unbound temporary ifNotExists name) .ifNotExists (.unbound temporary true name)
  | fires (temporary ifNotExists : Bool) (name : QualifiedName) (timing : Option TriggerTiming)
      (event : TriggerEvent) :
      Step (.unbound temporary ifNotExists name) (.fires timing event)
        (.timed temporary ifNotExists name timing event)
  | table (temporary ifNotExists : Bool) (name : QualifiedName) (timing : Option TriggerTiming)
      (event : TriggerEvent) (table : String) :
      Step (.timed temporary ifNotExists name timing event) (.table table)
        (.bound ⟨temporary, ifNotExists, name, timing, event, table, false, none⟩ [])
  | forEachRow (header : TriggerHeader) :
      Step (.bound header []) .forEachRow (.bound { header with forEachRow := true } [])
  | condition (header : TriggerHeader) (condition : Expr) :
      Step (.bound header []) (.condition condition)
        (.bound { header with condition := conjoin header.condition condition } [])
  | step (header : TriggerHeader) (steps : List Statement) {draft : Draft} {s : Statement}
      (accepted : stepOf draft = .ok s) :
      Step (.bound header steps) (.step draft) (.bound header (steps ++ [s]))

theorem step_of_apply {d e : TriggerDraft} {call : TriggerCall} (happ : d.apply call = .ok e) :
    d.Step call e := by
  unfold apply at happ
  split at happ
  case h_1 => cases happ; exact .temporary ..
  case h_2 => cases happ; exact .ifNotExists ..
  case h_3 => cases happ; exact .fires ..
  case h_4 => cases happ; exact .table ..
  case h_5 => cases happ; exact .forEachRow _
  case h_6 => cases happ; exact .condition ..
  case h_7 =>
    obtain ⟨s, accepted, he⟩ := bind_eq_ok.mp happ
    cases pure_eq_ok.mp he
    exact .step _ _ accepted
  case h_8 => cases happ

/-- A call changes the condition, adds a step, or leaves both alone. -/
theorem cases_of_apply {d e : TriggerDraft} {call : TriggerCall} (happ : d.apply call = .ok e) :
    (e.steps = d.steps ∧ e.condition = d.condition) ∨
    (∃ c, call = .condition c ∧ e.steps = d.steps ∧ e.condition = conjoin d.condition c) ∨
    ∃ draft s, call = .step draft ∧ stepOf draft = .ok s ∧ e.steps = d.steps ++ [s] ∧
      e.condition = d.condition := by
  cases step_of_apply happ with
  | temporary | ifNotExists | fires | table | forEachRow => exact .inl ⟨rfl, rfl⟩
  | condition header c => exact .inr (.inl ⟨c, rfl, rfl, rfl⟩)
  | step header steps accepted => exact .inr (.inr ⟨_, _, rfl, accepted, rfl, rfl⟩)

theorem finish_eq_ok {d : TriggerDraft} {s : Statement} (h : d.finish = .ok s) :
    ∃ header, s = .createTrigger header d.steps ∧ header.condition = d.condition ∧ d.steps ≠ [] := by
  unfold finish at h
  split at h
  · cases h
    exact ⟨_, rfl, rfl, by simp [steps]⟩
  · cases h

end TriggerDraft

end SqliteSyntax
