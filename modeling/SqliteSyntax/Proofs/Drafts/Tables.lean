import SqliteSyntax.Proofs.Drafts.Stages
import SqliteSyntax.Proofs.Rules.Finished
import SqliteSyntax.Proofs.Rules.Objects

/-! # What calls give to a table

The calls on a table with definitions are all accepted, in any order
(`TableDraft.runCalls_definitions`), and its rules are asked at the end. They are stated of the calls,
and `TableOutcome` says what is built: the first rule that fails decides the error. -/
namespace SqliteSyntax
set_option autoImplicit false

/-! ## What one call gives -/

/-- The calls on a table, without their arguments. -/
inductive TableClause where
  | temporary
  | ifNotExists
  | column
  | constraint
  | withoutRowid
  | strict
  | asSelect
deriving DecidableEq

namespace TableCall

def clause : TableCall → TableClause
  | .temporary => .temporary
  | .ifNotExists => .ifNotExists
  | .column _ => .column
  | .constraint _ => .constraint
  | .withoutRowid => .withoutRowid
  | .strict => .strict
  | .asSelect _ => .asSelect

@[simp] def columns : TableCall → List ColumnDef
  | .column definition => [definition]
  | _ => []

@[simp] def constraints : TableCall → List TableConstraint
  | .constraint c => [c]
  | _ => []

/-- The nodes that a call gives. -/
@[simp] def parts : TableCall → List Node
  | .column definition => definition.parts
  | .constraint c => c.rule.parts
  | .asSelect query => [.query query]
  | .temporary | .ifNotExists | .withoutRowid | .strict => []

end TableCall

/-- The clauses to which calls give. -/
def clausesOf (calls : List TableCall) : List TableClause := calls.map TableCall.clause

/-- What calls give to a table, whatever their order. -/
def TableParts.of (name : QualifiedName) (calls : List TableCall) : TableParts where
  temporary := decide (.temporary ∈ clausesOf calls)
  ifNotExists := decide (.ifNotExists ∈ clausesOf calls)
  name := name
  columns := calls.flatMap TableCall.columns
  constraints := calls.flatMap TableCall.constraints
  withoutRowid := decide (.withoutRowid ∈ clausesOf calls)
  strict := decide (.strict ∈ clausesOf calls)

/-- The table with these parts. -/
def TableParts.created (t : TableParts) : CreateTable :=
  ⟨t.temporary, t.ifNotExists, t.name,
    .definitions t.columns t.constraints t.withoutRowid t.strict⟩

theorem TableDraft.apply_definitions (name : QualifiedName) (calls : List TableCall)
    {call : TableCall} (h : call.clause ≠ .asSelect) :
    (definitions (.of name calls)).apply call =
      .ok (.definitions (.of name (calls ++ [call]))) := by
  cases call with
  | asSelect query => exact absurd rfl h
  | _ => simp [apply, TableParts.of, clausesOf, TableCall.clause]

/-- Calls that give definitions and options are accepted in any order and number. -/
theorem TableDraft.runCalls_definitions (name : QualifiedName) {calls : List TableCall}
    (h : .asSelect ∉ clausesOf calls) :
    runCalls apply (.start name) calls = .ok (.definitions (.of name calls)) := by
  induction calls using List.reverseRecOn with
  | nil => rfl
  | append_singleton front call ih =>
    rw [clausesOf, List.map_append, List.mem_append, not_or] at h
    obtain ⟨hfront, hcall⟩ := h
    rw [List.map_singleton, List.mem_singleton] at hcall
    rw [runCalls_concat_eq_ok]
    exact ⟨_, ih hfront, apply_definitions name front (Ne.symm hcall)⟩

/-! ## The rules of a table -/

section Rules
variable (name : QualifiedName) (calls : List TableCall)

/-- A table without row numbers has a primary key, of a column or of the table. -/
def Keyed : Prop :=
  .withoutRowid ∈ clausesOf calls →
    (∃ c, .column c ∈ calls ∧ ∃ k ∈ c.constraints, k.rule.isPrimaryKey = true) ∨
      ∃ c, .constraint c ∈ calls ∧ c.rule.isPrimaryKey = true

/-- A temporary table is in no schema but its own. -/
def SchemaFits : Prop :=
  .temporary ∈ clausesOf calls → ∀ schema ∈ name.schema, sameIgnoringCase schema "temp" = true

/-- No `RAISE` stands in what the calls gave, at any depth. -/
def RaiseFree : Prop :=
  ∀ call ∈ calls, ∀ m ∈ call.parts, ∀ action, ¬ Inside (.expr (.raise action)) m

/-- What is built of the calls on a table with definitions: the first rule that fails decides. -/
inductive TableOutcome : Except Failure Statement → Prop
  | noColumn (h : .column ∉ clausesOf calls) : TableOutcome (.error (.of .noTableColumns))
  | noKey (column : .column ∈ clausesOf calls) (h : ¬ Keyed calls) :
      TableOutcome (.error (.of .rowidWithoutPrimaryKey))
  | otherSchema (column : .column ∈ clausesOf calls) (keyed : Keyed calls) {schema : String}
      (h : ¬ SchemaFits name calls) (hs : name.schema = some schema) :
      TableOutcome (.error (.of (.temporaryInSchema schema)))
  | raises (column : .column ∈ clausesOf calls) (keyed : Keyed calls)
      (schema : SchemaFits name calls) (h : ¬ RaiseFree calls) :
      TableOutcome (.error (.of (.raiseOutsideTrigger .createTable)))
  | built (column : .column ∈ clausesOf calls) (keyed : Keyed calls)
      (schema : SchemaFits name calls) (plain : RaiseFree calls) :
      TableOutcome (.ok (.createTable (TableParts.of name calls).created))

end Rules

/-! ## The checks at the end -/

theorem TableCall.mem_columns {calls : List TableCall} {definition : ColumnDef} :
    definition ∈ calls.flatMap TableCall.columns ↔ .column definition ∈ calls := by
  have here (call : TableCall) : definition ∈ call.columns ↔ call = .column definition := by
    cases call <;> simp [eq_comm]
  simp only [List.mem_flatMap, here, exists_eq_right]

theorem TableCall.mem_constraints {calls : List TableCall} {c : TableConstraint} :
    c ∈ calls.flatMap TableCall.constraints ↔ .constraint c ∈ calls := by
  have here (call : TableCall) : c ∈ call.constraints ↔ call = .constraint c := by
    cases call <;> simp [eq_comm]
  simp only [List.mem_flatMap, here, exists_eq_right]

/-- A list in a table is empty if no call gave to it. -/
theorem TableCall.flatMap_eq_nil_iff {α : Type} {f : TableCall → List α} {clause : TableClause}
    (h : ∀ call, f call = [] ↔ call.clause ≠ clause) {calls : List TableCall} :
    calls.flatMap f = [] ↔ clause ∉ clausesOf calls := by
  simp only [clausesOf, List.flatMap_eq_nil_iff, List.mem_map, h, not_exists, not_and]

namespace TableParts
variable (name : QualifiedName) {calls : List TableCall}

theorem columns_of_eq_nil : (of name calls).columns = [] ↔ .column ∉ clausesOf calls :=
  TableCall.flatMap_eq_nil_iff fun call => by cases call <;> simp [TableCall.clause]

theorem constraints_of_eq_nil :
    (of name calls).constraints = [] ↔ .constraint ∉ clausesOf calls :=
  TableCall.flatMap_eq_nil_iff fun call => by cases call <;> simp [TableCall.clause]

theorem hasPrimaryKey_of : (of name calls).hasPrimaryKey = true ↔
    (∃ c, .column c ∈ calls ∧ ∃ k ∈ c.constraints, k.rule.isPrimaryKey = true) ∨
      ∃ c, .constraint c ∈ calls ∧ c.rule.isPrimaryKey = true := by
  simp only [hasPrimaryKey, Bool.or_eq_true, List.any_eq_true, of, TableCall.mem_columns,
    TableCall.mem_constraints, ColumnDef.isPrimaryKey]

theorem keyed_iff :
    Keyed calls ↔ ((of name calls).withoutRowid && !(of name calls).hasPrimaryKey) = false := by
  rw [Keyed, ← hasPrimaryKey_of name]
  simp [of]

theorem schemaFits_iff {name : QualifiedName} {temporary : Bool} (h : temporary = decide (.temporary ∈ clausesOf calls)) :
    SchemaFits name calls ↔ checkTemporarySchema temporary name = .ok () := by
  rw [checkTemporarySchema_eq_ok, h, decide_eq_true_iff, SchemaFits]

end TableParts

theorem checkTemporarySchema_eq_error {temporary : Bool} {name : QualifiedName}
    (h : checkTemporarySchema temporary name ≠ .ok ()) :
    ∃ schema, name.schema = some schema ∧
      checkTemporarySchema temporary name = .error (.of (.temporaryInSchema schema)) := by
  rw [checkTemporarySchema] at h ⊢
  cases hs : name.schema with
  | none => simp [hs] at h
  | some schema =>
    refine ⟨schema, rfl, ?_⟩
    simp only [hs] at h ⊢
    split at h
    · rw [if_pos ‹_›]
    · exact absurd rfl h

/-! ### `RAISE` in a table -/

theorem Statement.hasPlainRaise_createTable {t : CreateTable} :
    (Statement.createTable t).HasPlainRaise ↔
      ∃ m ∈ t.body.parts, ∃ action, Inside (.expr (.raise action)) m := by
  have plain {m : Node} (hm : m ∈ t.body.parts) (action : RaiseAction) :
      Plainly (.expr (.raise action)) m ↔ Inside (.expr (.raise action)) m :=
    Node.plainly_iff_inside (Node.NoStatements.tableBody t.body m hm)
  constructor
  · rintro ⟨action, h⟩
    rcases Relation.ReflTransGen.cases_tail h with heq | ⟨m, hrest, hstep, -⟩
    · cases heq
    · exact ⟨m, hstep, action, (plain hstep action).mp hrest⟩
  · rintro ⟨m, hm, action, h⟩
    exact ⟨action, .tail ((plain hm action).mpr h) ⟨hm, rfl⟩⟩

theorem TableCall.mem_definitions {calls : List TableCall} (h : .asSelect ∉ clausesOf calls)
    {m : Node} {withoutRowid strict : Bool} :
    m ∈ (TableBody.definitions (calls.flatMap TableCall.columns)
      (calls.flatMap TableCall.constraints) withoutRowid strict).parts ↔
        ∃ call ∈ calls, m ∈ call.parts := by
  simp only [TableBody.parts, List.mem_append, List.mem_flatMap (f := ColumnDef.parts),
    List.mem_flatMap (f := fun c : TableConstraint => c.rule.parts), mem_columns, mem_constraints]
  constructor
  · rintro (⟨c, hc, hm⟩ | ⟨c, hc, hm⟩)
    · exact ⟨.column c, hc, hm⟩
    · exact ⟨.constraint c, hc, hm⟩
  · rintro ⟨call, hcall, hm⟩
    cases call with
    | column c => exact .inl ⟨c, hcall, hm⟩
    | constraint c => exact .inr ⟨c, hcall, hm⟩
    | asSelect query => exact absurd (List.mem_map_of_mem hcall) h
    | _ => exact absurd hm List.not_mem_nil

theorem raiseFree_iff (name : QualifiedName) {calls : List TableCall}
    (h : .asSelect ∉ clausesOf calls) :
    RaiseFree calls ↔ ¬ (Statement.createTable (TableParts.of name calls).created).HasPlainRaise := by
  rw [Statement.hasPlainRaise_createTable]
  simp only [TableParts.created, TableParts.of, TableCall.mem_definitions h, RaiseFree]
  constructor
  · rintro free ⟨m, ⟨call, hcall, hm⟩, action, inside⟩
    exact free call hcall m hm action inside
  · intro none call hcall m hm action inside
    exact none ⟨m, ⟨call, hcall, hm⟩, action, inside⟩

/-! ## What is built -/

theorem Draft.build_table_of_error {d : TableDraft} {failure : Failure}
    (h : d.finish = .error failure) : (Draft.table d).build = .error failure := by
  have hfinish : (Draft.table d).finish = .error failure := by
    rw [finish, h]
    rfl
  rw [build, hfinish]
  rfl

theorem Draft.finish_table {d : TableDraft} {t : CreateTable} (h : d.finish = .ok t) :
    (Draft.table d).finish = .ok (.createTable t) := by
  rw [finish, h]
  rfl

theorem Draft.build_table_eq_ok {d : TableDraft} {t : CreateTable} (h : d.finish = .ok t)
    {s : Statement} :
    (Draft.table d).build = .ok s ↔
      s = .createTable t ∧ ¬ (Statement.createTable t).HasPlainRaise := by
  rw [build_eq_ok, finish_table h]
  constructor
  · rintro ⟨heq, plain⟩
    cases heq
    exact ⟨rfl, plain⟩
  · rintro ⟨rfl, plain⟩
    exact ⟨rfl, plain⟩

theorem Draft.build_table_of_raise {d : TableDraft} {t : CreateTable} (h : d.finish = .ok t)
    (raises : (Statement.createTable t).HasPlainRaise) :
    (Draft.table d).build = .error (.of (.raiseOutsideTrigger .createTable)) :=
  Draft.build_of_containsRaise (finish_table h) (Statement.containsRaise_iff.mpr raises)

/-- With columns and a key where one is needed, only the schema is still asked for. -/
theorem TableDraft.finish_of_keyed {t : TableParts} (columns : t.columns ≠ [])
    (key : (t.withoutRowid && !t.hasPrimaryKey) = false) :
    (definitions t).finish = (checkTemporarySchema t.temporary t.name).map fun _ => t.created := by
  rw [finish, if_neg (by simpa using columns), key, if_neg Bool.false_ne_true]
  cases checkTemporarySchema t.temporary t.name <;> rfl

theorem TableDraft.outcome_of_definitions (name : QualifiedName) {calls : List TableCall}
    (h : .asSelect ∉ clausesOf calls) :
    TableOutcome name calls (Draft.table (.definitions (.of name calls))).build := by
  -- one rule after the other, in the order in which they are asked
  by_cases column : .column ∈ clausesOf calls
  swap
  · have ended : (definitions (.of name calls)).finish = .error (.of .noTableColumns) := by
      rw [finish, if_pos (List.isEmpty_iff.mpr ((TableParts.columns_of_eq_nil name).mpr column))]
    rw [Draft.build_table_of_error ended]
    exact .noColumn column
  have columns : (TableParts.of name calls).columns ≠ [] := by
    rw [ne_eq, TableParts.columns_of_eq_nil, not_not]
    exact column
  by_cases keyed : Keyed calls
  swap
  · have ended : (definitions (.of name calls)).finish = .error (.of .rowidWithoutPrimaryKey) := by
      rw [TableParts.keyed_iff name, Bool.not_eq_false] at keyed
      rw [finish, if_neg (by simpa using columns), if_pos keyed]
    rw [Draft.build_table_of_error ended]
    exact .noKey column keyed
  have ends := finish_of_keyed columns ((TableParts.keyed_iff name).mp keyed)
  by_cases schema : SchemaFits name calls
  swap
  · have other := schema
    rw [TableParts.schemaFits_iff rfl] at other
    obtain ⟨found, hfound, ended⟩ := checkTemporarySchema_eq_error other
    have refused : (definitions (.of name calls)).finish =
        .error (.of (.temporaryInSchema found)) := by
      rw [ends]
      exact congrArg (Except.map _) ended
    rw [Draft.build_table_of_error refused]
    exact .otherSchema column keyed schema hfound
  have ended : (definitions (.of name calls)).finish = .ok (TableParts.of name calls).created := by
    rw [ends]
    exact congrArg (Except.map _) ((TableParts.schemaFits_iff rfl).mp schema)
  by_cases plain : RaiseFree calls
  · rw [(Draft.build_table_eq_ok ended).mpr ⟨rfl, (raiseFree_iff name h).mp plain⟩]
    exact .built column keyed schema plain
  · have raises := not_not.mp (mt (raiseFree_iff name h).mpr plain)
    rw [Draft.build_table_of_raise ended raises]
    exact .raises column keyed schema plain

theorem TableOutcome.isOk_iff {name : QualifiedName} {calls : List TableCall}
    {result : Except Failure Statement} (h : TableOutcome name calls result) :
    (∃ s, result = .ok s) ↔
      .column ∈ clausesOf calls ∧ Keyed calls ∧ SchemaFits name calls ∧ RaiseFree calls := by
  cases h with
  | noColumn column => simp [column]
  | noKey column keyed => simp [keyed]
  | otherSchema column keyed schema => simp [schema]
  | raises column keyed schema plain => simp [plain]
  | built column keyed schema plain => simp [column, keyed, schema, plain]

/-! ## Tables of queries -/

theorem TableParts.asSelect_eq_ok {t : TableParts} {q : Select} {e : TableDraft} :
    t.asSelect q = .ok e ↔ (t.columns = [] ∧ t.constraints = [] ∧ t.withoutRowid = false ∧
      t.strict = false) ∧ e = .fromSelect t.temporary t.ifNotExists t.name q := by
  obtain ⟨temporary, ifNotExists, name, columns, constraints, withoutRowid, strict⟩ := t
  cases columns <;> cases constraints <;> cases withoutRowid <;> cases strict <;>
    simp [asSelect, eq_comm]

theorem TableDraft.build_fromSelect {temporary ifNotExists : Bool} {name : QualifiedName}
    {q : Select} {s : Statement} :
    (Draft.table (.fromSelect temporary ifNotExists name q)).build = .ok s ↔
      s = .createTable ⟨temporary, ifNotExists, name, .asSelect q⟩ ∧
        checkTemporarySchema temporary name = .ok () ∧
        ∀ action, ¬ Inside (.expr (.raise action)) (.query q) := by
  have raises : (Statement.createTable ⟨temporary, ifNotExists, name, .asSelect q⟩).HasPlainRaise ↔
      ∃ action, Inside (.expr (.raise action)) (.query q) := by
    rw [Statement.hasPlainRaise_createTable]
    simp [TableBody.parts]
  by_cases schema : checkTemporarySchema temporary name = .ok ()
  · have ended : (fromSelect temporary ifNotExists name q).finish =
        .ok ⟨temporary, ifNotExists, name, .asSelect q⟩ := by
      rw [finish, schema]
      rfl
    rw [Draft.build_table_eq_ok ended, raises, not_exists]
    simp only [schema, true_and]
  · obtain ⟨found, -, refused⟩ := checkTemporarySchema_eq_error schema
    have ended : (fromSelect temporary ifNotExists name q).finish =
        .error (.of (.temporaryInSchema found)) := by
      rw [finish, refused]
      rfl
    rw [Draft.build_table_of_error ended]
    simp [schema]

/-- Calls that give definitions and options to a table are all accepted, in any order and number. The
table is built exactly if a column was given, a table without row numbers has a primary key, a
temporary table no schema but its own, and no expression a `RAISE`; the first of these that fails
decides the error, and what is built has the columns and the constraints that were given, each in call
order. A query in place of definitions is accepted exactly if none was given, nor an option, and the
table is then built exactly if its schema fits and the query has no `RAISE`. -/
theorem TableDraft.build_of_calls (name : QualifiedName) (calls : List TableCall)
    (h : .asSelect ∉ clausesOf calls) :
    ∃ d, runCalls apply (.start name) calls = .ok d ∧
      TableOutcome name calls (Draft.table d).build ∧
      ((∃ s, (Draft.table d).build = .ok s) ↔
        .column ∈ clausesOf calls ∧ Keyed calls ∧ SchemaFits name calls ∧ RaiseFree calls) ∧
      ∀ q, ((∃ e, d.apply (.asSelect q) = .ok e) ↔
          .column ∉ clausesOf calls ∧ .constraint ∉ clausesOf calls ∧
            .withoutRowid ∉ clausesOf calls ∧ .strict ∉ clausesOf calls) ∧
        ∀ e, d.apply (.asSelect q) = .ok e → ∀ s, (Draft.table e).build = .ok s ↔
          s = .createTable ⟨decide (.temporary ∈ clausesOf calls),
              decide (.ifNotExists ∈ clausesOf calls), name, .asSelect q⟩ ∧
            SchemaFits name calls ∧ ∀ action, ¬ Inside (.expr (.raise action)) (.query q) := by
  have outcome := outcome_of_definitions name h
  refine ⟨_, runCalls_definitions name h, outcome, outcome.isOk_iff, fun q => ?_⟩
  have accepted (e : TableDraft) :
      (definitions (.of name calls)).apply (.asSelect q) = .ok e ↔
        (.column ∉ clausesOf calls ∧ .constraint ∉ clausesOf calls ∧
          .withoutRowid ∉ clausesOf calls ∧ .strict ∉ clausesOf calls) ∧
        e = .fromSelect (decide (.temporary ∈ clausesOf calls))
          (decide (.ifNotExists ∈ clausesOf calls)) name q := by
    rw [apply, TableParts.asSelect_eq_ok, TableParts.columns_of_eq_nil,
      TableParts.constraints_of_eq_nil]
    simp only [TableParts.of, decide_eq_false_iff_not]
  constructor
  · constructor
    · rintro ⟨e, he⟩
      exact ((accepted e).mp he).1
    · intro none
      exact ⟨_, (accepted _).mpr ⟨none, rfl⟩⟩
  · intro e he s
    obtain ⟨-, rfl⟩ := (accepted e).mp he
    rw [build_fromSelect, TableParts.schemaFits_iff rfl]

namespace Sample

/-- Calls that begin with an option and end with a flag; the key is a constraint of the table. -/
def keyedCalls : List TableCall :=
  [.withoutRowid, .constraint ⟨some "k", .primaryKey [.named "a"] none⟩, .temporary,
    .column (.start "a"), .strict, .column (.start "b"), .ifNotExists]

/-- Calls on a table that lacks a key, is temporary in another schema and has a `RAISE`. -/
def faultyCalls : List TableCall :=
  [.temporary, .column ((ColumnDef.start "a").constrained none (.check (.raise .ignore))),
    .withoutRowid]

theorem raiseFree_keyedCalls : RaiseFree keyedCalls := by
  have leaf (action : RaiseAction) : ¬ Inside (.expr (.raise action)) (.expr (.named "a")) := by
    intro inside
    rcases Relation.ReflTransGen.cases_tail inside with heq | ⟨m, -, hm⟩
    · cases heq
    · exact absurd hm List.not_mem_nil
  intro call hcall m hm action
  simp only [keyedCalls, List.mem_cons, List.not_mem_nil, or_false] at hcall
  rcases hcall with rfl | rfl | rfl | rfl | rfl | rfl | rfl
  case inr.inl =>
    cases List.mem_singleton.mp hm
    exact leaf action
  all_goals exact absurd hm List.not_mem_nil

end Sample

open Sample in
/-- A table whose calls keep all rules, one that breaks three of them, and one of a query that is
refused for its schema. -/
theorem TableDraft.build_of_calls_temporary :
    (∃ d s, runCalls apply (.start ⟨some "TEMP", "t"⟩) keyedCalls = .ok d ∧
      (Draft.table d).build = .ok s) ∧
    (∃ d, runCalls apply (.start ⟨some "main", "t"⟩) faultyCalls = .ok d ∧
      (Draft.table d).build = .error (.of .rowidWithoutPrimaryKey)) ∧
    ∃ d e, runCalls apply (.start ⟨some "main", "t"⟩) [.ifNotExists, .temporary] = .ok d ∧
      d.apply (.asSelect (.ofBody (.values [[.named "x"]]))) = .ok e ∧
      ¬ ∃ s, (Draft.table e).build = .ok s := by
  refine ⟨?_, ?_, ?_⟩
  · obtain ⟨d, run, -, builds, -⟩ :=
      build_of_calls ⟨some "TEMP", "t"⟩ keyedCalls (by decide)
    have keyed : Keyed keyedCalls := fun _ =>
      .inr ⟨⟨some "k", .primaryKey [.named "a"] none⟩, by simp [keyedCalls], rfl⟩
    have schema : SchemaFits ⟨some "TEMP", "t"⟩ keyedCalls := by
      intro _ schema hs
      cases hs
      decide
    obtain ⟨s, hs⟩ := builds.mpr ⟨by decide, keyed, schema, raiseFree_keyedCalls⟩
    exact ⟨d, s, run, hs⟩
  · obtain ⟨d, run, outcome, -, -⟩ :=
      build_of_calls ⟨some "main", "t"⟩ faultyCalls (by decide)
    have unkeyed : ¬ Keyed faultyCalls := by
      intro keyed
      rcases keyed (by decide) with ⟨c, hc, k, hk, hkey⟩ | ⟨c, hc, -⟩
      · simp only [faultyCalls, List.mem_cons, reduceCtorEq, TableCall.column.injEq,
          List.not_mem_nil, or_false, false_or] at hc
        rw [hc] at hk
        cases List.mem_singleton.mp hk
        exact Bool.noConfusion hkey
      · simp [faultyCalls] at hc
    refine ⟨d, run, ?_⟩
    generalize (Draft.table d).build = result at outcome ⊢
    cases outcome with
    | noKey => rfl
    | noColumn column => exact absurd (by decide) column
    | otherSchema _ keyed | raises _ keyed | built _ keyed => exact absurd keyed unkeyed
  · obtain ⟨d, run, -, -, queries⟩ :=
      build_of_calls ⟨some "main", "t"⟩ [.ifNotExists, .temporary] (by decide)
    obtain ⟨accepted, built⟩ := queries (.ofBody (.values [[.named "x"]]))
    obtain ⟨e, he⟩ := accepted.mpr (by decide)
    refine ⟨d, e, run, he, ?_⟩
    rintro ⟨s, hs⟩
    obtain ⟨-, schema, -⟩ := (built e he s).mp hs
    exact absurd (schema (by decide) "main" rfl) (by decide)

end SqliteSyntax
