import SqliteSyntax.Draft.Basic
import SqliteSyntax.Statement.Basic

/-! # Drafts of insertions

An insertion names its table, may name columns, and then takes its rows from one source: rows given
one at a time, a query, or the defaults. Rows may be followed by `ON CONFLICT` clauses; of these
only the last may be without a target. -/
namespace SqliteSyntax
set_option autoImplicit false

/-- An assignment to one column. -/
def Assignment.toColumn (column : String) (value : Expr) : Assignment := ⟨[column], value⟩

/-- An assignment to a tuple of columns, of which there must be one. -/
def Assignment.toColumns (columns : List String) (value : Expr) : Except Error Assignment := do
  let columns ← required .assignedColumns columns
  return ⟨columns, value⟩

/-! ## Records and states -/

/-- All that an insertion was given so far. -/
structure InsertRecord where
  withClause : Option WithClause
  verb : InsertVerb
  table : QualifiedName
  asName : Option String
  columns : List String
  rows : List (List Expr)
  query : Option Select
  upserts : List Upsert
  returning : List ResultColumn

/-- How far an insertion is, between its clauses. The record does not tell this: one that has nothing
may be waiting for a source or insert the defaults. -/
inductive InsertState where
  | noSource
  | hasColumns
  | defaults
  | fromSelect
  | rows
deriving DecidableEq

/-- Whether a source is chosen. -/
def InsertState.isSourced : InsertState → Bool
  | .noSource | .hasColumns => false
  | .defaults | .fromSelect | .rows => true

/-- Whether a row may be given. -/
def InsertState.takesRows : InsertState → Bool
  | .noSource | .hasColumns | .rows => true
  | .defaults | .fromSelect => false

/-- An insertion in the making. -/
inductive InsertDraft where
  | insert (state : InsertState) (record : InsertRecord)
  /-- An `ON CONFLICT` clause of an insertion of rows, whose action is still to come. -/
  | conflict (record : InsertRecord) (target : Option UpsertTarget)
  /-- An `ON CONFLICT` clause that updates, still open. -/
  | updating (record : InsertRecord) (target : Option UpsertTarget) (assignments : List Assignment)
      (filter : Option Expr)

/-! ## Stages -/

inductive InsertStage where
  | noSource
  | hasColumns
  | defaults
  | fromSelect
  | rows
  | conflict
  | updating
deriving DecidableEq

def InsertState.stage : InsertState → InsertStage
  | .noSource => .noSource
  | .hasColumns => .hasColumns
  | .defaults => .defaults
  | .fromSelect => .fromSelect
  | .rows => .rows

def InsertDraft.stage : InsertDraft → InsertStage
  | .insert state _ => state.stage
  | .conflict .. => .conflict
  | .updating .. => .updating

/-! ## Calls -/

/-- The calls of an insertion, without their arguments. -/
inductive InsertClause where
  | named
  | columns
  | defaultValues
  | values
  | select
  | returning
  | onConflict
  | onAnyConflict
  | targetFilter
  | doNothing
  | doUpdate
  | assign
  | assignRow
  | filter
  | done
deriving DecidableEq

/-- A call on an insertion. -/
inductive InsertCall where
  | named (asName : String)
  | columns (columns : List String)
  | defaultValues
  | values (row : List Expr)
  | select (query : Select)
  | returning (columns : List ResultColumn)
  | onConflict (columns : List IndexedColumn)
  | onAnyConflict
  | targetFilter (condition : Expr)
  | doNothing
  | doUpdate (column : String) (value : Expr)
  | assign (column : String) (value : Expr)
  | assignRow (columns : List String) (value : Expr)
  | filter (condition : Expr)
  | done

def InsertCall.clause : InsertCall → InsertClause
  | .named _ => .named
  | .columns _ => .columns
  | .defaultValues => .defaultValues
  | .values _ => .values
  | .select _ => .select
  | .returning _ => .returning
  | .onConflict _ => .onConflict
  | .onAnyConflict => .onAnyConflict
  | .targetFilter _ => .targetFilter
  | .doNothing => .doNothing
  | .doUpdate .. => .doUpdate
  | .assign .. => .assign
  | .assignRow .. => .assignRow
  | .filter _ => .filter
  | .done => .done

/-- The calls that a stage offers. -/
def InsertStage.offers : InsertStage → InsertClause → Bool
  | .noSource, .columns | .noSource, .defaultValues => true
  | .noSource, .named | .noSource, .values | .noSource, .select => true
  | .hasColumns, .named | .hasColumns, .values | .hasColumns, .select => true
  | .defaults, .returning | .fromSelect, .returning | .rows, .returning => true
  | .rows, .values | .rows, .onConflict | .rows, .onAnyConflict => true
  | .conflict, .targetFilter | .conflict, .doNothing | .conflict, .doUpdate => true
  | .updating, .assign | .updating, .assignRow | .updating, .filter | .updating, .done => true
  | _, _ => false

/-! ## What a call does -/

namespace InsertRecord

/-- The width that a further row must have: that of the column list, else that of the first row. -/
def width (r : InsertRecord) : Option Nat :=
  if r.columns.isEmpty then r.rows.head?.map List.length else some r.columns.length

/-- One more row of the right width. -/
def addRow (r : InsertRecord) (row : List Expr) : Except Failure InsertRecord := do
  orRefuse (checkRowWidths .insert [row] r.width)
  return { r with rows := r.rows ++ [row] }

/-- A clause without a target handles every conflict, so no clause may follow it. -/
def openConflict (r : InsertRecord) (target : Option UpsertTarget) : Except Failure InsertDraft :=
  if r.upserts.any (·.target.isNone) then .error (.of .targetlessConflictBefore)
  else .ok (.conflict r target)

def addUpsert (r : InsertRecord) (u : Upsert) : InsertRecord := { r with upserts := r.upserts ++ [u] }

/-- The rows are taken from the query if there is one, else they are those that were given; if there
are none either, the defaults are inserted. -/
def source (r : InsertRecord) : InsertSource :=
  match r.query with
  | some query => .select query
  | none => if r.rows.isEmpty then .defaultValues else .values r.rows

def insert (r : InsertRecord) : Insert :=
  ⟨r.withClause, r.verb, r.table, r.asName, r.columns, r.source, r.upserts, r.returning⟩

end InsertRecord

namespace InsertDraft

def start (withClause : Option WithClause) (verb : InsertVerb) (table : QualifiedName) :
    InsertDraft :=
  .insert .noSource ⟨withClause, verb, table, none, [], [], none, [], []⟩

/-- The draft after a call; the calls of other stages are unavailable. -/
def apply : InsertDraft → InsertCall → Except Failure InsertDraft
  | .insert state r, .named asName =>
    if state.isSourced then .error .unavailable
    else .ok (.insert state { r with asName := some asName })
  | .insert .noSource r, .columns columns => do
    let columns ← orRefuse (required .insertColumns columns)
    return .insert .hasColumns { r with columns }
  | .insert .noSource r, .defaultValues => .ok (.insert .defaults r)
  | .insert state r, .values row =>
    if state.takesRows then do
      let r ← r.addRow row
      return .insert .rows r
    else .error .unavailable
  | .insert state r, .select query =>
    if state.isSourced then .error .unavailable
    else .ok (.insert .fromSelect { r with query := some query })
  | .insert state r, .returning columns =>
    if state.isSourced then .ok (.insert state { r with returning := r.returning ++ columns })
    else .error .unavailable
  | .insert .rows r, .onConflict columns => do
    let columns ← orRefuse (required .conflictTarget columns)
    r.openConflict (some ⟨columns, none⟩)
  | .insert .rows r, .onAnyConflict => r.openConflict none
  | .conflict r (some target), .targetFilter condition =>
    .ok (.conflict r (some { target with filter := conjoin target.filter condition }))
  | .conflict _ none, .targetFilter _ => .error (.of .targetConditionWithoutTarget)
  | .conflict r target, .doNothing => .ok (.insert .rows (r.addUpsert ⟨target, .nothing⟩))
  | .conflict r target, .doUpdate column value =>
    .ok (.updating r target [.toColumn column value] none)
  | .updating r target assignments filter, .assign column value =>
    .ok (.updating r target (assignments ++ [.toColumn column value]) filter)
  | .updating r target assignments filter, .assignRow columns value => do
    let assignment ← orRefuse (Assignment.toColumns columns value)
    return .updating r target (assignments ++ [assignment]) filter
  | .updating r target assignments filter, .filter condition =>
    .ok (.updating r target assignments (conjoin filter condition))
  | .updating r target assignments filter, .done =>
    .ok (.insert .rows (r.addUpsert ⟨target, .update assignments filter⟩))
  | _, _ => .error .unavailable

/-- The insertion, if its source is chosen and no clause is open. -/
def finish : InsertDraft → Except Failure Insert
  | .insert state r => if state.isSourced then .ok r.insert else .error .unfinished
  | .conflict .. | .updating .. => .error .unfinished

end InsertDraft
end SqliteSyntax
