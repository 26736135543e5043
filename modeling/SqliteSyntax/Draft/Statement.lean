import SqliteSyntax.Draft.Change
import SqliteSyntax.Draft.Object
import SqliteSyntax.Draft.Select
import SqliteSyntax.Draft.Table
import SqliteSyntax.Draft.Trigger
import SqliteSyntax.Statement.Raise
import SqliteSyntax.Statement.Shape

/-! # Drafts of statements

`Draft` holds the draft of any statement, or a finished one. Its end is `finish`, which gives the
statement; `build` also refuses `RAISE` outside of triggers. Statements that take other statements,
`EXPLAIN` and triggers, take drafts of them. -/
namespace SqliteSyntax
set_option autoImplicit false

/-- A statement in the making or a finished one. -/
inductive Draft where
  | select (draft : SelectDraft)
  | insert (draft : InsertDraft)
  | update (draft : UpdateDraft)
  | delete (draft : DeleteDraft)
  | table (draft : TableDraft)
  | index (draft : CreateIndex)
  | view (draft : ViewDraft)
  | trigger (draft : TriggerDraft)
  | virtualTable (draft : CreateVirtualTable)
  | alter (draft : AlterDraft)
  | drop (draft : DropObject)
  | vacuum (draft : VacuumDraft)
  | finished (statement : Statement)

namespace Draft

/-- The statement of a draft; a finished one must be of sound shape. -/
def finish : Draft → Except Failure Statement
  | .select d => .ok (.select d.query)
  | .insert d => do
    let i ← d.finish
    return .insert i
  | .update d => do
    let u ← d.finish
    return .update u
  | .delete d => do
    let x ← d.finish
    return .delete x
  | .table d => do
    let t ← d.finish
    return .createTable t
  | .index d => do
    let i ← d.finish
    return .createIndex i
  | .view d => do
    let v ← d.finish
    return .createView v
  | .trigger d => d.finish
  | .virtualTable d => .ok (.createVirtualTable d)
  | .alter d =>
    match d.change with
    | none => .error .unfinished
    | some change => .ok (.alterTable d.table change)
  | .drop d => .ok (.drop d)
  | .vacuum d => .ok (.vacuum d.schema d.file)
  | .finished s => do
    orRefuse s.checkShape
    return s

/-- The statement of a draft, if no `RAISE` stands in it outside of triggers. -/
def build (d : Draft) : Except Failure Statement := do
  let s ← d.finish
  if s.containsRaise then .error (.of (.raiseOutsideTrigger s.kind)) else return s

/-- An `EXPLAIN` of what the draft builds, which cannot be an `EXPLAIN` itself. -/
def explain (queryPlan : Bool) (d : Draft) : Except Failure Statement := do
  let s ← d.build
  if s.isExplain then .error (.of .explainInExplain) else return .explain queryPlan s

end Draft

/-! ## Beginnings -/

/-- How a statement begins that may stand after common tables. -/
inductive Opening where
  | select (distinct : Bool) (columns : List ResultColumn)
  | values (rows : List (List Expr))
  | insert (verb : InsertVerb) (table : QualifiedName)
  | update (conflict : Option ConflictAction) (table : TableRef)
  | delete (table : TableRef)

/-- The first draft of a statement, after common tables if there are any. -/
def Opening.draft (withClause : Option WithClause) : Opening → Except Failure Draft
  | .select distinct columns => .ok (.select (.select withClause distinct columns))
  | .values rows => do
    let d ← SelectDraft.values withClause rows
    return .select d
  | .insert verb table => .ok (.insert (.start withClause verb table))
  | .update conflict table => .ok (.update (.start withClause conflict table))
  | .delete table => .ok (.delete (.start withClause table))

/-! ## Calls on a trigger -/

/-- A call on a trigger. -/
inductive TriggerCall where
  | temporary
  | ifNotExists
  | fires (timing : Option TriggerTiming) (event : TriggerEvent)
  | table (name : String)
  | forEachRow
  | condition (condition : Expr)
  | step (draft : Draft)

namespace TriggerDraft

/-- The statement of a draft, if it may be a step. -/
def stepOf (d : Draft) : Except Failure Statement := do
  let s ← d.finish
  s.checkStep
  return s

/-- The draft after a call; the calls of other stages are unavailable. The table's row mode and
condition come before the first step. -/
def apply : TriggerDraft → TriggerCall → Except Failure TriggerDraft
  | .unbound _ ifNotExists name, .temporary => .ok (.unbound true ifNotExists name)
  | .unbound temporary _ name, .ifNotExists => .ok (.unbound temporary true name)
  | .unbound temporary ifNotExists name, .fires timing event =>
    .ok (.timed temporary ifNotExists name timing event)
  | .timed temporary ifNotExists name timing event, .table table =>
    .ok (.bound ⟨temporary, ifNotExists, name, timing, event, table, false, none⟩ [])
  | .bound header [], .forEachRow => .ok (.bound { header with forEachRow := true } [])
  | .bound header [], .condition condition =>
    .ok (.bound { header with condition := conjoin header.condition condition } [])
  | .bound header steps, .step draft => do
    let s ← stepOf draft
    return .bound header (steps ++ [s])
  | _, _ => .error .unavailable

end TriggerDraft
end SqliteSyntax
