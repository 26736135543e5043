import SqliteSyntax.Draft.Basic
import SqliteSyntax.Statement.Basic

/-! # Steps of a trigger

A step is a query or a change of rows. It has no common tables of its own, names its table without
schema, alias or index hint, hands no rows back, and is bounded by no order or limit. -/
namespace SqliteSyntax
set_option autoImplicit false

/-- A refusal unless the condition holds. -/
def demand (holds : Bool) (fault : StepFault) : Except Failure Unit :=
  if holds then .ok () else .error (.of (.step fault))

/-- The table that a step changes stands under its bare name. -/
def TableRef.checkStepTarget (t : TableRef) : Except Failure Unit := do
  demand t.name.schema.isNone .qualified
  demand (t.asName.isNone && t.hint.isNone) .aliasedOrIndexed

def Insert.takesDefaults (i : Insert) : Bool :=
  match i.source with
  | .defaultValues => true
  | .values _ | .select _ => false

/-- A statement that may stand in a trigger, or the first reason why it may not. -/
def Statement.checkStep : Statement → Except Failure Unit
  | .select query => demand query.withClause.isNone .withClause
  | .insert i => do
    demand i.withClause.isNone .withClause
    demand (i.table.schema.isNone && i.asName.isNone) .qualifiedOrAliased
    demand (!i.takesDefaults) .defaultValues
    demand i.returning.isEmpty .returning
  | .update u => do
    demand u.withClause.isNone .withClause
    u.table.checkStepTarget
    demand u.returning.isEmpty .returning
    demand (u.orderBy.isEmpty && u.limit.isNone) .orderOrLimit
  | .delete d => do
    demand d.withClause.isNone .withClause
    d.table.checkStepTarget
    demand d.returning.isEmpty .returning
    demand (d.orderBy.isEmpty && d.limit.isNone) .orderOrLimit
  | statement => .error (.of (.step (.otherStatement statement.kind)))

/-! ## Stages -/

/-- A trigger in the making: first its event, then its table, then its steps. -/
inductive TriggerDraft where
  | unbound (temporary ifNotExists : Bool) (name : QualifiedName)
  | timed (temporary ifNotExists : Bool) (name : QualifiedName) (timing : Option TriggerTiming)
      (event : TriggerEvent)
  | bound (header : TriggerHeader) (steps : List Statement)

inductive TriggerStage where
  | unbound
  | timed
  | targeted
  | hasSteps
deriving DecidableEq

/-- The calls of a trigger, without their arguments. -/
inductive TriggerClause where
  | temporary
  | ifNotExists
  | fires
  | table
  | forEachRow
  | condition
  | step
deriving DecidableEq

namespace TriggerDraft

def start (name : QualifiedName) : TriggerDraft := .unbound false false name

def stage : TriggerDraft → TriggerStage
  | .unbound .. => .unbound
  | .timed .. => .timed
  | .bound _ steps => if steps.isEmpty then .targeted else .hasSteps

/-- A trigger needs a step. -/
def finish : TriggerDraft → Except Failure Statement
  | .bound header (step :: rest) => .ok (.createTrigger header (step :: rest))
  | _ => .error .unfinished

end TriggerDraft

/-- The calls that a stage offers. -/
def TriggerStage.offers : TriggerStage → TriggerClause → Bool
  | .unbound, .temporary | .unbound, .ifNotExists | .unbound, .fires => true
  | .timed, .table => true
  | .targeted, .forEachRow | .targeted, .condition | .targeted, .step => true
  | .hasSteps, .step => true
  | _, _ => false

end SqliteSyntax
