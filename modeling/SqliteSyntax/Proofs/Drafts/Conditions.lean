import Mathlib.Data.List.Forall2
import SqliteSyntax.Proofs.Drafts.Conjunctions
import SqliteSyntax.Proofs.Drafts.Rows
import SqliteSyntax.Proofs.Rules.Objects

/-! # Conditions given to the clauses of a statement

`Statement.filters` are the filters that a statement has of its own: of a query those of its first body,
of an insertion those of its conflict clauses. Each begins with no condition, and a call adds one;
`Start.conditions` reads off the calls what was given to each. Queries that a statement takes whole, as
operands of a set operator or as steps of a trigger, have drafts and filters of their own. -/
namespace SqliteSyntax
set_option autoImplicit false

/-! ## Filters of a statement -/

def UpsertAction.filters : UpsertAction → List (Option Expr)
  | .nothing => []
  | .update _ filter => [filter]

/-- The filter of the target, if there is one, and that of the update. -/
def Upsert.filters (u : Upsert) : List (Option Expr) :=
  u.target.toList.map UpsertTarget.filter ++ u.action.filters

def SelectBody.filters : SelectBody → List (Option Expr)
  | .core c => [c.filter, c.having]
  | .values _ => []

def Statement.filters : Statement → List (Option Expr)
  | .select q => q.body.filters
  | .insert i => i.upserts.flatMap Upsert.filters
  | .update u => [u.filter]
  | .delete d => [d.filter]
  | .createIndex i => [i.filter]
  | .createTrigger header _ => [header.condition]
  | _ => []

/-! ## Conditions of calls -/

/-! ### Conflict clauses -/

/-- The calls of a conflict clause that was closed. -/
structure ClauseCalls where
  opening : InsertCall
  between : List InsertCall
  closing : InsertCall

namespace ClauseCalls

/-- The calls of the clause that a call opens, if a later one closes it. -/
def from? (opening : InsertCall) (later : List InsertCall) : Option ClauseCalls :=
  if opening.opens then
    (later.find? InsertCall.closes).map fun closing =>
      ⟨opening, later.takeWhile fun call => !call.closes, closing⟩
  else none

/-- The calls clause by clause, without those outside of clauses. -/
def of : List InsertCall → List ClauseCalls
  | [] => []
  | call :: later => (from? call later).toList ++ of later

def upsert (c : ClauseCalls) : Upsert :=
  ⟨conflictTarget c.opening c.between, conflictAction c.between c.closing⟩

/-- The conditions of the target, if the clause has one. -/
def targetConditions (c : ClauseCalls) : List (List Expr) :=
  match c.opening with
  | .onConflict _ => [c.between.flatMap InsertCall.targetConditions]
  | _ => []

/-- The conditions of the update, if the clause makes one. -/
def updateConditions (c : ClauseCalls) : List (List Expr) :=
  match c.closing with
  | .done => [c.between.flatMap InsertCall.updateConditions]
  | _ => []

def conditions (c : ClauseCalls) : List (List Expr) := c.targetConditions ++ c.updateConditions

end ClauseCalls

/-! ### Indexes and triggers -/

@[simp] def IndexCall.conditions : IndexCall → List Expr
  | .filter condition => [condition]
  | _ => []

@[simp] def TriggerCall.conditions : TriggerCall → List Expr
  | .condition e => [e]
  | _ => []

/-! ### Statements -/

namespace Call

def insertCalls : Call → List InsertCall
  | .insert call => [call]
  | _ => []

def indexCalls : Call → List IndexCall
  | .index call => [call]
  | _ => []

def triggerCalls : Call → List TriggerCall
  | .trigger call => [call]
  | _ => []

end Call

/-- The conditions that calls gave, for each clause of the statement that takes any, in call order. -/
def Start.conditions (calls : List Call) : Start → List (List Expr)
  | .opening _ (.select ..) =>
    [(calls.filterMap Call.part?).flatMap ClausePart.conditions,
      (calls.filterMap Call.part?).flatMap ClausePart.groupConditions]
  | .opening _ (.insert ..) =>
    (ClauseCalls.of (calls.flatMap Call.insertCalls)).flatMap ClauseCalls.conditions
  | .opening _ (.update ..) | .opening _ (.delete _) =>
    [(calls.filterMap Call.part?).flatMap ClausePart.conditions]
  | .index .. => [(calls.flatMap Call.indexCalls).flatMap IndexCall.conditions]
  | .trigger _ => [(calls.flatMap Call.triggerCalls).flatMap TriggerCall.conditions]
  | _ => []

/-! ## Runs -/

/-! ### Runs on one kind of draft -/

namespace CreateIndex

end CreateIndex

namespace TriggerDraft

end TriggerDraft

/-! ### Other statements -/

namespace Sample

end Sample

end SqliteSyntax
