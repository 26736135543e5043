import SqliteSyntax.Statement.Basic

/-! # Shape of finished statements

The rules that a statement taken over as a finished value must keep. Each error names the kind of
the statement in which it was found. -/
namespace SqliteSyntax
set_option autoImplicit false

namespace Shape

/-- A `VALUES` list needs a row, the first row a value, and all rows the width of the first. -/
def checkRows (kind : StatementKind) (rows : List (List Expr)) : Except Error Unit :=
  match rows with
  | [] => .error (.construction (.shape kind .noRows))
  | first :: rest =>
    if first.isEmpty then .error (.construction (.shape kind .emptyRow))
    else if rest.all (·.length == first.length) then .ok ()
    else .error (.construction (.shape kind .unevenRows))

def checkBody (kind : StatementKind) : SelectBody → Except Error Unit
  | .values rows => checkRows kind rows
  | .core _ => .ok ()

/-- Each body of a list in order. -/
def checkBodies (kind : StatementKind) : List SelectBody → Except Error Unit
  | [] => .ok ()
  | body :: rest => do
    checkBody kind body
    checkBodies kind rest

/-- An offset needs a limit, and each body must be sound. Queries inside are not looked into. -/
def checkSelect (kind : StatementKind) (q : Select) : Except Error Unit :=
  if q.offset.isSome && q.limit.isNone then
    .error (.construction (.shape kind .offsetWithoutLimit))
  else checkBodies kind q.bodies

def checkInsertSource (kind : StatementKind) : InsertSource → Except Error Unit
  | .values rows => checkRows kind rows
  | .select query => checkSelect kind query
  | .defaultValues => .ok ()

def checkTableBody (kind : StatementKind) : TableBody → Except Error Unit
  | .definitions columns _ _ _ =>
    if columns.isEmpty then .error (.construction (.shape kind .noTableColumns)) else .ok ()
  | .asSelect query => checkSelect kind query

end Shape

mutual

/-- A statement of sound shape, or the first fault in it. -/
def Statement.checkShape : Statement → Except Error Unit
  | .select query => Shape.checkSelect .select query
  | .insert i => Shape.checkInsertSource .insert i.source
  | .update u =>
    if u.assignments.isEmpty then .error (.construction (.shape .update .noAssignments))
    else .ok ()
  | .createTable table => Shape.checkTableBody .createTable table.body
  | .createIndex index =>
    if index.columns.isEmpty then .error (.construction (.shape .createIndex .noIndexColumns))
    else .ok ()
  | .createView view => Shape.checkSelect .createView view.query
  | .createTrigger _ steps =>
    if steps.isEmpty then .error (.construction (.shape .createTrigger .noSteps))
    else checkStepShapes steps
  | .explain _ statement =>
    if statement.isExplain then .error (.construction (.shape .explain .nestedExplain))
    else statement.checkShape
  | .delete _ | .createVirtualTable _ | .alterTable .. | .drop _ | .begin _ | .commit
  | .rollback _ | .savepoint _ | .release _ | .attach .. | .detach _ | .vacuum .. | .reindex _
  | .analyze _ => .ok ()

def checkStepShapes : List Statement → Except Error Unit
  | [] => .ok ()
  | step :: rest => do
    step.checkShape
    checkStepShapes rest

end
end SqliteSyntax
