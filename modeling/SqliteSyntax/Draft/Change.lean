import SqliteSyntax.Draft.Insert

/-! # Drafts of updates and deletions

Both may be bounded by an order and a limit. An order alone bounds nothing, so a limit must follow
it; an offset needs a limit before it and ends the draft. -/
namespace SqliteSyntax
set_option autoImplicit false

/-! ## Updates -/

inductive UpdateStage where
  | noSet
  | hasSet
  | ordered
  | limited
  | closed
deriving DecidableEq

/-- The calls of an update, without their arguments. -/
inductive UpdateClause where
  | assign
  | assignRow
  | source
  | filter
  | returning
  | orderBy
  | limit
  | offset
deriving DecidableEq

/-- The stage after a call, if the stage offers it. -/
def UpdateStage.after? : UpdateStage → UpdateClause → Option UpdateStage
  | .noSet, .assign | .noSet, .assignRow | .hasSet, .assign | .hasSet, .assignRow => some .hasSet
  | .hasSet, .source | .hasSet, .filter | .hasSet, .returning => some .hasSet
  | .hasSet, .orderBy => some .ordered
  | .hasSet, .limit | .ordered, .limit => some .limited
  | .limited, .offset => some .closed
  | _, _ => none

/-- Whether the stage offers a call. -/
def UpdateStage.offers (stage : UpdateStage) (clause : UpdateClause) : Bool :=
  (stage.after? clause).isSome

/-- An update in the making. -/
structure UpdateDraft where
  stage : UpdateStage
  update : Update

/-- A call on an update. -/
inductive UpdateCall where
  | assign (column : String) (value : Expr)
  | assignRow (columns : List String) (value : Expr)
  | source (tree : FromTree)
  | filter (condition : Expr)
  | returning (columns : List ResultColumn)
  | orderBy (terms : List OrderingTerm)
  | limit (count : Expr)
  | offset (count : Expr)

def UpdateCall.clause : UpdateCall → UpdateClause
  | .assign .. => .assign
  | .assignRow .. => .assignRow
  | .source _ => .source
  | .filter _ => .filter
  | .returning _ => .returning
  | .orderBy _ => .orderBy
  | .limit _ => .limit
  | .offset _ => .offset

namespace UpdateDraft

def start (withClause : Option WithClause) (conflict : Option ConflictAction) (table : TableRef) :
    UpdateDraft :=
  ⟨.noSet, ⟨withClause, conflict, table, [], none, none, [], [], none, none⟩⟩

/-- The update after a call that the stage offers. -/
def edit (u : Update) : UpdateCall → Except Failure Update
  | .assign column value => .ok { u with assignments := u.assignments ++ [.toColumn column value] }
  | .assignRow columns value => do
    let assignment ← orRefuse (Assignment.toColumns columns value)
    return { u with assignments := u.assignments ++ [assignment] }
  | .source tree => .ok { u with source := some tree }
  | .filter condition => .ok { u with filter := conjoin u.filter condition }
  | .returning columns => .ok { u with returning := u.returning ++ columns }
  | .orderBy terms => .ok { u with orderBy := u.orderBy ++ terms }
  | .limit count => .ok { u with limit := some count }
  | .offset count => .ok { u with offset := some count }

def apply (d : UpdateDraft) (call : UpdateCall) : Except Failure UpdateDraft :=
  match d.stage.after? call.clause with
  | none => .error .unavailable
  | some stage => do
    let update ← edit d.update call
    return ⟨stage, update⟩

/-- The update, if it assigns something and its order has a limit. -/
def finish (d : UpdateDraft) : Except Failure Update :=
  match d.stage with
  | .noSet | .ordered => .error .unfinished
  | .hasSet | .limited | .closed => .ok d.update

end UpdateDraft

/-! ## Deletions -/

inductive DeleteStage where
  | filtering
  | ordered
  | limited
  | closed
deriving DecidableEq

/-- The calls of a deletion, without their arguments. -/
inductive DeleteClause where
  | filter
  | returning
  | orderBy
  | limit
  | offset
deriving DecidableEq

/-- The stage after a call, if the stage offers it. -/
def DeleteStage.after? : DeleteStage → DeleteClause → Option DeleteStage
  | .filtering, .filter | .filtering, .returning => some .filtering
  | .filtering, .orderBy => some .ordered
  | .filtering, .limit | .ordered, .limit => some .limited
  | .limited, .offset => some .closed
  | _, _ => none

/-- Whether the stage offers a call. -/
def DeleteStage.offers (stage : DeleteStage) (clause : DeleteClause) : Bool :=
  (stage.after? clause).isSome

/-- A deletion in the making. -/
structure DeleteDraft where
  stage : DeleteStage
  delete : Delete

/-- A call on a deletion. -/
inductive DeleteCall where
  | filter (condition : Expr)
  | returning (columns : List ResultColumn)
  | orderBy (terms : List OrderingTerm)
  | limit (count : Expr)
  | offset (count : Expr)

def DeleteCall.clause : DeleteCall → DeleteClause
  | .filter _ => .filter
  | .returning _ => .returning
  | .orderBy _ => .orderBy
  | .limit _ => .limit
  | .offset _ => .offset

namespace DeleteDraft

def start (withClause : Option WithClause) (table : TableRef) : DeleteDraft :=
  ⟨.filtering, ⟨withClause, table, none, [], [], none, none⟩⟩

/-- The deletion after a call that the stage offers. -/
def edit (d : Delete) : DeleteCall → Delete
  | .filter condition => { d with filter := conjoin d.filter condition }
  | .returning columns => { d with returning := d.returning ++ columns }
  | .orderBy terms => { d with orderBy := d.orderBy ++ terms }
  | .limit count => { d with limit := some count }
  | .offset count => { d with offset := some count }

def apply (d : DeleteDraft) (call : DeleteCall) : Except Failure DeleteDraft :=
  match d.stage.after? call.clause with
  | none => .error .unavailable
  | some stage => .ok ⟨stage, edit d.delete call⟩

/-- The deletion, if its order has a limit. -/
def finish (d : DeleteDraft) : Except Failure Delete :=
  match d.stage with
  | .ordered => .error .unfinished
  | .filtering | .limited | .closed => .ok d.delete

end DeleteDraft
end SqliteSyntax
