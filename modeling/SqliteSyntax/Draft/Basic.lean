import SqliteSyntax.Expr.Construct

/-! # Drafts

A draft is a statement in the making. It offers the calls that its stage allows; a call gives the
next draft or a failure. -/
namespace SqliteSyntax
set_option autoImplicit false

/-- Why a call on a draft, or the end of a draft, gives no result. -/
inductive Failure where
  /-- The call was made and refused. -/
  | refused (error : Error)
  /-- The draft offers no such call in its stage. -/
  | unavailable
  /-- The draft cannot end in its stage. -/
  | unfinished
deriving DecidableEq

/-- A failure for a construction that is refused. -/
def Failure.of (cause : Refusal) : Failure := .refused (.construction cause)

/-- The value, or a failure that carries the error. -/
def orRefuse {α : Type} : Except Error α → Except Failure α
  | .ok a => .ok a
  | .error e => .error (.refused e)

/-- Calls in order, up to the first that fails. -/
def runCalls {σ κ : Type} (apply : σ → κ → Except Failure σ) (draft : σ) (calls : List κ) :
    Except Failure σ :=
  calls.foldlM apply draft

/-- There is a row, rows have values, and each has as many as `width` says, or else as the first
row. The first row of another width is the one named. -/
def checkRowWidths (place : RowPlace) (rows : List (List Expr)) (width : Option Nat) :
    Except Error Unit :=
  match rows with
  | [] => .error (.construction (.rows place .noRows))
  | first :: _ =>
    let expected := width.getD first.length
    if expected = 0 then .error (.construction (.rows place .emptyRow))
    else
      match rows.find? (·.length != expected) with
      | none => .ok ()
      | some row => .error (.construction (.rows place (.width row.length expected)))

/-! ## CASE -/

/-- A `CASE` in the making. -/
structure CaseDraft where
  operand : Option Expr
  branches : List (Expr × Expr)

namespace CaseDraft

def start (operand : Option Expr) : CaseDraft := ⟨operand, []⟩

/-- One more branch. -/
def branch (d : CaseDraft) (condition result : Expr) : CaseDraft :=
  { d with branches := d.branches ++ [(condition, result)] }

/-- The expression, with an `ELSE` if one is given; a `CASE` needs a branch. -/
def finish (d : CaseDraft) (otherwise : Option Expr) : Except Failure Expr :=
  if d.branches.isEmpty then .error .unfinished
  else .ok (.caseWhen d.operand d.branches otherwise)

end CaseDraft
end SqliteSyntax
