import SqliteSyntax.Draft.Basic
import SqliteSyntax.Schema.Basic

/-! # Drafts of other objects

Indexes, views, virtual tables, removals and `VACUUM`. All but views can be finished after any
call. -/
namespace SqliteSyntax
set_option autoImplicit false

/-! ## Indexes -/

/-- A call on a new index. -/
inductive IndexCall where
  | unique
  | ifNotExists
  | column (column : IndexedColumn)
  | columns (columns : List IndexedColumn)
  | filter (condition : Expr)

namespace CreateIndex

def start (name : QualifiedName) (table : String) : CreateIndex :=
  ⟨false, false, name, table, [], none⟩

def apply (i : CreateIndex) : IndexCall → Except Failure CreateIndex
  | .unique => .ok { i with unique := true }
  | .ifNotExists => .ok { i with ifNotExists := true }
  | .column column => .ok { i with columns := i.columns ++ [column] }
  | .columns columns => do
    let columns ← orRefuse (required .indexColumns columns)
    return { i with columns := i.columns ++ columns }
  | .filter condition => .ok { i with filter := conjoin i.filter condition }

/-- An index needs a column. -/
def finish (i : CreateIndex) : Except Failure CreateIndex :=
  if i.columns.isEmpty then .error (.of .noIndexColumns) else .ok i

end CreateIndex

/-! ## Views -/

/-- A view in the making; after its query nothing can follow. -/
structure ViewDraft where
  temporary : Bool
  ifNotExists : Bool
  name : QualifiedName
  columns : List String
  query : Option Select

/-- A call on a new view. -/
inductive ViewCall where
  | temporary
  | ifNotExists
  | columns (columns : List String)
  | asSelect (query : Select)

namespace ViewDraft

def start (name : QualifiedName) : ViewDraft := ⟨false, false, name, [], none⟩

def isOpen (d : ViewDraft) : Bool := d.query.isNone

def edit (d : ViewDraft) : ViewCall → Except Failure ViewDraft
  | .temporary => .ok { d with temporary := true }
  | .ifNotExists => .ok { d with ifNotExists := true }
  | .columns columns => do
    let columns ← orRefuse (required .viewColumns columns)
    return { d with columns }
  | .asSelect query => .ok { d with query := some query }

def apply (d : ViewDraft) (call : ViewCall) : Except Failure ViewDraft :=
  if d.isOpen then d.edit call else .error .unavailable

def finish (d : ViewDraft) : Except Failure CreateView :=
  match d.query with
  | none => .error .unfinished
  | some query => .ok ⟨d.temporary, d.ifNotExists, d.name, d.columns, query⟩

end ViewDraft

/-! ## Virtual tables, removals and VACUUM -/

/-- A call on a new virtual table. -/
inductive VirtualTableCall where
  | ifNotExists
  | argument (text : String)
  | arguments (texts : List String)

namespace CreateVirtualTable

def start (name : QualifiedName) (moduleName : String) : CreateVirtualTable :=
  ⟨false, name, moduleName, []⟩

def apply (t : CreateVirtualTable) : VirtualTableCall → CreateVirtualTable
  | .ifNotExists => { t with ifNotExists := true }
  | .argument text => { t with arguments := t.arguments ++ [text] }
  | .arguments texts => { t with arguments := t.arguments ++ texts }

end CreateVirtualTable

namespace DropObject

def start (kind : ObjectKind) (name : QualifiedName) : DropObject := ⟨kind, false, name⟩

/-- No error if there is no such object. -/
def lenient (d : DropObject) : DropObject := { d with ifExists := true }

end DropObject

/-- A `VACUUM` in the making. -/
structure VacuumDraft where
  schema : Option String
  file : Option Expr

/-- A call on a `VACUUM`. -/
inductive VacuumCall where
  | schema (name : String)
  | intoFile (file : Expr)

namespace VacuumDraft

def start : VacuumDraft := ⟨none, none⟩

def apply (d : VacuumDraft) : VacuumCall → VacuumDraft
  | .schema name => { d with schema := some name }
  | .intoFile file => { d with file := some file }

end VacuumDraft
end SqliteSyntax
