import SqliteSyntax.Schema.Basic

/-! # Statements

The statements that change rows, and `Statement`, which holds one statement of any kind. -/
namespace SqliteSyntax
set_option autoImplicit false

/-! ## Changes to rows -/

/-- Where an insertion takes its rows from. -/
inductive InsertSource where
  | values (rows : List (List Expr))
  | select (query : Select)
  | defaultValues
deriving BEq

/-- One column, or a tuple of columns, and the value they take. -/
structure Assignment where
  columns : List String
  value : Expr
deriving BEq

/-- The key whose violation an upsert clause handles. -/
structure UpsertTarget where
  columns : List IndexedColumn
  filter : Option Expr
deriving BEq

inductive UpsertAction where
  | nothing
  | update (assignments : List Assignment) (filter : Option Expr)
deriving BEq

/-- One `ON CONFLICT` clause; without a target it handles every key. -/
structure Upsert where
  target : Option UpsertTarget
  action : UpsertAction
deriving BEq

structure Insert where
  withClause : Option WithClause
  verb : InsertVerb
  table : QualifiedName
  asName : Option String
  columns : List String
  source : InsertSource
  upserts : List Upsert
  returning : List ResultColumn
deriving BEq

structure Update where
  withClause : Option WithClause
  conflict : Option ConflictAction
  table : TableRef
  assignments : List Assignment
  source : Option FromTree
  filter : Option Expr
  returning : List ResultColumn
  orderBy : List OrderingTerm
  limit : Option Expr
  offset : Option Expr
deriving BEq

structure Delete where
  withClause : Option WithClause
  table : TableRef
  filter : Option Expr
  returning : List ResultColumn
  orderBy : List OrderingTerm
  limit : Option Expr
  offset : Option Expr
deriving BEq

/-! ## All statements -/

inductive Statement where
  | select (query : Select)
  | insert (insert : Insert)
  | update (update : Update)
  | delete (delete : Delete)
  | createTable (table : CreateTable)
  | createIndex (index : CreateIndex)
  | createView (view : CreateView)
  | createTrigger (header : TriggerHeader) (steps : List Statement)
  | createVirtualTable (table : CreateVirtualTable)
  | alterTable (table : QualifiedName) (change : TableChange)
  | drop (object : DropObject)
  | begin (mode : Option TransactionMode)
  | commit
  | rollback (savepoint : Option String)
  | savepoint (name : String)
  | release (name : String)
  | attach (file : Expr) (schema : String)
  | detach (schema : String)
  | vacuum (schema : Option String) (file : Option Expr)
  | reindex (target : Option QualifiedName)
  | analyze (target : Option QualifiedName)
  | explain (queryPlan : Bool) (statement : Statement)

namespace Statement

def kind : Statement → StatementKind
  | .select _ => .select
  | .insert _ => .insert
  | .update _ => .update
  | .delete _ => .delete
  | .createTable _ => .createTable
  | .createIndex _ => .createIndex
  | .createView _ => .createView
  | .createTrigger .. => .createTrigger
  | .createVirtualTable _ => .createVirtualTable
  | .alterTable .. => .alterTable
  | .drop _ => .drop
  | .begin _ => .begin
  | .commit => .commit
  | .rollback _ => .rollback
  | .savepoint _ => .savepoint
  | .release _ => .release
  | .attach .. => .attach
  | .detach _ => .detach
  | .vacuum .. => .vacuum
  | .reindex _ => .reindex
  | .analyze _ => .analyze
  | .explain .. => .explain

def isExplain : Statement → Bool
  | .explain .. => true
  | _ => false

end Statement

/-! ## Equality -/

mutual

/-- Equality of statements, real numbers compared as numbers. -/
def Statement.same : Statement → Statement → Bool
  | .select a, .select b => a == b
  | .insert a, .insert b => a == b
  | .update a, .update b => a == b
  | .delete a, .delete b => a == b
  | .createTable a, .createTable b => a == b
  | .createIndex a, .createIndex b => a == b
  | .createView a, .createView b => a == b
  | .createTrigger a as, .createTrigger b bs => a == b && sameSteps as bs
  | .createVirtualTable a, .createVirtualTable b => a == b
  | .alterTable a c, .alterTable b d => a == b && c == d
  | .drop a, .drop b => a == b
  | .begin a, .begin b => a == b
  | .commit, .commit => true
  | .rollback a, .rollback b => a == b
  | .savepoint a, .savepoint b => a == b
  | .release a, .release b => a == b
  | .attach a c, .attach b d => a == b && c == d
  | .detach a, .detach b => a == b
  | .vacuum a c, .vacuum b d => a == b && c == d
  | .reindex a, .reindex b => a == b
  | .analyze a, .analyze b => a == b
  | .explain a s, .explain b t => a == b && s.same t
  | _, _ => false

def sameSteps : List Statement → List Statement → Bool
  | [], [] => true
  | a :: as, b :: bs => a.same b && sameSteps as bs
  | _, _ => false

end

instance : BEq Statement := ⟨Statement.same⟩

end SqliteSyntax
