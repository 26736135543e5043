import SqliteSyntax.Draft.Trigger
import SqliteSyntax.Proofs.Nodes.Parts
import SqliteSyntax.Schema.Basic

/-! # Rules of well-formed statements

`Node.Sound` says which rules a node keeps by itself, without its parts: its lists have the items that
they need, its rows are of one width, its bounds belong together. The types allow statements that
break them. `Throughout` carries a rule to every depth. -/
namespace SqliteSyntax
set_option autoImplicit false

/-! ## Rows and bounds -/

/-- There is a row, rows have values, and all rows have equally many. -/
def EvenRows (rows : List (List Expr)) : Prop :=
  rows ≠ [] ∧ ∃ width, 0 < width ∧ ∀ row ∈ rows, row.length = width

/-- An offset stands only behind a limit. -/
def OffsetLimited (limit offset : Option Expr) : Prop := offset.isSome → limit.isSome

/-- An order of changed rows stands only in front of a limit. -/
def OrderLimited (orderBy : List OrderingTerm) (limit : Option Expr) : Prop :=
  orderBy ≠ [] → limit.isSome

/-- A clause for common tables has one. -/
def WithListed (withClause : Option WithClause) : Prop := ∀ w ∈ withClause, w.tables ≠ []

/-! ## Expressions, queries and table trees -/

def Expr.Sound : Expr → Prop
  | .caseWhen _ branches _ => branches ≠ []
  | _ => True

structure Select.Sound (q : Select) : Prop where
  withListed : WithListed q.withClause
  offset : OffsetLimited q.limit q.offset

def SelectBody.Sound : SelectBody → Prop
  | .core _ => True
  | .values rows => EvenRows rows

/-- A join on columns names some, and a natural join, which is of no kind that goes without a
constraint, has none. -/
structure JoinSound (op : JoinOperator) (constraint : Option JoinConstraint) : Prop where
  columns : constraint ≠ some (.columns [])
  kind : op.natural → op.kind ≠ .comma ∧ op.kind ≠ .cross
  bare : op.natural → constraint = none

def FromTree.Sound : FromTree → Prop
  | .join _ op _ constraint => JoinSound op constraint
  | .table _ | .subquery .. | .function .. => True

/-! ## Changes to rows -/

/-- Something is assigned, and each assignment names the columns that take it. -/
def SetSound (assignments : List Assignment) : Prop :=
  assignments ≠ [] ∧ ∀ a ∈ assignments, a.columns ≠ []

def UpsertAction.Sound : UpsertAction → Prop
  | .nothing => True
  | .update assignments _ => SetSound assignments

structure Upsert.Sound (u : Upsert) : Prop where
  target : ∀ t ∈ u.target, t.columns ≠ []
  action : u.action.Sound

/-- A clause without a target takes every conflict, so it is the last. -/
def OnlyLastTargetless (upserts : List Upsert) : Prop := ∀ u ∈ upserts.dropLast, u.target.isSome

/-- Rows fit a column list if there is one. -/
def RowsFit (columns : List String) (rows : List (List Expr)) : Prop :=
  columns ≠ [] → ∀ row ∈ rows, row.length = columns.length

def InsertSource.Sound (columns : List String) : InsertSource → Prop
  | .values rows => EvenRows rows ∧ RowsFit columns rows
  | .select _ | .defaultValues => True

structure Insert.Sound (i : Insert) : Prop where
  withListed : WithListed i.withClause
  source : i.source.Sound i.columns
  upserts : ∀ u ∈ i.upserts, u.Sound
  targets : OnlyLastTargetless i.upserts

structure Update.Sound (u : Update) : Prop where
  withListed : WithListed u.withClause
  assignments : SetSound u.assignments
  order : OrderLimited u.orderBy u.limit
  offset : OffsetLimited u.limit u.offset

structure Delete.Sound (d : Delete) : Prop where
  withListed : WithListed d.withClause
  order : OrderLimited d.orderBy d.limit
  offset : OffsetLimited d.limit d.offset

/-! ## Schema objects -/

/-- A key has columns. Those of the parent table may be left out of a foreign key. -/
def TableRule.Sound : TableRule → Prop
  | .primaryKey columns _ | .unique columns _ => columns ≠ []
  | .foreignKey columns _ => columns ≠ []
  | .check _ => True

def HasPrimaryKey (columns : List ColumnDef) (constraints : List TableConstraint) : Prop :=
  (∃ c ∈ columns, c.isPrimaryKey) ∨ ∃ c ∈ constraints, c.rule.isPrimaryKey

def TableBody.Sound : TableBody → Prop
  | .definitions columns constraints withoutRowid _ =>
    columns ≠ [] ∧ (∀ c ∈ constraints, c.rule.Sound) ∧
      (withoutRowid → HasPrimaryKey columns constraints)
  | .asSelect _ => True

structure CreateTable.Sound (t : CreateTable) : Prop where
  body : t.body.Sound
  schema : t.temporary → ∀ schema ∈ t.name.schema, sameIgnoringCase schema "temp"

/-- A column added to a table is no key. -/
def TableChange.Sound : TableChange → Prop
  | .addColumn c => c.isPrimaryKey = false ∧ c.isUnique = false
  | .renameTo _ | .renameColumn .. | .dropColumn _ => True

/-- A trigger has steps, and they are statements that may be steps. -/
def StepsSound (steps : List Statement) : Prop :=
  steps ≠ [] ∧ ∀ s ∈ steps, s.checkStep = .ok ()

def Statement.Sound : Statement → Prop
  | .insert i => i.Sound
  | .update u => u.Sound
  | .delete d => d.Sound
  | .createTable t => t.Sound
  | .createIndex i => i.columns ≠ []
  | .createTrigger _ steps => StepsSound steps
  | .alterTable _ change => change.Sound
  | .explain _ s => s.isExplain = false
  | _ => True

/-! ## Parts of lists -/

theorem columnParts_append (a b : List ResultColumn) :
    columnParts (a ++ b) = columnParts a ++ columnParts b :=
  List.flatMap_append

theorem termParts_append (a b : List OrderingTerm) :
    termParts (a ++ b) = termParts a ++ termParts b :=
  List.map_append

theorem indexedParts_append (a b : List IndexedColumn) :
    indexedParts (a ++ b) = indexedParts a ++ indexedParts b :=
  List.map_append

theorem assignmentParts_append (a b : List Assignment) :
    assignmentParts (a ++ b) = assignmentParts a ++ assignmentParts b :=
  List.map_append

theorem rowParts_append (a b : List (List Expr)) : rowParts (a ++ b) = rowParts a ++ rowParts b :=
  List.flatMap_append

theorem rowParts_singleton (row : List Expr) : rowParts [row] = row.map .expr :=
  List.flatMap_singleton ..

/-! ## Every depth -/

/-- The rules of one node; nothing is said of its parts. -/
def Node.Sound : Node → Prop
  | .expr e => e.Sound
  | .query q => q.Sound
  | .body b => b.Sound
  | .tree t => t.Sound
  | .statement s => s.Sound

/-- The rules hold of the node and of every node inside. -/
def Node.SoundThroughout (n : Node) : Prop := ∀ m, Inside m n → m.Sound

/-- The rules hold throughout each of the nodes. -/
def AllSound (nodes : List Node) : Prop := ∀ n ∈ nodes, n.SoundThroughout

theorem Node.soundThroughout_iff {n : Node} :
    n.SoundThroughout ↔ n.Sound ∧ AllSound n.parts := by
  constructor
  · intro h
    refine ⟨h n .refl, fun p hp m hm => h m ?_⟩
    exact Relation.ReflTransGen.tail hm hp
  · rintro ⟨here, below⟩ m hm
    rcases Relation.ReflTransGen.cases_tail hm with rfl | ⟨p, hmp, hp⟩
    · exact here
    · exact below p hp m hmp

namespace AllSound

@[simp] theorem nil : AllSound [] := fun _ h => absurd h List.not_mem_nil

@[simp] theorem cons_iff {n : Node} {rest : List Node} :
    AllSound (n :: rest) ↔ n.SoundThroughout ∧ AllSound rest :=
  List.forall_mem_cons

@[simp] theorem append_iff {a b : List Node} : AllSound (a ++ b) ↔ AllSound a ∧ AllSound b :=
  List.forall_mem_append

/-- A conjunction has no rule of its own. -/
theorem conjoin {filter : Option Expr} {condition : Expr} (hf : AllSound (optionParts filter))
    (hc : (Node.expr condition).SoundThroughout) :
    AllSound (optionParts (SqliteSyntax.conjoin filter condition)) := by
  cases filter with
  | none => simpa [SqliteSyntax.conjoin, optionParts] using hc
  | some existing =>
    have he : (Node.expr existing).SoundThroughout := by simpa [optionParts] using hf
    have both : (Node.expr (.binary .and existing condition)).SoundThroughout :=
      Node.soundThroughout_iff.mpr ⟨trivial, by simp [Node.parts, Expr.parts, he, hc]⟩
    simpa [SqliteSyntax.conjoin, optionParts] using both

end AllSound
end SqliteSyntax
