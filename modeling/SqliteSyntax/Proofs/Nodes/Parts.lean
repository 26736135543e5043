import Mathlib.Data.List.Basic
import Mathlib.Logic.Relation
import SqliteSyntax.Statement.Raise

/-! # What stands in what

The nodes of a statement are its expressions, queries, query bodies, table trees and nested
statements. `Node.parts` lists the nodes that stand directly in a node, in the order of the text, with
triggers opened like everything else; `Inside` is reached by going from part to part, and `Plainly`
the same without passing through a trigger. -/
namespace SqliteSyntax
set_option autoImplicit false

/-- A piece of syntax that holds expressions. -/
inductive Node where
  | expr (e : Expr)
  | query (q : Select)
  | body (b : SelectBody)
  | tree (t : FromTree)
  | statement (s : Statement)

/-! ## Direct parts -/

def optionParts (item : Option Expr) : List Node := item.toList.map .expr

def withParts (withClause : Option WithClause) : List Node :=
  withClause.toList.flatMap fun w => w.tables.map fun t => .query t.query

def columnParts (columns : List ResultColumn) : List Node :=
  columns.flatMap fun
    | .expr value _ => [.expr value]
    | .star | .tableStar _ => []

def termParts (terms : List OrderingTerm) : List Node := terms.map fun t => .expr t.expr

def indexedParts (columns : List IndexedColumn) : List Node := columns.map fun c => .expr c.expr

def assignmentParts (assignments : List Assignment) : List Node :=
  assignments.map fun a => .expr a.value

def rowParts (rows : List (List Expr)) : List Node := rows.flatMap (·.map .expr)

def Expr.parts : Expr → List Node
  | .literal _ | .column _ | .callStar .. | .raise _ => []
  | .unary _ operand | .nullTest _ operand | .collate operand _ | .cast operand _ =>
    [.expr operand]
  | .binary _ left right => [.expr left, .expr right]
  | .pattern _ _ subject against escape => .expr subject :: .expr against :: optionParts escape
  | .between _ subject low high => [.expr subject, .expr low, .expr high]
  | .inList _ subject items => .expr subject :: items.map .expr
  | .inSelect _ subject query => [.expr subject, .query query]
  | .existsRow _ query | .subquery query => [.query query]
  | .call _ _ items | .row items => items.map .expr
  | .caseWhen operand branches otherwise =>
    optionParts operand ++ branches.flatMap (fun b => [.expr b.1, .expr b.2]) ++
      optionParts otherwise

def Select.parts (q : Select) : List Node :=
  withParts q.withClause ++ q.bodies.map .body ++ termParts q.orderBy ++ optionParts q.limit ++
    optionParts q.offset

def SelectBody.parts : SelectBody → List Node
  | .core c =>
    columnParts c.columns ++ c.source.toList.map .tree ++ optionParts c.filter ++
      c.groupBy.map .expr ++ optionParts c.having
  | .values rows => rowParts rows

def JoinConstraint.parts : JoinConstraint → List Node
  | .condition e => [.expr e]
  | .columns _ => []

def FromTree.parts : FromTree → List Node
  | .table _ => []
  | .subquery query _ => [.query query]
  | .function _ items _ => items.map .expr
  | .join left _ right constraint =>
    .tree left :: .tree right :: constraint.toList.flatMap JoinConstraint.parts

def ColumnRule.parts : ColumnRule → List Node
  | .check value | .default (.expr value) | .generated value _ => [.expr value]
  | .default (.literal _) | .primaryKey .. | .notNull _ | .null | .unique _ | .collate _
  | .references _ => []

def ColumnDef.parts (c : ColumnDef) : List Node := c.constraints.flatMap (·.rule.parts)

def TableRule.parts : TableRule → List Node
  | .primaryKey columns _ | .unique columns _ => indexedParts columns
  | .check condition => [.expr condition]
  | .foreignKey .. => []

def TableBody.parts : TableBody → List Node
  | .definitions columns constraints _ _ =>
    columns.flatMap ColumnDef.parts ++ constraints.flatMap (·.rule.parts)
  | .asSelect query => [.query query]

def TableChange.parts : TableChange → List Node
  | .addColumn column => column.parts
  | .renameTo _ | .renameColumn .. | .dropColumn _ => []

def InsertSource.parts : InsertSource → List Node
  | .values rows => rowParts rows
  | .select query => [.query query]
  | .defaultValues => []

def UpsertTarget.parts (t : UpsertTarget) : List Node :=
  indexedParts t.columns ++ optionParts t.filter

def UpsertAction.parts : UpsertAction → List Node
  | .nothing => []
  | .update assignments filter => assignmentParts assignments ++ optionParts filter

def Upsert.parts (u : Upsert) : List Node :=
  u.target.toList.flatMap UpsertTarget.parts ++ u.action.parts

def Insert.parts (i : Insert) : List Node :=
  withParts i.withClause ++ i.source.parts ++ i.upserts.flatMap Upsert.parts ++
    columnParts i.returning

def Update.parts (u : Update) : List Node :=
  withParts u.withClause ++ assignmentParts u.assignments ++ u.source.toList.map .tree ++
    optionParts u.filter ++ columnParts u.returning ++ termParts u.orderBy ++
    optionParts u.limit ++ optionParts u.offset

def Delete.parts (d : Delete) : List Node :=
  withParts d.withClause ++ optionParts d.filter ++ columnParts d.returning ++
    termParts d.orderBy ++ optionParts d.limit ++ optionParts d.offset

def Statement.parts : Statement → List Node
  | .select query => [.query query]
  | .insert i => i.parts
  | .update u => u.parts
  | .delete d => d.parts
  | .createTable table => table.body.parts
  | .createIndex index => indexedParts index.columns ++ optionParts index.filter
  | .createView view => [.query view.query]
  | .createTrigger header steps => optionParts header.condition ++ steps.map .statement
  | .alterTable _ change => change.parts
  | .attach file _ => [.expr file]
  | .vacuum _ file => optionParts file
  | .explain _ statement => [.statement statement]
  | .createVirtualTable _ | .drop _ | .begin _ | .commit | .rollback _ | .savepoint _
  | .release _ | .detach _ | .reindex _ | .analyze _ => []

namespace Node

/-- The nodes that stand directly in a node. -/
def parts : Node → List Node
  | .expr e => e.parts
  | .query q => q.parts
  | .body b => b.parts
  | .tree t => t.parts
  | .statement s => s.parts

def isTrigger : Node → Bool
  | .statement (.createTrigger ..) => true
  | _ => false

end Node

/-- `Inside a b`: `a` is `b` or stands in `b` at some depth. -/
def Inside : Node → Node → Prop := Relation.ReflTransGen fun a b => a ∈ b.parts

/-- Standing in a node at some depth, with no trigger on the way. -/
def Plainly : Node → Node → Prop :=
  Relation.ReflTransGen fun a b => a ∈ b.parts ∧ b.isTrigger = false

/-! ## Induction on nodes -/

namespace Node

noncomputable def size : Node → Nat
  | .expr e => sizeOf e
  | .query q => sizeOf q
  | .body b => sizeOf b
  | .tree t => sizeOf t
  | .statement s => sizeOf s

theorem size_lt_of_mem_option {m : Node} {item : Option Expr} (h : m ∈ optionParts item) :
    m.size < sizeOf item := by
  cases item with
  | none => exact absurd h List.not_mem_nil
  | some e =>
    cases List.mem_singleton.mp h
    simp [size]

theorem size_lt_of_mem_exprs {m : Node} {items : List Expr} (h : m ∈ items.map Node.expr) :
    m.size < sizeOf items := by
  obtain ⟨e, he, rfl⟩ := List.mem_map.mp h
  exact List.sizeOf_lt_of_mem he

theorem size_lt_of_mem_flatMap {α : Type} [SizeOf α] {f : α → List Node}
    (hf : ∀ a, ∀ m ∈ f a, m.size < sizeOf a) {m : Node} {items : List α}
    (h : m ∈ items.flatMap f) : m.size < sizeOf items := by
  obtain ⟨a, ha, hm⟩ := List.mem_flatMap.mp h
  have := List.sizeOf_lt_of_mem ha
  have := hf a m hm
  omega

theorem size_lt_of_mem_rows {m : Node} {rows : List (List Expr)} (h : m ∈ rowParts rows) :
    m.size < sizeOf rows :=
  size_lt_of_mem_flatMap (fun _ _ => size_lt_of_mem_exprs) h

theorem size_lt_of_mem_terms {m : Node} {terms : List OrderingTerm} (h : m ∈ termParts terms) :
    m.size < sizeOf terms := by
  obtain ⟨⟨e, c, d, n⟩, ht, rfl⟩ := List.mem_map.mp h
  have := List.sizeOf_lt_of_mem ht
  simp [size] at this ⊢
  omega

theorem size_lt_of_mem_with {m : Node} {w : Option WithClause} (h : m ∈ withParts w) :
    m.size < sizeOf w := by
  obtain ⟨⟨recursive, tables⟩, hw, hm⟩ := List.mem_flatMap.mp h
  obtain ⟨⟨n, cs, mat, q⟩, ht, rfl⟩ := List.mem_map.mp hm
  have := List.sizeOf_lt_of_mem ht
  cases Option.mem_toList.mp hw
  simp [size] at this ⊢
  omega

theorem size_lt_of_mem_columns {m : Node} {columns : List ResultColumn}
    (h : m ∈ columnParts columns) : m.size < sizeOf columns := by
  refine size_lt_of_mem_flatMap (fun c m hm => ?_) h
  cases c with
  | expr value asName =>
    cases List.mem_singleton.mp hm
    simp [size]
    omega
  | star => exact absurd hm List.not_mem_nil
  | tableStar t => exact absurd hm List.not_mem_nil

theorem size_lt_of_mem_indexed {m : Node} {columns : List IndexedColumn}
    (h : m ∈ indexedParts columns) : m.size < sizeOf columns := by
  obtain ⟨⟨e, c, o⟩, ht, rfl⟩ := List.mem_map.mp h
  have := List.sizeOf_lt_of_mem ht
  simp [size] at this ⊢
  omega

theorem size_lt_of_mem_assignments {m : Node} {assignments : List Assignment}
    (h : m ∈ assignmentParts assignments) : m.size < sizeOf assignments := by
  obtain ⟨⟨cs, e⟩, ht, rfl⟩ := List.mem_map.mp h
  have := List.sizeOf_lt_of_mem ht
  simp [size] at this ⊢
  omega

theorem size_lt_of_mem_source {m : Node} {source : Option FromTree}
    (h : m ∈ source.toList.map Node.tree) : m.size < sizeOf source := by
  obtain ⟨t, ht, rfl⟩ := List.mem_map.mp h
  cases Option.mem_toList.mp ht
  simp [size]

/-! ### One bound for each type -/

theorem size_lt_of_mem_expr (e : Expr) : ∀ m ∈ e.parts, m.size < sizeOf e := by
  intro m h
  cases e with
  | literal | column | callStar | raise => exact absurd h List.not_mem_nil
  | unary op a => cases List.mem_singleton.mp h; simp only [size, Expr.unary.sizeOf_spec]; omega
  | nullTest t a =>
    cases List.mem_singleton.mp h
    simp only [size, Expr.nullTest.sizeOf_spec]
    omega
  | collate | cast => cases List.mem_singleton.mp h; simp [size]; omega
  | existsRow | subquery => cases List.mem_singleton.mp h; simp [size]
  | call | row => have := size_lt_of_mem_exprs h; simp; omega
  | binary op a b =>
    rcases List.mem_pair.mp h with rfl | rfl <;> (simp only [size, Expr.binary.sizeOf_spec]; omega)
  | between n a b c =>
    simp only [Expr.parts, List.mem_cons, List.not_mem_nil, or_false] at h
    rcases h with rfl | rfl | rfl <;> simp [size] <;> omega
  | inSelect n a q =>
    rcases List.mem_pair.mp h with rfl | rfl <;> (simp only [size, Expr.inSelect.sizeOf_spec]; omega)
  | inList n a items =>
    rcases List.mem_cons.mp h with rfl | h
    · simp [size]; omega
    · have := size_lt_of_mem_exprs h; simp; omega
  | pattern op n a b c =>
    simp only [Expr.parts, List.mem_cons] at h
    rcases h with rfl | rfl | h
    · simp [size]; omega
    · simp [size]; omega
    · have := size_lt_of_mem_option h; simp; omega
  | caseWhen a bs c =>
    simp only [Expr.parts, List.mem_append] at h
    rcases h with (h | h) | h
    · have := size_lt_of_mem_option h; simp; omega
    · have := size_lt_of_mem_flatMap (fun b m hm => ?_) h
      · simp; omega
      · obtain ⟨x, y⟩ := b
        rcases List.mem_pair.mp hm with rfl | rfl <;> (simp only [size, Prod.mk.sizeOf_spec]; omega)
    · have := size_lt_of_mem_option h; simp; omega

theorem size_lt_of_mem_query (q : Select) : ∀ m ∈ q.parts, m.size < sizeOf q := by
  intro m h
  obtain ⟨w, b, cs, os, l, o⟩ := q
  simp only [Select.parts, Select.bodies, List.map_cons, List.map_map, List.mem_append,
    List.mem_cons] at h
  rcases h with (((h | h | h) | h) | h) | h
  · have := size_lt_of_mem_with h; simp; omega
  · cases h; simp [size]; omega
  · obtain ⟨⟨op, c⟩, hc, rfl⟩ := List.mem_map.mp h
    have := List.sizeOf_lt_of_mem hc
    simp [size] at this ⊢; omega
  · have := size_lt_of_mem_terms h; simp; omega
  · have := size_lt_of_mem_option h; simp; omega
  · have := size_lt_of_mem_option h; simp; omega

theorem size_lt_of_mem_body (b : SelectBody) : ∀ m ∈ b.parts, m.size < sizeOf b := by
  intro m h
  cases b with
  | core c =>
    obtain ⟨d, cs, s, f, gs, v⟩ := c
    simp only [SelectBody.parts, List.mem_append] at h
    rcases h with (((h | h) | h) | h) | h
    · have := size_lt_of_mem_columns h; simp; omega
    · have := size_lt_of_mem_source h; simp; omega
    · have := size_lt_of_mem_option h; simp; omega
    · have := size_lt_of_mem_exprs h; simp; omega
    · have := size_lt_of_mem_option h; simp; omega
  | values rows => have := size_lt_of_mem_rows h; simp; omega

theorem size_lt_of_mem_tree (t : FromTree) : ∀ m ∈ t.parts, m.size < sizeOf t := by
  intro m h
  cases t with
  | table r => exact absurd h List.not_mem_nil
  | subquery q n => cases List.mem_singleton.mp h; simp [size]; omega
  | function n items a => have := size_lt_of_mem_exprs h; simp; omega
  | join l op r c =>
    simp only [FromTree.parts, List.mem_cons] at h
    rcases h with rfl | rfl | h
    · simp [size]; omega
    · simp [size]; omega
    · rcases c with _ | (e | names)
      · exact absurd h List.not_mem_nil
      · cases List.mem_singleton.mp h
        simp [size]; omega
      · exact absurd h List.not_mem_nil

theorem size_lt_of_mem_column (c : ColumnDef) : ∀ m ∈ c.parts, m.size < sizeOf c := by
  intro m h
  obtain ⟨n, t, cs⟩ := c
  have rule : ∀ c : ColumnConstraint, ∀ m ∈ c.rule.parts, m.size < sizeOf c := by
    rintro ⟨n, rule⟩ m hm
    cases rule with
    | check | generated => cases List.mem_singleton.mp hm; simp [size]; omega
    | default v =>
      cases v with
      | literal v => exact absurd hm List.not_mem_nil
      | expr e => cases List.mem_singleton.mp hm; simp [size]; omega
    | primaryKey | notNull | null | unique | collate | references =>
      exact absurd hm List.not_mem_nil
  have : m.size < sizeOf cs := size_lt_of_mem_flatMap rule h
  simp; omega

theorem size_lt_of_mem_tableBody (b : TableBody) : ∀ m ∈ b.parts, m.size < sizeOf b := by
  intro m h
  have rule : ∀ c : TableConstraint, ∀ m ∈ c.rule.parts, m.size < sizeOf c := by
    rintro ⟨n, rule⟩ m hm
    cases rule with
    | primaryKey | unique => have := size_lt_of_mem_indexed hm; simp; omega
    | check e => cases List.mem_singleton.mp hm; simp [size]; omega
    | foreignKey cs k => exact absurd hm List.not_mem_nil
  cases b with
  | definitions columns constraints w s =>
    rcases List.mem_append.mp h with h | h
    · have := size_lt_of_mem_flatMap size_lt_of_mem_column h; simp; omega
    · have := size_lt_of_mem_flatMap rule h; simp; omega
  | asSelect q => cases List.mem_singleton.mp h; simp [size]

theorem size_lt_of_mem_upsert (u : Upsert) : ∀ m ∈ u.parts, m.size < sizeOf u := by
  intro m h
  obtain ⟨target, action⟩ := u
  rcases List.mem_append.mp h with h | h
  · obtain ⟨⟨cs, f⟩, ht, hm⟩ := List.mem_flatMap.mp h
    have htarget : target = some ⟨cs, f⟩ := Option.mem_toList.mp ht
    rw [htarget]
    rcases List.mem_append.mp hm with h | h
    · have : m.size < sizeOf cs := size_lt_of_mem_indexed h
      simp; omega
    · have : m.size < sizeOf f := size_lt_of_mem_option h
      simp; omega
  · cases action with
    | nothing => exact absurd h List.not_mem_nil
    | update cs f =>
      rcases List.mem_append.mp h with h | h
      · have := size_lt_of_mem_assignments h; simp; omega
      · have := size_lt_of_mem_option h; simp; omega

theorem size_lt_of_mem_insert (i : Insert) : ∀ m ∈ i.parts, m.size < sizeOf i := by
  intro m h
  obtain ⟨w, v, t, n, cs, source, us, rs⟩ := i
  simp only [Insert.parts, List.mem_append] at h
  rcases h with ((h | h) | h) | h
  · have := size_lt_of_mem_with h; simp; omega
  · cases source with
    | values rows => have := size_lt_of_mem_rows h; simp; omega
    | select q => cases List.mem_singleton.mp h; simp [size]; omega
    | defaultValues => exact absurd h List.not_mem_nil
  · have := size_lt_of_mem_flatMap size_lt_of_mem_upsert h; simp; omega
  · have := size_lt_of_mem_columns h; simp; omega

theorem size_lt_of_mem_update (u : Update) : ∀ m ∈ u.parts, m.size < sizeOf u := by
  intro m h
  obtain ⟨w, c, t, as, s, f, rs, os, l, o⟩ := u
  simp only [Update.parts, List.mem_append] at h
  rcases h with ((((((h | h) | h) | h) | h) | h) | h) | h
  · have := size_lt_of_mem_with h; simp; omega
  · have := size_lt_of_mem_assignments h; simp; omega
  · have := size_lt_of_mem_source h; simp; omega
  · have := size_lt_of_mem_option h; simp; omega
  · have := size_lt_of_mem_columns h; simp; omega
  · have := size_lt_of_mem_terms h; simp; omega
  · have := size_lt_of_mem_option h; simp; omega
  · have := size_lt_of_mem_option h; simp; omega

theorem size_lt_of_mem_delete (d : Delete) : ∀ m ∈ d.parts, m.size < sizeOf d := by
  intro m h
  obtain ⟨w, t, f, rs, os, l, o⟩ := d
  simp only [Delete.parts, List.mem_append] at h
  rcases h with ((((h | h) | h) | h) | h) | h
  · have := size_lt_of_mem_with h; simp; omega
  · have := size_lt_of_mem_option h; simp; omega
  · have := size_lt_of_mem_columns h; simp; omega
  · have := size_lt_of_mem_terms h; simp; omega
  · have := size_lt_of_mem_option h; simp; omega
  · have := size_lt_of_mem_option h; simp; omega

theorem size_lt_of_mem_statement (s : Statement) : ∀ m ∈ s.parts, m.size < sizeOf s := by
  intro m h
  cases s with
  | select q => cases List.mem_singleton.mp h; simp [size]
  | insert i => have := size_lt_of_mem_insert i m h; simp; omega
  | update u => have := size_lt_of_mem_update u m h; simp; omega
  | delete d => have := size_lt_of_mem_delete d m h; simp; omega
  | createTable t =>
    obtain ⟨a, b, c, body⟩ := t
    have := size_lt_of_mem_tableBody body m h; simp; omega
  | createIndex i =>
    obtain ⟨a, b, c, d, cs, f⟩ := i
    rcases List.mem_append.mp h with h | h
    · have : m.size < sizeOf cs := size_lt_of_mem_indexed h
      simp; omega
    · have : m.size < sizeOf f := size_lt_of_mem_option h
      simp; omega
  | createView v =>
    obtain ⟨a, b, c, d, q⟩ := v
    cases List.mem_singleton.mp h
    simp [size]; omega
  | createTrigger header steps =>
    obtain ⟨a, b, c, d, e, f, g, condition⟩ := header
    rcases List.mem_append.mp h with h | h
    · have : m.size < sizeOf condition := size_lt_of_mem_option h
      simp; omega
    · obtain ⟨step, hs, rfl⟩ := List.mem_map.mp h
      have := List.sizeOf_lt_of_mem hs
      simp only [size, Statement.createTrigger.sizeOf_spec]
      omega
  | alterTable t change =>
    cases change with
    | addColumn c => have := size_lt_of_mem_column c m h; simp; omega
    | renameTo | renameColumn | dropColumn => exact absurd h List.not_mem_nil
  | attach file n => cases List.mem_singleton.mp h; simp [size]; omega
  | vacuum n file => have := size_lt_of_mem_option h; simp; omega
  | explain p s => cases List.mem_singleton.mp h; simp [size]
  | createVirtualTable | drop | begin | commit | rollback | savepoint | release | detach | reindex
  | analyze => exact absurd h List.not_mem_nil

theorem size_lt_of_mem_parts (n : Node) : ∀ m ∈ n.parts, m.size < n.size := by
  cases n with
  | expr e => exact size_lt_of_mem_expr e
  | query q => exact size_lt_of_mem_query q
  | body b => exact size_lt_of_mem_body b
  | tree t => exact size_lt_of_mem_tree t
  | statement s => exact size_lt_of_mem_statement s

/-- What holds of a node as soon as it holds of the parts of the node holds of every node. -/
theorem induction {P : Node → Prop} (step : ∀ n : Node, (∀ m ∈ n.parts, P m) → P n) (n : Node) :
    P n := by
  induction hs : n.size using Nat.strongRecOn generalizing n with
  | ind size ih =>
    refine step n fun m hm => ih m.size ?_ m rfl
    rw [← hs]
    exact size_lt_of_mem_parts n m hm

end Node
end SqliteSyntax
