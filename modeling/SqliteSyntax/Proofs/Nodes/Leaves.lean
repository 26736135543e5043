import SqliteSyntax.Proofs.Nodes.Parts
import SqliteSyntax.Proofs.Quotes.StatementContents

/-! # The contents of a node are in what it stands in

Every content of a part is one of the whole (`Node.leaves_subset`), so what holds of all contents of a
statement holds of those of each node inside it. -/
namespace SqliteSyntax
set_option autoImplicit false

def Node.leaves : Node → List Leaf
  | .expr e => e.leaves
  | .query q => q.leaves
  | .body b => b.leaves
  | .tree t => t.leaves
  | .statement s => s.leaves

/-- The contents of all the nodes are among these. -/
def LeavesIn (nodes : List Node) (leaves : List Leaf) : Prop := ∀ m ∈ nodes, m.leaves ⊆ leaves

namespace LeavesIn
variable {a b : List Node} {l l' : List Leaf}

theorem nil (l : List Leaf) : LeavesIn [] l := fun _ hm => absurd hm List.not_mem_nil

theorem one (m : Node) : LeavesIn [m] m.leaves := by
  intro m' hm
  rw [List.mem_singleton.mp hm]
  exact List.Subset.refl _

theorem left (h : LeavesIn a l) : LeavesIn a (l ++ l') :=
  fun m hm => List.Subset.trans (h m hm) (List.subset_append_left ..)

theorem right (h : LeavesIn a l) : LeavesIn a (l' ++ l) :=
  fun m hm => List.Subset.trans (h m hm) (List.subset_append_right ..)

theorem cons (h : LeavesIn a l) (leaf : Leaf) : LeavesIn a (leaf :: l) :=
  fun m hm => List.Subset.trans (h m hm) (List.subset_cons_self leaf l)

theorem append (ha : LeavesIn a l) (hb : LeavesIn b l') : LeavesIn (a ++ b) (l ++ l') := by
  intro m hm
  rcases List.mem_append.mp hm with hm | hm
  · exact ha.left m hm
  · exact hb.right m hm

theorem flatMap {α : Type} {f : α → List Node} {g : α → List Leaf} (h : ∀ x, LeavesIn (f x) (g x))
    (items : List α) : LeavesIn (items.flatMap f) (items.flatMap g) := by
  intro m hm
  obtain ⟨x, hx, hm⟩ := List.mem_flatMap.mp hm
  exact fun leaf hl => List.mem_flatMap_of_mem hx (h x m hm hl)

theorem map {α : Type} {f : α → Node} {g : α → List Leaf} (h : ∀ x, (f x).leaves ⊆ g x)
    (items : List α) : LeavesIn (items.map f) (items.flatMap g) := by
  intro m hm
  obtain ⟨x, hx, rfl⟩ := List.mem_map.mp hm
  exact fun leaf hl => List.mem_flatMap_of_mem hx (h x hl)

/-! ## Lists of parts -/

theorem exprs (items : List Expr) : LeavesIn (items.map .expr) (listLeaves items) := by
  induction items with
  | nil => exact nil _
  | cons e rest ih =>
    rw [listLeaves]
    exact (one (.expr e)).append ih

theorem option (item : Option Expr) : LeavesIn (optionParts item) (optionLeaves item) := by
  cases item with
  | none => exact nil _
  | some e => exact one (.expr e)

theorem branches (items : List (Expr × Expr)) :
    LeavesIn (items.flatMap fun b => [.expr b.1, .expr b.2]) (branchLeaves items) := by
  induction items with
  | nil => exact nil _
  | cons b rest ih =>
    obtain ⟨condition, result⟩ := b
    rw [branchLeaves]
    exact ((one (.expr condition)).append (one (.expr result))).append ih

theorem rows (rows : List (List Expr)) : LeavesIn (rowParts rows) (rowLeaves rows) := by
  induction rows with
  | nil => exact nil _
  | cons row rest ih =>
    rw [rowLeaves]
    exact (exprs row).append ih

theorem tables (tables : List CommonTable) :
    LeavesIn (tables.map fun t => .query t.query) (tableLeaves tables) := by
  induction tables with
  | nil => exact nil _
  | cons t rest ih =>
    obtain ⟨name, columns, materialized, query⟩ := t
    rw [tableLeaves]
    exact (one (.query query)).right.append ih

theorem withTables (withClause : Option WithClause) :
    LeavesIn (withParts withClause) (withLeaves withClause) := by
  cases withClause with
  | none => exact nil _
  | some w =>
    obtain ⟨recursive, items⟩ := w
    rw [withParts, Option.toList_some, List.flatMap_singleton, withLeaves]
    exact tables items

theorem columns (columns : List ResultColumn) :
    LeavesIn (columnParts columns) (columnLeaves columns) := by
  induction columns with
  | nil => exact nil _
  | cons c rest ih =>
    cases c with
    | star => exact ih
    | tableStar table => exact ih.cons (.name table)
    | expr value asName =>
      rw [columnLeaves]
      exact (one (.expr value)).left.append ih

theorem terms (terms : List OrderingTerm) : LeavesIn (termParts terms) (termLeaves terms) := by
  induction terms with
  | nil => exact nil _
  | cons t rest ih =>
    obtain ⟨expr, collation, direction, nulls⟩ := t
    rw [termLeaves]
    exact (one (.expr expr)).left.append ih

theorem bodies (compounds : List (SetOperator × SelectBody)) :
    LeavesIn (compounds.map fun c => .body c.2) (compoundLeaves compounds) := by
  induction compounds with
  | nil => exact nil _
  | cons c rest ih =>
    obtain ⟨op, body⟩ := c
    rw [compoundLeaves]
    exact (one (.body body)).append ih

theorem source (source : Option FromTree) :
    LeavesIn (source.toList.map .tree) (sourceLeaves source) := by
  cases source with
  | none => exact nil _
  | some t => exact one (.tree t)

theorem indexed (columns : List IndexedColumn) :
    LeavesIn (indexedParts columns) (columns.flatMap IndexedColumn.leaves) :=
  map (fun _ => List.subset_append_left ..) columns

theorem assignments (assignments : List Assignment) :
    LeavesIn (assignmentParts assignments) (assignments.flatMap Assignment.leaves) :=
  map (fun _ => List.subset_append_right ..) assignments

/-! ## Nodes of each kind -/

theorem expr (e : Expr) : LeavesIn e.parts e.leaves := by
  cases e with
  | literal v => exact nil _
  | column c => exact nil _
  | callStar f d => exact nil _
  | raise a => exact nil _
  | unary op a => exact one (.expr a)
  | nullTest t a => exact one (.expr a)
  | collate a c => exact (one (.expr a)).left
  | cast a t => exact (one (.expr a)).left
  | existsRow n q => exact one (.query q)
  | subquery q => exact one (.query q)
  | binary op a b => exact (one (.expr a)).append (one (.expr b))
  | between n a b c => exact ((one (.expr a)).append (one (.expr b))).append (one (.expr c))
  | inSelect n a q => exact (one (.expr a)).append (one (.query q))
  | inList n a items => exact (one (.expr a)).append (exprs items)
  | pattern op n a b c => exact ((one (.expr a)).append (one (.expr b))).append (option c)
  | call f d items => exact (exprs items).right
  | row items => exact exprs items
  | caseWhen a bs c => exact ((option a).append (branches bs)).append (option c)

theorem query (q : Select) : LeavesIn q.parts q.leaves := by
  obtain ⟨withClause, body, compounds, orderBy, limit, offset⟩ := q
  have all : LeavesIn ((body :: compounds.map Prod.snd).map .body)
      (body.leaves ++ compoundLeaves compounds) := by
    rw [List.map_cons, List.map_map]
    exact (one (.body body)).append (bodies compounds)
  have front := (withTables withClause).append all
  rw [← List.append_assoc] at front
  exact ((front.append (terms orderBy)).append (option limit)).append (option offset)

theorem body (b : SelectBody) : LeavesIn b.parts b.leaves := by
  cases b with
  | core c =>
    obtain ⟨distinct, items, tables, filter, groupBy, having⟩ := c
    exact ((((columns items).append (source tables)).append (option filter)).append
      (exprs groupBy)).append (option having)
  | values items => exact rows items

theorem constraint (item : Option JoinConstraint) :
    LeavesIn (item.toList.flatMap JoinConstraint.parts) (constraintLeaves item) := by
  rcases item with _ | (e | names)
  · exact nil _
  · exact one (.expr e)
  · exact nil _

theorem tree (t : FromTree) : LeavesIn t.parts t.leaves := by
  cases t with
  | table r => exact nil _
  | subquery q n => exact (one (.query q)).left
  | function n items a => exact (exprs items).right.left
  | join l op r c => exact ((one (.tree l)).append (one (.tree r))).append (constraint c)

theorem columnRule (rule : ColumnRule) : LeavesIn rule.parts rule.leaves := by
  cases rule with
  | check e => exact one (.expr e)
  | generated e s => exact one (.expr e)
  | default v =>
    cases v with
    | literal v => exact nil _
    | expr e => exact one (.expr e)
  | _ => exact nil _

theorem columnDef (c : ColumnDef) : LeavesIn c.parts c.leaves := by
  have rules (constraint : ColumnConstraint) : LeavesIn constraint.rule.parts constraint.leaves :=
    (columnRule constraint.rule).right
  exact (flatMap rules c.constraints).right

theorem tableRule (rule : TableRule) : LeavesIn rule.parts rule.leaves := by
  cases rule with
  | primaryKey cs c => exact indexed cs
  | unique cs c => exact indexed cs
  | check e => exact one (.expr e)
  | foreignKey cs k => exact nil _

theorem tableBody (b : TableBody) : LeavesIn b.parts b.leaves := by
  cases b with
  | definitions columns constraints w s =>
    have rules (constraint : TableConstraint) : LeavesIn constraint.rule.parts constraint.leaves :=
      (tableRule constraint.rule).right
    exact (flatMap columnDef columns).append (flatMap rules constraints)
  | asSelect q => exact one (.query q)

theorem upsert (u : Upsert) : LeavesIn u.parts u.leaves := by
  refine (flatMap (fun t => (indexed t.columns).append (option t.filter)) u.target.toList).append ?_
  cases u.action with
  | nothing => exact nil _
  | update items filter => exact (assignments items).append (option filter)

theorem insert (i : Insert) : LeavesIn i.parts i.leaves := by
  have rows : LeavesIn i.source.parts i.source.leaves := by
    cases i.source with
    | values items => exact LeavesIn.rows items
    | select q => exact one (.query q)
    | defaultValues => exact nil _
  exact (((withTables i.withClause).left.left.left.append rows).append
    (flatMap upsert i.upserts)).append (columns i.returning)

theorem update (u : Update) : LeavesIn u.parts u.leaves :=
  (((((((withTables u.withClause).left.append (assignments u.assignments)).append
    (source u.source)).append (option u.filter)).append (columns u.returning)).append
      (terms u.orderBy)).append (option u.limit)).append (option u.offset)

theorem delete (d : Delete) : LeavesIn d.parts d.leaves :=
  (((((withTables d.withClause).left.append (option d.filter)).append (columns d.returning)).append
    (terms d.orderBy)).append (option d.limit)).append (option d.offset)

theorem steps (steps : List Statement) : LeavesIn (steps.map .statement) (stepLeaves steps) := by
  induction steps with
  | nil => exact nil _
  | cons s rest ih =>
    rw [stepLeaves]
    exact (one (.statement s)).append ih

theorem statement (s : Statement) : LeavesIn s.parts s.leaves := by
  cases s with
  | select q => exact one (.query q)
  | insert i => exact insert i
  | update u => exact update u
  | delete d => exact delete d
  | createTable t => exact (tableBody t.body).right
  | createIndex i => exact ((indexed i.columns).cons (.name i.table)).right.append (option i.filter)
  | createView v => exact (one (.query v.query)).right
  | createTrigger header items =>
    exact ((option header.condition).cons (.name header.table)).right.append (steps items)
  | alterTable t change =>
    cases change with
    | addColumn c => exact (columnDef c).right
    | _ => exact nil _
  | attach file n => exact (one (.expr file)).left
  | vacuum n file => exact (option file).right
  | explain p s => exact one (.statement s)
  | _ => exact nil _

end LeavesIn

/-- The contents of a part are contents of the whole. -/
theorem Node.leaves_subset {m n : Node} (h : m ∈ n.parts) : m.leaves ⊆ n.leaves := by
  have all : LeavesIn n.parts n.leaves := by
    cases n with
    | expr e => exact .expr e
    | query q => exact .query q
    | body b => exact .body b
    | tree t => exact .tree t
    | statement s => exact .statement s
  exact all m h

end SqliteSyntax
