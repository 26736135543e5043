import SqliteSyntax.Draft.Statement
import SqliteSyntax.Proofs.Nodes.Parts
import SqliteSyntax.Proofs.Rules.Accepted

/-! # What can be made by calls

`Draft.apply` is one call on a draft of any statement, `Start` a beginning. Calls take nodes, common
tables, constraints and other drafts; `Made` holds of those that are themselves made by calls, to any
depth and by call sequences of any length, or that are among the nodes given from outside. -/
namespace SqliteSyntax
set_option autoImplicit false

/-- What a call may take. -/
inductive Item where
  | node (n : Node)
  | withClause (w : WithClause)
  | constraint (c : TableConstraint)
  | draft (d : Draft)

/-! ## Calls on a draft -/

/-- A call on a draft of a statement. -/
inductive Call where
  | select (call : SelectCall)
  | insert (call : InsertCall)
  | update (call : UpdateCall)
  | delete (call : DeleteCall)
  | table (call : TableCall)
  | index (call : IndexCall)
  | view (call : ViewCall)
  | trigger (call : TriggerCall)
  | virtualTable (call : VirtualTableCall)
  | alter (change : TableChange)
  | lenient
  | vacuum (call : VacuumCall)

/-- The draft after a call; a draft of another statement does not offer it. -/
def Draft.apply : Draft → Call → Except Failure Draft
  | .select d, .select call => (d.apply call).map .select
  | .insert d, .insert call => (d.apply call).map .insert
  | .update d, .update call => (d.apply call).map .update
  | .delete d, .delete call => (d.apply call).map .delete
  | .table d, .table call => (d.apply call).map .table
  | .index d, .index call => (d.apply call).map .index
  | .view d, .view call => (d.apply call).map .view
  | .trigger d, .trigger call => (d.apply call).map .trigger
  | .virtualTable d, .virtualTable call => .ok (.virtualTable (d.apply call))
  | .alter d, .alter change => (d.apply change).map .alter
  | .drop d, .lenient => .ok (.drop d.lenient)
  | .vacuum d, .vacuum call => .ok (.vacuum (d.apply call))
  | _, _ => .error .unavailable

/-- What the calls on drafts do: each is a call on the kind of statement that is in the making. -/
inductive Draft.Step : Draft → Call → Draft → Prop
  | select {d e : SelectDraft} {call : SelectCall} (h : d.apply call = .ok e) :
      Step (.select d) (.select call) (.select e)
  | insert {d e : InsertDraft} {call : InsertCall} (h : d.apply call = .ok e) :
      Step (.insert d) (.insert call) (.insert e)
  | update {d e : UpdateDraft} {call : UpdateCall} (h : d.apply call = .ok e) :
      Step (.update d) (.update call) (.update e)
  | delete {d e : DeleteDraft} {call : DeleteCall} (h : d.apply call = .ok e) :
      Step (.delete d) (.delete call) (.delete e)
  | table {d e : TableDraft} {call : TableCall} (h : d.apply call = .ok e) :
      Step (.table d) (.table call) (.table e)
  | index {i j : CreateIndex} {call : IndexCall} (h : i.apply call = .ok j) :
      Step (.index i) (.index call) (.index j)
  | view {d e : ViewDraft} {call : ViewCall} (h : d.apply call = .ok e) :
      Step (.view d) (.view call) (.view e)
  | trigger {d e : TriggerDraft} {call : TriggerCall} (h : d.apply call = .ok e) :
      Step (.trigger d) (.trigger call) (.trigger e)
  | virtualTable (t : CreateVirtualTable) (call : VirtualTableCall) :
      Step (.virtualTable t) (.virtualTable call) (.virtualTable (t.apply call))
  | alter {d e : AlterDraft} {change : TableChange} (h : d.apply change = .ok e) :
      Step (.alter d) (.alter change) (.alter e)
  | drop (d : DropObject) : Step (.drop d) .lenient (.drop d.lenient)
  | vacuum (d : VacuumDraft) (call : VacuumCall) :
      Step (.vacuum d) (.vacuum call) (.vacuum (d.apply call))

theorem Draft.step_of_apply {d e : Draft} {call : Call} (happ : d.apply call = .ok e) :
    d.Step call e := by
  unfold apply at happ
  split at happ
  case h_1 => obtain ⟨next, h, rfl⟩ := map_eq_ok.mp happ; exact .select h
  case h_2 => obtain ⟨next, h, rfl⟩ := map_eq_ok.mp happ; exact .insert h
  case h_3 => obtain ⟨next, h, rfl⟩ := map_eq_ok.mp happ; exact .update h
  case h_4 => obtain ⟨next, h, rfl⟩ := map_eq_ok.mp happ; exact .delete h
  case h_5 => obtain ⟨next, h, rfl⟩ := map_eq_ok.mp happ; exact .table h
  case h_6 => obtain ⟨next, h, rfl⟩ := map_eq_ok.mp happ; exact .index h
  case h_7 => obtain ⟨next, h, rfl⟩ := map_eq_ok.mp happ; exact .view h
  case h_8 => obtain ⟨next, h, rfl⟩ := map_eq_ok.mp happ; exact .trigger h
  case h_9 => cases happ; exact .virtualTable ..
  case h_10 => obtain ⟨next, h, rfl⟩ := map_eq_ok.mp happ; exact .alter h
  case h_11 => cases happ; exact .drop _
  case h_12 => cases happ; exact .vacuum ..
  case h_13 => cases happ

/-! ### Ends of drafts -/

/-- What a draft ends in: a statement of its own kind. -/
inductive Draft.Finishes : Draft → Statement → Prop
  | select (d : SelectDraft) : Finishes (.select d) (.select d.query)
  | insert {d : InsertDraft} {i : Insert} (h : d.finish = .ok i) : Finishes (.insert d) (.insert i)
  | update {d : UpdateDraft} {u : Update} (h : d.finish = .ok u) : Finishes (.update d) (.update u)
  | delete {d : DeleteDraft} {x : Delete} (h : d.finish = .ok x) : Finishes (.delete d) (.delete x)
  | table {d : TableDraft} {t : CreateTable} (h : d.finish = .ok t) :
      Finishes (.table d) (.createTable t)
  | index {i j : CreateIndex} (h : i.finish = .ok j) : Finishes (.index i) (.createIndex j)
  | view {d : ViewDraft} {v : CreateView} (h : d.finish = .ok v) : Finishes (.view d) (.createView v)
  | trigger (header : TriggerHeader) {steps : List Statement} (ne : steps ≠ []) :
      Finishes (.trigger (.bound header steps)) (.createTrigger header steps)
  | virtualTable (t : CreateVirtualTable) : Finishes (.virtualTable t) (.createVirtualTable t)
  | alter (table : QualifiedName) (change : TableChange) :
      Finishes (.alter ⟨table, some change⟩) (.alterTable table change)
  | drop (d : DropObject) : Finishes (.drop d) (.drop d)
  | vacuum (d : VacuumDraft) : Finishes (.vacuum d) (.vacuum d.schema d.file)
  | finished {s : Statement} (h : s.checkShape = .ok ()) : Finishes (.finished s) s

theorem Draft.finishes_of_finish {d : Draft} {s : Statement} (h : d.finish = .ok s) :
    d.Finishes s := by
  cases d with
  | select d => cases h; exact .select d
  | insert d => obtain ⟨i, hi, hs⟩ := bind_eq_ok.mp h; cases pure_eq_ok.mp hs; exact .insert hi
  | update d => obtain ⟨u, hu, hs⟩ := bind_eq_ok.mp h; cases pure_eq_ok.mp hs; exact .update hu
  | delete d => obtain ⟨x, hx, hs⟩ := bind_eq_ok.mp h; cases pure_eq_ok.mp hs; exact .delete hx
  | table d => obtain ⟨t, ht, hs⟩ := bind_eq_ok.mp h; cases pure_eq_ok.mp hs; exact .table ht
  | index i => obtain ⟨j, hj, hs⟩ := bind_eq_ok.mp h; cases pure_eq_ok.mp hs; exact .index hj
  | view d => obtain ⟨v, hv, hs⟩ := bind_eq_ok.mp h; cases pure_eq_ok.mp hs; exact .view hv
  | trigger d =>
    have h : d.finish = .ok s := h
    unfold TriggerDraft.finish at h
    split at h
    · cases h; exact .trigger _ (List.cons_ne_nil _ _)
    · cases h
  | virtualTable t => cases h; exact .virtualTable t
  | alter d =>
    obtain ⟨table, _ | change⟩ := d
    · cases h
    · cases h; exact .alter table change
  | drop d => cases h; exact .drop d
  | vacuum d => cases h; exact .vacuum d
  | finished s =>
    obtain ⟨⟨⟩, shape, hs⟩ := bind_eq_ok.mp h
    cases pure_eq_ok.mp hs
    exact .finished (orRefuse_eq_ok.mp shape)

/-! ### What a call takes -/

def nodeItems (nodes : List Node) : List Item := nodes.map .node

def SelectCall.items : SelectCall → List Item
  | .distinct => []
  | .source tree => nodeItems [.tree tree]
  | .filter condition | .having condition => nodeItems [.expr condition]
  | .groupBy exprs => nodeItems (exprs.map .expr)
  | .combine _ operand => [.draft (.select operand)]
  | .orderBy terms | .thenBy terms => nodeItems (termParts terms)
  | .limit count | .offset count => nodeItems [.expr count]

def InsertCall.items : InsertCall → List Item
  | .named _ | .columns _ | .defaultValues | .onAnyConflict | .doNothing | .done => []
  | .values row => nodeItems (row.map .expr)
  | .select query => nodeItems [.query query]
  | .returning results => nodeItems (columnParts results)
  | .onConflict target => nodeItems (indexedParts target)
  | .targetFilter condition | .filter condition => nodeItems [.expr condition]
  | .doUpdate _ value | .assign _ value | .assignRow _ value => nodeItems [.expr value]

def UpdateCall.items : UpdateCall → List Item
  | .assign _ value | .assignRow _ value => nodeItems [.expr value]
  | .source tree => nodeItems [.tree tree]
  | .filter condition => nodeItems [.expr condition]
  | .returning columns => nodeItems (columnParts columns)
  | .orderBy terms => nodeItems (termParts terms)
  | .limit count | .offset count => nodeItems [.expr count]

def DeleteCall.items : DeleteCall → List Item
  | .filter condition => nodeItems [.expr condition]
  | .returning columns => nodeItems (columnParts columns)
  | .orderBy terms => nodeItems (termParts terms)
  | .limit count | .offset count => nodeItems [.expr count]

def TableCall.items : TableCall → List Item
  | .temporary | .ifNotExists | .withoutRowid | .strict => []
  | .column definition => nodeItems definition.parts
  | .constraint c => [.constraint c]
  | .asSelect query => nodeItems [.query query]

def IndexCall.items : IndexCall → List Item
  | .unique | .ifNotExists => []
  | .column indexed => nodeItems [.expr indexed.expr]
  | .columns indexed => nodeItems (indexedParts indexed)
  | .filter condition => nodeItems [.expr condition]

def ViewCall.items : ViewCall → List Item
  | .temporary | .ifNotExists | .columns _ => []
  | .asSelect query => nodeItems [.query query]

def TriggerCall.items : TriggerCall → List Item
  | .temporary | .ifNotExists | .fires .. | .table _ | .forEachRow => []
  | .condition e => nodeItems [.expr e]
  | .step draft => [.draft draft]

def VacuumCall.items : VacuumCall → List Item
  | .schema _ => []
  | .intoFile file => nodeItems [.expr file]

def Call.items : Call → List Item
  | .select call => call.items
  | .insert call => call.items
  | .update call => call.items
  | .delete call => call.items
  | .table call => call.items
  | .index call => call.items
  | .view call => call.items
  | .trigger call => call.items
  | .alter change => nodeItems change.parts
  | .vacuum call => call.items
  | .virtualTable _ | .lenient => []

/-! ## Beginnings -/

/-- A beginning of a draft. -/
inductive Start where
  | opening (withClause : Option WithClause) (first : Opening)
  | table (name : QualifiedName)
  | index (name : QualifiedName) (tableName : String)
  | view (name : QualifiedName)
  | trigger (name : QualifiedName)
  | virtualTable (name : QualifiedName) (moduleName : String)
  | alter (tableName : QualifiedName)
  | drop (kind : ObjectKind) (name : QualifiedName)
  | vacuum

def Start.draft : Start → Except Failure Draft
  | .opening withClause first => first.draft withClause
  | .table name => .ok (.table (.start name))
  | .index name tableName => .ok (.index (.start name tableName))
  | .view name => .ok (.view (.start name))
  | .trigger name => .ok (.trigger (.start name))
  | .virtualTable name moduleName => .ok (.virtualTable (.start name moduleName))
  | .alter tableName => .ok (.alter (.start tableName))
  | .drop kind name => .ok (.drop (.start kind name))
  | .vacuum => .ok (.vacuum .start)

def Opening.items : Opening → List Item
  | .select _ columns => nodeItems (columnParts columns)
  | .values rows => nodeItems (rowParts rows)
  | .insert .. | .update .. | .delete _ => []

def Start.items : Start → List Item
  | .opening withClause first => withClause.toList.map .withClause ++ first.items
  | _ => []

/-- Statements that one call makes, with no draft in between. -/
def Statement.isSingleCall : Statement → Bool
  | .begin _ | .commit | .rollback _ | .savepoint _ | .release _ | .attach .. | .detach _
  | .reindex _ | .analyze _ => true
  | _ => false

/-! ## Closure -/

/-- A `CASE` expression, which takes a draft of its own. -/
def Expr.isCase : Expr → Bool
  | .caseWhen .. => true
  | _ => false

/-- The draft of a `CASE` with its branches. -/
def CaseDraft.branched (operand : Option Expr) (branches : List (Expr × Expr)) : CaseDraft :=
  branches.foldl (fun d b => d.branch b.1 b.2) (.start operand)

/-- Items made by calls, from nodes given from outside and from items made before. Result columns,
ordering terms, column definitions and the like count as made with their expressions. -/
inductive Made (given : Node → Prop) : Item → Prop
  | given {n : Node} (h : given n) : Made given (.node n)
  -- expressions
  | expr {e : Expr} (plain : e.isCase = false) (parts : ∀ m ∈ e.parts, Made given (.node m)) :
      Made given (.node (.expr e))
  | escaped {e escape f : Expr} (he : Made given (.node (.expr e)))
      (hc : Made given (.node (.expr escape))) (call : e.withEscape escape = .ok f) :
      Made given (.node (.expr f))
  | caseWhen {operand otherwise : Option Expr} {branches : List (Expr × Expr)} {e : Expr}
      (parts : ∀ m ∈ (Expr.caseWhen operand branches otherwise).parts, Made given (.node m))
      (call : (CaseDraft.branched operand branches).finish otherwise = .ok e) :
      Made given (.node (.expr e))
  -- table trees
  | table (reference : TableRef) : Made given (.node (.tree (.table reference)))
  | subquery {q : Select} (asName : Option String) (hq : Made given (.node (.query q))) :
      Made given (.node (.tree (.subquery q asName)))
  | function {items : List Expr} (name : QualifiedName) (asName : Option String)
      (parts : ∀ e ∈ items, Made given (.node (.expr e))) :
      Made given (.node (.tree (.function name items asName)))
  | treeNamed {t u : FromTree} (asName : String) (ht : Made given (.node (.tree t)))
      (call : t.named asName = .ok u) : Made given (.node (.tree u))
  | joined {l r : FromTree} (kind : JoinKind) (hl : Made given (.node (.tree l)))
      (hr : Made given (.node (.tree r))) : Made given (.node (.tree (.joined kind l r)))
  | joinedOn {l r : FromTree} {condition : Expr} (kind : JoinKind)
      (hl : Made given (.node (.tree l))) (hr : Made given (.node (.tree r)))
      (hc : Made given (.node (.expr condition))) :
      Made given (.node (.tree (.joinedOn kind l r condition)))
  | joinedUsing {l r t : FromTree} (kind : JoinKind) (columns : List String)
      (hl : Made given (.node (.tree l))) (hr : Made given (.node (.tree r)))
      (call : FromTree.joinedUsing kind l r columns = .ok t) : Made given (.node (.tree t))
  | natural {l r t : FromTree} (kind : JoinKind) (hl : Made given (.node (.tree l)))
      (hr : Made given (.node (.tree r))) (call : FromTree.natural kind l r = .ok t) :
      Made given (.node (.tree t))
  -- common tables
  | withStart {t : CommonTable} (recursive : Bool) (hq : Made given (.node (.query t.query))) :
      Made given (.withClause (.start recursive t))
  | withAdding {w : WithClause} {t : CommonTable} (hw : Made given (.withClause w))
      (hq : Made given (.node (.query t.query))) : Made given (.withClause (w.adding t))
  -- table constraints
  | primaryKey {columns : List IndexedColumn} {c : TableConstraint}
      (parts : ∀ m ∈ indexedParts columns, Made given (.node m))
      (call : TableConstraint.primaryKey columns = .ok c) : Made given (.constraint c)
  | unique {columns : List IndexedColumn} {c : TableConstraint}
      (parts : ∀ m ∈ indexedParts columns, Made given (.node m))
      (call : TableConstraint.unique columns = .ok c) : Made given (.constraint c)
  | check {condition : Expr} (hc : Made given (.node (.expr condition))) :
      Made given (.constraint (.check condition))
  | foreignKey {columns : List String} {key : ForeignKey} {c : TableConstraint}
      (call : TableConstraint.foreignKey columns key = .ok c) : Made given (.constraint c)
  | constraintNamed {c : TableConstraint} (name : String) (hc : Made given (.constraint c)) :
      Made given (.constraint (c.named name))
  | constraintConflict {c c' : TableConstraint} (action : ConflictAction)
      (hc : Made given (.constraint c)) (call : c.onConflict action = .ok c') :
      Made given (.constraint c')
  -- queries and statements
  | query {d : SelectDraft} (hd : Made given (.draft (.select d))) :
      Made given (.node (.query d.query))
  | single {s : Statement} (plain : s.isSingleCall = true)
      (parts : ∀ m ∈ s.parts, Made given (.node m)) : Made given (.node (.statement s))
  | built {d : Draft} {s : Statement} (hd : Made given (.draft d)) (call : d.build = .ok s) :
      Made given (.node (.statement s))
  | explained {d : Draft} {s : Statement} (queryPlan : Bool) (hd : Made given (.draft d))
      (call : d.explain queryPlan = .ok s) : Made given (.node (.statement s))
  -- drafts
  | started {start : Start} {d : Draft} (items : ∀ i ∈ start.items, Made given i)
      (call : start.draft = .ok d) : Made given (.draft d)
  | called {d d' : Draft} {call : Call} (hd : Made given (.draft d))
      (items : ∀ i ∈ call.items, Made given i) (applied : d.apply call = .ok d') :
      Made given (.draft d')
  | finished {s : Statement} (hs : Made given (.node (.statement s))) :
      Made given (.draft (.finished s))

/-- Made by calls alone. -/
def ByCalls : Item → Prop := Made fun _ => False

/-- A run of accepted calls, however long, makes a draft of a made one. -/
theorem Made.run {given : Node → Prop} {d e : Draft} {calls : List Call}
    (hd : Made given (.draft d)) (items : ∀ call ∈ calls, ∀ i ∈ call.items, Made given i)
    (hrun : runCalls Draft.apply d calls = .ok e) : Made given (.draft e) := by
  induction calls generalizing d with
  | nil =>
    cases hrun
    exact hd
  | cons call rest ih =>
    obtain ⟨first, others⟩ := List.forall_mem_cons.mp items
    cases happ : d.apply call with
    | error failure => simp [runCalls, happ, bind, Except.bind] at hrun
    | ok next =>
      have hnext : Made given (.draft next) := .called hd first happ
      refine ih hnext others ?_
      simpa [runCalls, happ, bind, Except.bind] using hrun

end SqliteSyntax
