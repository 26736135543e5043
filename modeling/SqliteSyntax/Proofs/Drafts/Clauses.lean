import Mathlib.Logic.Relation
import SqliteSyntax.Proofs.Drafts.Stages
import SqliteSyntax.Proofs.Rules.Calls

/-! # What calls give to the clauses of a statement

A call on a query, an update or a deletion gives one part to one clause (`Call.part?`), and a
statement is put together from the parts of all its calls: `Clauses.of` collects them clause by clause. The
draft after a run is a function of these parts (`SelectDraft.assembled` and its likes), its stage
included, so nothing that a call gives is lost and the order of calls counts within a clause only. -/
namespace SqliteSyntax
set_option autoImplicit false

/-! ## Parts -/

/-- The clauses to which a call gives something. -/
inductive ClauseKind where
  | distinct
  | source
  | filter
  | groupBy
  | having
  | assignment
  | returning
  | compound
  | orderBy
  | limit
  | offset
deriving DecidableEq

/-- What one call gives. -/
inductive ClausePart where
  | distinct
  | source (tree : FromTree)
  | filter (condition : Expr)
  | groupBy (exprs : List Expr)
  | having (condition : Expr)
  | assignment (a : Assignment)
  | returning (columns : List ResultColumn)
  | compound (op : SetOperator) (body : SelectBody)
  | orderBy (terms : List OrderingTerm)
  | limit (count : Expr)
  | offset (count : Expr)

namespace ClausePart

def kind : ClausePart → ClauseKind
  | .distinct => .distinct
  | .source _ => .source
  | .filter _ => .filter
  | .groupBy _ => .groupBy
  | .having _ => .having
  | .assignment _ => .assignment
  | .returning _ => .returning
  | .compound .. => .compound
  | .orderBy _ => .orderBy
  | .limit _ => .limit
  | .offset _ => .offset

@[simp] def sources : ClausePart → List FromTree
  | .source tree => [tree]
  | _ => []

@[simp] def conditions : ClausePart → List Expr
  | .filter condition => [condition]
  | _ => []

@[simp] def groupings : ClausePart → List Expr
  | .groupBy exprs => exprs
  | _ => []

@[simp] def groupConditions : ClausePart → List Expr
  | .having condition => [condition]
  | _ => []

@[simp] def assignments : ClausePart → List Assignment
  | .assignment a => [a]
  | _ => []

@[simp] def results : ClausePart → List ResultColumn
  | .returning columns => columns
  | _ => []

@[simp] def compounds : ClausePart → List (SetOperator × SelectBody)
  | .compound op body => [(op, body)]
  | _ => []

@[simp] def terms : ClausePart → List OrderingTerm
  | .orderBy terms => terms
  | _ => []

@[simp] def limits : ClausePart → List Expr
  | .limit count => [count]
  | _ => []

@[simp] def offsets : ClausePart → List Expr
  | .offset count => [count]
  | _ => []

end ClausePart

/-- The kinds of some parts, in their order. -/
abbrev kindsOf (parts : List ClausePart) : List ClauseKind := parts.map ClausePart.kind

/-! ### The part of a call -/

/-- A further sort by more terms adds to the same clause as the first. -/
def SelectCall.part : SelectCall → ClausePart
  | .distinct => .distinct
  | .source tree => .source tree
  | .filter condition => .filter condition
  | .groupBy exprs => .groupBy exprs
  | .having condition => .having condition
  | .combine op operand => .compound op operand.query.body
  | .orderBy terms | .thenBy terms => .orderBy terms
  | .limit count => .limit count
  | .offset count => .offset count

def UpdateCall.part : UpdateCall → ClausePart
  | .assign column value => .assignment ⟨[column], value⟩
  | .assignRow columns value => .assignment ⟨columns, value⟩
  | .source tree => .source tree
  | .filter condition => .filter condition
  | .returning columns => .returning columns
  | .orderBy terms => .orderBy terms
  | .limit count => .limit count
  | .offset count => .offset count

def DeleteCall.part : DeleteCall → ClausePart
  | .filter condition => .filter condition
  | .returning columns => .returning columns
  | .orderBy terms => .orderBy terms
  | .limit count => .limit count
  | .offset count => .offset count

/-- What a call gives, if it is a call on a query, an update or a deletion. -/
def Call.part? : Call → Option ClausePart
  | .select call => some call.part
  | .update call => some call.part
  | .delete call => some call.part
  | _ => none

/-! ## Clauses -/

/-- All conditions of a clause, joined by `AND` from the left. -/
def conjunction (conditions : List Expr) : Option Expr := conditions.foldl conjoin none

/-- The clauses of a statement that calls can give. -/
structure Clauses where
  distinct : Bool
  source : Option FromTree
  filter : Option Expr
  groupBy : List Expr
  having : Option Expr
  assignments : List Assignment
  returning : List ResultColumn
  compounds : List (SetOperator × SelectBody)
  orderBy : List OrderingTerm
  limit : Option Expr
  offset : Option Expr

/-- The clauses made of parts in the order of their calls. -/
def Clauses.of (parts : List ClausePart) : Clauses where
  distinct := decide (ClauseKind.distinct ∈ kindsOf parts)
  source := (parts.flatMap ClausePart.sources).getLast?
  filter := conjunction (parts.flatMap ClausePart.conditions)
  groupBy := parts.flatMap ClausePart.groupings
  having := conjunction (parts.flatMap ClausePart.groupConditions)
  assignments := parts.flatMap ClausePart.assignments
  returning := parts.flatMap ClausePart.results
  compounds := parts.flatMap ClausePart.compounds
  orderBy := parts.flatMap ClausePart.terms
  limit := (parts.flatMap ClausePart.limits).getLast?
  offset := (parts.flatMap ClausePart.offsets).getLast?

/-- The clauses with one more part. -/
def Clauses.adding (c : Clauses) : ClausePart → Clauses
  | .distinct => { c with distinct := true }
  | .source tree => { c with source := some tree }
  | .filter condition => { c with filter := conjoin c.filter condition }
  | .groupBy exprs => { c with groupBy := c.groupBy ++ exprs }
  | .having condition => { c with having := conjoin c.having condition }
  | .assignment a => { c with assignments := c.assignments ++ [a] }
  | .returning columns => { c with returning := c.returning ++ columns }
  | .compound op body => { c with compounds := c.compounds ++ [(op, body)] }
  | .orderBy terms => { c with orderBy := c.orderBy ++ terms }
  | .limit count => { c with limit := some count }
  | .offset count => { c with offset := some count }

theorem conjunction_concat (conditions : List Expr) (condition : Expr) :
    conjunction (conditions ++ [condition]) = conjoin (conjunction conditions) condition := by
  rw [conjunction, List.foldl_append]
  rfl

/-- A later call adds its part to what the earlier ones made. -/
theorem Clauses.of_concat (parts : List ClausePart) (p : ClausePart) :
    Clauses.of (parts ++ [p]) = (Clauses.of parts).adding p := by
  cases p <;>
    simp [Clauses.of, Clauses.adding, ClausePart.kind, conjunction_concat]

/-! ### Statements made of clauses -/

namespace Clauses

/-- The core of a `SELECT` with its own clauses. -/
def core (c : Clauses) (distinct : Bool) (columns : List ResultColumn) : SelectCore :=
  ⟨distinct || c.distinct, columns, c.source, c.filter, c.groupBy, c.having⟩

def query (c : Clauses) (withClause : Option WithClause) (body : SelectBody) : Select :=
  ⟨withClause, body, c.compounds, c.orderBy, c.limit, c.offset⟩

def update (c : Clauses) (withClause : Option WithClause) (conflict : Option ConflictAction)
    (table : TableRef) : Update :=
  ⟨withClause, conflict, table, c.assignments, c.source, c.filter, c.returning, c.orderBy, c.limit,
    c.offset⟩

def delete (c : Clauses) (withClause : Option WithClause) (table : TableRef) : Delete :=
  ⟨withClause, table, c.filter, c.returning, c.orderBy, c.limit, c.offset⟩

end Clauses

/-! ### Order -/

/-- What is taken from the parts of one kind does not see two neighbours of different kinds change
places. -/
theorem flatMap_swap {α : Type} {f : ClausePart → List α} {k : ClauseKind}
    (only : ∀ p, f p ≠ [] → p.kind = k) (u v : List ClausePart) {p q : ClausePart}
    (h : p.kind ≠ q.kind) : (u ++ p :: q :: v).flatMap f = (u ++ q :: p :: v).flatMap f := by
  have two : f p ++ f q = f q ++ f p := by
    by_cases hp : f p = []
    · rw [hp, List.nil_append, List.append_nil]
    · have hq : f q = [] := by
        by_contra hq
        exact h ((only p hp).trans (only q hq).symm)
      rw [hq, List.nil_append, List.append_nil]
  simp only [List.flatMap_append, List.flatMap_cons, ← List.append_assoc _ _ (v.flatMap f), two]

theorem kindsOf_concat (parts : List ClausePart) (p : ClausePart) :
    kindsOf (parts ++ [p]) = kindsOf parts ++ [p.kind] :=
  List.map_append

theorem kindsOf_swap (u v : List ClausePart) (p q : ClausePart) (k : ClauseKind) :
    k ∈ kindsOf (u ++ p :: q :: v) ↔ k ∈ kindsOf (u ++ q :: p :: v) :=
  (((List.Perm.swap q p v).append_left u).map ClausePart.kind).mem_iff

/-- Two neighbouring parts of different kinds may change places. -/
theorem Clauses.of_swap (u v : List ClausePart) {p q : ClausePart} (h : p.kind ≠ q.kind) :
    Clauses.of (u ++ p :: q :: v) = Clauses.of (u ++ q :: p :: v) := by
  have swap {α : Type} (f : ClausePart → List α) (k : ClauseKind)
      (only : ∀ p, f p ≠ [] → p.kind = k) := flatMap_swap only u v h
  simp only [Clauses.of, kindsOf_swap u v p q,
    swap ClausePart.sources .source (by rintro ⟨⟩ <;> simp [ClausePart.kind]),
    swap ClausePart.conditions .filter (by rintro ⟨⟩ <;> simp [ClausePart.kind]),
    swap ClausePart.groupings .groupBy (by rintro ⟨⟩ <;> simp [ClausePart.kind]),
    swap ClausePart.groupConditions .having (by rintro ⟨⟩ <;> simp [ClausePart.kind]),
    swap ClausePart.assignments .assignment (by rintro ⟨⟩ <;> simp [ClausePart.kind]),
    swap ClausePart.results .returning (by rintro ⟨⟩ <;> simp [ClausePart.kind]),
    swap ClausePart.compounds .compound (by rintro ⟨⟩ <;> simp [ClausePart.kind]),
    swap ClausePart.terms .orderBy (by rintro ⟨⟩ <;> simp [ClausePart.kind]),
    swap ClausePart.limits .limit (by rintro ⟨⟩ <;> simp [ClausePart.kind]),
    swap ClausePart.offsets .offset (by rintro ⟨⟩ <;> simp [ClausePart.kind])]

/-! ## Runs

After a run the stage says which kinds of clauses were given, and the statement so far is made of the
parts. `Fitting` is what the rules of the stages say about the parts of a run. -/

/-- The parts of a run: of the kinds that the statement takes, one limit and one offset at most. -/
structure Fitting (kinds : List ClauseKind) (parts : List ClausePart) : Prop where
  taken : ∀ p ∈ parts, p.kind ∈ kinds
  limit : (kindsOf parts).count .limit ≤ 1
  offset : (kindsOf parts).count .offset ≤ 1

theorem Fitting.nil (kinds : List ClauseKind) : Fitting kinds [] :=
  ⟨fun _ hp => absurd hp List.not_mem_nil, Nat.zero_le _, Nat.zero_le _⟩

theorem count_concat_le_one {k l : ClauseKind} {kinds : List ClauseKind} (h : kinds.count k ≤ 1)
    (once : l = k → k ∉ kinds) : (kinds ++ [l]).count k ≤ 1 := by
  rw [List.count_append, List.count_singleton]
  by_cases hl : l = k
  · rw [List.count_eq_zero.mpr (once hl)]
    split <;> omega
  · simpa [hl] using h

theorem Fitting.concat {kinds : List ClauseKind} {parts : List ClausePart} {p : ClausePart}
    (h : Fitting kinds parts) (hp : p.kind ∈ kinds)
    (once : p.kind = .limit ∨ p.kind = .offset → p.kind ∉ kindsOf parts) :
    Fitting kinds (parts ++ [p]) where
  taken := by simpa [or_imp, forall_and] using ⟨h.taken, hp⟩
  limit := by
    rw [kindsOf_concat]
    exact count_concat_le_one h.limit fun hk => hk ▸ once (.inl hk)
  offset := by
    rw [kindsOf_concat]
    exact count_concat_le_one h.offset fun hk => hk ▸ once (.inr hk)

/-! ### Queries -/

/-- The stage of a query that began in a stage, after calls that gave parts of some kinds. -/
def SelectStage.afterAll (first : SelectStage) (kinds : List ClauseKind) : SelectStage :=
  if .offset ∈ kinds then .closed
  else if .limit ∈ kinds then .limited
  else if .orderBy ∈ kinds then .ordered
  else if .compound ∈ kinds then .compound
  else first

theorem SelectStage.afterAll_concat {first next : SelectStage} {kinds : List ClauseKind}
    {call : SelectCall} (hfirst : first.isOpen = true)
    (h : (first.afterAll kinds).after? call.clause = some next) :
    next = first.afterAll (kinds ++ [call.part.kind]) ∧
    (call.clause.isOwn = true → first = .core) ∧
    (call.part.kind = .limit ∨ call.part.kind = .offset → call.part.kind ∉ kinds) := by
  cases first <;> first | exact Bool.noConfusion hfirst | skip
  all_goals
    cases call <;>
    simp only [SelectStage.afterAll, SelectCall.part, SelectCall.clause, ClausePart.kind,
      List.mem_append, List.mem_singleton, reduceCtorEq, or_false, or_true, if_true] at h ⊢ <;>
    split_ifs at h ⊢ <;> simp_all [SelectStage.after?, SelectClause.isOwn]

theorem Clauses.edit_core {c : Clauses} {w : Option WithClause} {distinct : Bool}
    {columns : List ResultColumn} {call : SelectCall} {q : Select}
    (h : SelectDraft.edit (c.query w (.core (c.core distinct columns))) call = .ok q) :
    q = (c.adding call.part).query w (.core ((c.adding call.part).core distinct columns)) := by
  cases call with
  | combine op operand =>
    rw [SelectDraft.edit] at h
    split at h <;> cases h
    rfl
  | distinct =>
    cases h
    simp [Select.editCore, Clauses.query, Clauses.core, Clauses.adding, SelectCall.part]
  | _ =>
    cases h
    rfl

theorem Clauses.edit_values {c : Clauses} {w : Option WithClause} {rows : List (List Expr)}
    {call : SelectCall} {q : Select} (own : call.clause.isOwn = false)
    (h : SelectDraft.edit (c.query w (.values rows)) call = .ok q) :
    q = (c.adding call.part).query w (.values rows) := by
  cases call with
  | combine op operand =>
    rw [SelectDraft.edit] at h
    split at h <;> cases h
    rfl
  | orderBy | thenBy | limit | offset =>
    cases h
    rfl
  | _ => exact Bool.noConfusion own

/-! ### Updates -/

def UpdateStage.afterAll (kinds : List ClauseKind) : UpdateStage :=
  if .offset ∈ kinds then .closed
  else if .limit ∈ kinds then .limited
  else if .orderBy ∈ kinds then .ordered
  else if .assignment ∈ kinds then .hasSet
  else .noSet

theorem UpdateStage.afterAll_concat {next : UpdateStage} {kinds : List ClauseKind}
    {call : UpdateCall} (h : (UpdateStage.afterAll kinds).after? call.clause = some next) :
    next = .afterAll (kinds ++ [call.part.kind]) ∧
      (call.part.kind = .limit ∨ call.part.kind = .offset → call.part.kind ∉ kinds) := by
  cases call <;>
    simp only [UpdateStage.afterAll, UpdateCall.part, UpdateCall.clause, ClausePart.kind,
      List.mem_append, List.mem_singleton, reduceCtorEq, or_false, or_true, if_true] at h ⊢ <;>
    split_ifs at h ⊢ <;> simp_all [UpdateStage.after?]

theorem Clauses.edit_update {c : Clauses} {w : Option WithClause} {conflict : Option ConflictAction}
    {table : TableRef} {call : UpdateCall} {u : Update}
    (h : UpdateDraft.edit (c.update w conflict table) call = .ok u) :
    u = (c.adding call.part).update w conflict table := by
  cases call with
  | assignRow columns value =>
    obtain ⟨a, ha, hu⟩ := bind_eq_ok.mp h
    obtain ⟨rfl, -⟩ := Assignment.columns_of_toColumns (orRefuse_eq_ok.mp ha)
    cases pure_eq_ok.mp hu
    rfl
  | _ =>
    cases h
    rfl

/-! ### Deletions -/

def DeleteStage.afterAll (kinds : List ClauseKind) : DeleteStage :=
  if .offset ∈ kinds then .closed
  else if .limit ∈ kinds then .limited
  else if .orderBy ∈ kinds then .ordered
  else .filtering

theorem DeleteStage.afterAll_concat {next : DeleteStage} {kinds : List ClauseKind}
    {call : DeleteCall} (h : (DeleteStage.afterAll kinds).after? call.clause = some next) :
    next = .afterAll (kinds ++ [call.part.kind]) ∧
      (call.part.kind = .limit ∨ call.part.kind = .offset → call.part.kind ∉ kinds) := by
  cases call <;>
    simp only [DeleteStage.afterAll, DeleteCall.part, DeleteCall.clause, ClausePart.kind,
      List.mem_append, List.mem_singleton, reduceCtorEq, or_false, or_true, if_true] at h ⊢ <;>
    split_ifs at h ⊢ <;> simp_all [DeleteStage.after?]

theorem Clauses.edit_delete (c : Clauses) (w : Option WithClause) (table : TableRef)
    (call : DeleteCall) :
    DeleteDraft.edit (c.delete w table) call = (c.adding call.part).delete w table := by
  cases call <;> rfl

/-! ## Statements -/

namespace Opening

/-- The kinds of parts that a statement takes. -/
def takes : Opening → List ClauseKind
  | .select .. =>
    [.distinct, .source, .filter, .groupBy, .having, .compound, .orderBy, .limit, .offset]
  | .values _ => [.compound, .orderBy, .limit, .offset]
  | .insert .. => []
  | .update .. => [.assignment, .source, .filter, .returning, .orderBy, .limit, .offset]
  | .delete _ => [.filter, .returning, .orderBy, .limit, .offset]

/-- The query, update or deletion that begins in a way and has some clauses. -/
def collected (w : Option WithClause) (c : Clauses) : Opening → Option Statement
  | .select distinct columns => some (.select (c.query w (.core (c.core distinct columns))))
  | .values rows => some (.select (c.query w (.values rows)))
  | .insert .. => none
  | .update conflict table => some (.update (c.update w conflict table))
  | .delete table => some (.delete (c.delete w table))

/-- The draft of a query, update or deletion after calls that gave some parts. -/
def assembled (w : Option WithClause) (parts : List ClausePart) : Opening → Option Draft
  | .select distinct columns =>
    some (.select ⟨SelectStage.core.afterAll (kindsOf parts),
      (Clauses.of parts).query w (.core ((Clauses.of parts).core distinct columns))⟩)
  | .values rows =>
    some (.select ⟨SelectStage.values.afterAll (kindsOf parts),
      (Clauses.of parts).query w (.values rows)⟩)
  | .insert .. => none
  | .update conflict table =>
    some (.update ⟨.afterAll (kindsOf parts), (Clauses.of parts).update w conflict table⟩)
  | .delete table =>
    some (.delete ⟨.afterAll (kindsOf parts), (Clauses.of parts).delete w table⟩)

variable {w : Option WithClause} {first : Opening} {parts : List ClausePart} {d e : Draft}

theorem assembled_nil (hfirst : ∀ verb table, first ≠ .insert verb table)
    (h : first.draft w = .ok d) : first.assembled w [] = some d := by
  cases first with
  | select distinct columns =>
    cases h
    simp [assembled, SelectDraft.select, SelectStage.afterAll, Clauses.of, Clauses.query,
      Clauses.core, Select.ofBody, SelectCore.ofColumns, conjunction]
  | values rows =>
    obtain ⟨start, hstart, hd⟩ := bind_eq_ok.mp h
    obtain ⟨⟨⟩, -, hs⟩ := bind_eq_ok.mp hstart
    cases pure_eq_ok.mp hd
    cases pure_eq_ok.mp hs
    rfl
  | insert verb table => exact absurd rfl (hfirst verb table)
  | update conflict table =>
    cases h
    rfl
  | delete table =>
    cases h
    rfl

/-- The draft after one more call is made of the parts with the one that the call gives. -/
theorem assembled_concat {call : Call} (h : first.assembled w parts = some d)
    (hparts : Fitting first.takes parts) (happ : d.apply call = .ok e) :
    ∃ p, call.part? = some p ∧ first.assembled w (parts ++ [p]) = some e ∧
      Fitting first.takes (parts ++ [p]) := by
  cases first with
  | select distinct columns =>
    cases h
    cases Draft.step_of_apply happ with
    | @select _ next c hc =>
      obtain ⟨stage, q⟩ := next
      obtain ⟨hstage, hedit⟩ := SelectDraft.apply_eq_ok.mp hc
      obtain ⟨hnext, -, once⟩ := SelectStage.afterAll_concat rfl hstage
      have hq := Clauses.edit_core hedit
      refine ⟨c.part, rfl, ?_, hparts.concat ?_ once⟩
      · simp only at hnext hq
        rw [assembled, kindsOf_concat, Clauses.of_concat, hnext, hq]
      · cases c <;> simp [takes, SelectCall.part, ClausePart.kind]
  | values rows =>
    cases h
    cases Draft.step_of_apply happ with
    | @select _ next c hc =>
      obtain ⟨stage, q⟩ := next
      obtain ⟨hstage, hedit⟩ := SelectDraft.apply_eq_ok.mp hc
      obtain ⟨hnext, own, once⟩ := SelectStage.afterAll_concat rfl hstage
      have other : c.clause.isOwn = false := by
        cases hown : c.clause.isOwn with
        | false => rfl
        | true => exact SelectStage.noConfusion (own hown)
      have hq := Clauses.edit_values other hedit
      refine ⟨c.part, rfl, ?_, hparts.concat ?_ once⟩
      · simp only at hnext hq
        rw [assembled, kindsOf_concat, Clauses.of_concat, hnext, hq]
      · cases c <;> first
          | exact Bool.noConfusion other
          | simp [takes, SelectCall.part, ClausePart.kind]
  | insert verb table => cases h
  | update conflict table =>
    cases h
    cases Draft.step_of_apply happ with
    | @update _ next c hc =>
      obtain ⟨stage, u⟩ := next
      obtain ⟨hstage, hedit⟩ := UpdateDraft.apply_eq_ok.mp hc
      obtain ⟨hnext, once⟩ := UpdateStage.afterAll_concat hstage
      have hu := Clauses.edit_update hedit
      refine ⟨c.part, rfl, ?_, hparts.concat ?_ once⟩
      · simp only at hnext hu
        rw [assembled, kindsOf_concat, Clauses.of_concat, hnext, hu]
      · cases c <;> simp [takes, UpdateCall.part, ClausePart.kind]
  | delete table =>
    cases h
    cases Draft.step_of_apply happ with
    | @delete _ next c hc =>
      obtain ⟨stage, x⟩ := next
      obtain ⟨hstage, hedit⟩ := DeleteDraft.apply_eq_ok.mp hc
      obtain ⟨hnext, once⟩ := DeleteStage.afterAll_concat hstage
      refine ⟨c.part, rfl, ?_, hparts.concat ?_ once⟩
      · simp only [Clauses.edit_delete] at hnext hedit
        rw [assembled, kindsOf_concat, Clauses.of_concat, hnext, hedit]
      · cases c <;> simp [takes, DeleteCall.part, ClausePart.kind]

/-- What is true of a draft after some calls: it is made of what they gave. -/
structure Run (w : Option WithClause) (first : Opening) (calls : List Call) (d : Draft) : Prop where
  made : first.assembled w (calls.filterMap Call.part?) = some d
  fitting : Fitting first.takes (calls.filterMap Call.part?)
  gives : ∀ call ∈ calls, ∃ p, call.part? = some p ∧ p.kind ∈ first.takes

theorem Run.concat {calls : List Call} {call : Call} (h : first.Run w calls d)
    (happ : d.apply call = .ok e) : first.Run w (calls ++ [call]) e := by
  obtain ⟨p, hp, he, hall⟩ := assembled_concat h.made h.fitting happ
  have hparts : (calls ++ [call]).filterMap Call.part? = calls.filterMap Call.part? ++ [p] := by
    rw [List.filterMap_append, List.filterMap_cons_some hp, List.filterMap_nil]
  rw [← hparts] at he hall
  refine ⟨he, hall, List.forall_mem_append.mpr ⟨h.gives, List.forall_mem_singleton.mpr ⟨p, hp, ?_⟩⟩⟩
  exact hall.taken p (by simp [hparts])

/-- Nothing else happens in a run of accepted calls, however long. -/
theorem Run.of_runCalls {start : Draft} {calls : List Call}
    (hfirst : ∀ verb table, first ≠ .insert verb table) (hstart : first.draft w = .ok start)
    (hrun : runCalls Draft.apply start calls = .ok d) : first.Run w calls d :=
  runCalls_induction ⟨assembled_nil hfirst hstart, .nil _, fun _ h => absurd h List.not_mem_nil⟩
    (fun _ _ _ _ h happ => h.concat happ) hrun

theorem collected_of_finish {s : Statement} (h : first.assembled w parts = some d)
    (hfinish : d.finish = .ok s) : first.collected w (Clauses.of parts) = some s := by
  cases first with
  | select | values =>
    cases h
    cases hfinish
    rfl
  | insert verb table => cases h
  | update conflict table =>
    cases h
    cases Draft.finishes_of_finish hfinish with
    | update hu =>
      obtain ⟨-, -, rfl⟩ := UpdateDraft.finish_eq_ok hu
      rfl
  | delete table =>
    cases h
    cases Draft.finishes_of_finish hfinish with
    | delete hx =>
      obtain ⟨-, rfl⟩ := DeleteDraft.finish_eq_ok hx
      rfl

theorem collected_of_build {s : Statement} (h : first.assembled w parts = some d)
    (hbuild : d.build = .ok s) : first.collected w (Clauses.of parts) = some s := by
  obtain ⟨t, hfinish, ht⟩ := bind_eq_ok.mp hbuild
  split at ht
  · cases ht
  obtain rfl := pure_eq_ok.mp ht
  exact collected_of_finish h hfinish

theorem assembled_swap (u v : List ClausePart) {p q : ClausePart} (h : p.kind ≠ q.kind) :
    first.assembled w (u ++ p :: q :: v) = first.assembled w (u ++ q :: p :: v) := by
  cases first <;>
    simp only [assembled, SelectStage.afterAll, UpdateStage.afterAll, DeleteStage.afterAll,
      kindsOf_swap u v p q, Clauses.of_swap u v h]

end Opening

/-! ### Reordered calls -/

/-- Two neighbouring calls that give to different clauses change places. -/
inductive ClauseSwap : List Call → List Call → Prop
  | swap (u v : List Call) {a b : Call} {p q : ClausePart} (ha : a.part? = some p)
      (hb : b.part? = some q) (h : p.kind ≠ q.kind) :
      ClauseSwap (u ++ a :: b :: v) (u ++ b :: a :: v)

theorem Opening.assembled_of_swaps {w : Option WithClause} {first : Opening}
    {calls calls' : List Call} (h : Relation.ReflTransGen ClauseSwap calls calls') :
    first.assembled w (calls.filterMap Call.part?) =
      first.assembled w (calls'.filterMap Call.part?) := by
  induction h with
  | refl => rfl
  | tail _ hswap ih =>
    obtain ⟨u, v, ha, hb, hne⟩ := hswap
    rw [ih]
    simp only [List.filterMap_append, List.filterMap_cons_some ha, List.filterMap_cons_some hb]
    exact assembled_swap _ _ hne

/-- A query, an update or a deletion is built from exactly what was given, clause by clause: from its
beginning and from the part of each call, in call order within a clause. Every call gives a part to a
clause that the statement has, a limit and an offset are given at most once, and calls that give to
different clauses may change places: an accepted reordering builds the same statement. -/
theorem Opening.build_collects {w : Option WithClause} {first : Opening} {start d : Draft}
    {calls : List Call} {s : Statement} (hfirst : ∀ verb table, first ≠ .insert verb table)
    (hstart : first.draft w = .ok start) (hrun : runCalls Draft.apply start calls = .ok d)
    (hbuild : d.build = .ok s) :
    first.collected w (Clauses.of (calls.filterMap Call.part?)) = some s ∧
    (∀ call ∈ calls, ∃ p, call.part? = some p ∧ p.kind ∈ first.takes) ∧
    ((kindsOf (calls.filterMap Call.part?)).count .limit ≤ 1 ∧
      (kindsOf (calls.filterMap Call.part?)).count .offset ≤ 1) ∧
    ∀ calls' d', Relation.ReflTransGen ClauseSwap calls calls' →
      runCalls Draft.apply start calls' = .ok d' → d'.build = .ok s := by
  have run := Run.of_runCalls hfirst hstart hrun
  refine ⟨collected_of_build run.made hbuild, run.gives,
    ⟨run.fitting.limit, run.fitting.offset⟩, ?_⟩
  intro calls' d' hswaps hrun'
  have run' := Run.of_runCalls hfirst hstart hrun'
  have same : some d = some d' := by rw [← run.made, ← run'.made, assembled_of_swaps hswaps]
  cases same
  exact hbuild

namespace Sample

/-- The calls after the first assignment and the table, before a bound. -/
def bounding : List Call :=
  [.update (.orderBy [.ofExpr (.named "c")]), .update (.limit (.named "m")),
    .update (.offset (.named "k"))]

/-- Calls on an update that give to each of its clauses. -/
def changes : List Call :=
  [.update (.assign "n" (.named "x")), .update (.filter (.named "p")),
    .update (.assignRow ["a", "b"] (.named "y")),
    .update (.source (.table (.ofName (.unqualified "u")))),
    .update (.filter (.named "q")), .update (.returning [.star])] ++ bounding

/-- The same calls with a condition after the second assignment, and the other one at the end. -/
def reordered : List Call :=
  [.update (.assign "n" (.named "x")), .update (.assignRow ["a", "b"] (.named "y")),
    .update (.filter (.named "p")), .update (.source (.table (.ofName (.unqualified "u")))),
    .update (.returning [.star]), .update (.filter (.named "q"))] ++ bounding

/-- The update that both make. -/
def changed : Update :=
  ⟨none, none, .ofName (.unqualified "t"), [⟨["n"], .named "x"⟩, ⟨["a", "b"], .named "y"⟩],
    some (.table (.ofName (.unqualified "u"))), some (.binary .and (.named "p") (.named "q")), [.star],
    [.ofExpr (.named "c")], some (.named "m"), some (.named "k")⟩

theorem changed_builds : (Draft.update ⟨.closed, changed⟩).build = .ok (.update changed) := by
  have plain : (Statement.update changed).containsRaise = false := by
    simp [changed, Statement.containsRaise, Statement.nested, Update.nested, nestedInWith,
      nestedInAssignments, nestedInSource, nestedInOption, nestedInColumns, nestedInTerms,
      FromTree.nested, Expr.nested, Expr.named, Expr.isRaise, OrderingTerm.ofExpr]
  have finished : (Draft.update ⟨.closed, changed⟩).finish = .ok (.update changed) := rfl
  rw [Draft.build, finished]
  exact bind_eq_ok.mpr ⟨_, rfl, by rw [plain]; rfl⟩

theorem swaps_changes : Relation.ReflTransGen ClauseSwap changes reordered :=
  .tail (.single (.swap [.update (.assign "n" (.named "x"))] _ rfl rfl (by decide)))
    (.swap [.update (.assign "n" (.named "x")), .update (.assignRow ["a", "b"] (.named "y")),
      .update (.filter (.named "p")), .update (.source (.table (.ofName (.unqualified "u"))))] _ rfl
      rfl (by decide))

end Sample

open Sample in
/-- An update that gives to each clause, with its calls in two orders. -/
theorem Opening.build_collects_changes :
    let opening : Opening := .update none (.ofName (.unqualified "t"))
    let start : Draft := .update (.start none none (.ofName (.unqualified "t")))
    ∃ d d', opening.draft none = .ok start ∧ runCalls Draft.apply start changes = .ok d ∧
      d.build = .ok (.update changed) ∧
      opening.collected none (Clauses.of (changes.filterMap Call.part?)) = some (.update changed) ∧
      runCalls Draft.apply start reordered = .ok d' ∧ d'.build = .ok (.update changed) := by
  intro opening start
  have run : runCalls Draft.apply start changes = .ok (.update ⟨.closed, changed⟩) := rfl
  obtain ⟨d', run'⟩ : ∃ d', runCalls Draft.apply start reordered = .ok d' := ⟨_, rfl⟩
  have other : ∀ verb table, opening ≠ .insert verb table := fun _ _ => Opening.noConfusion
  have opened : opening.draft none = .ok start := rfl
  obtain ⟨collected, -, -, reorders⟩ := build_collects other opened run changed_builds
  exact ⟨_, d', opened, run, changed_builds, collected, run',
    reorders reordered d' swaps_changes run'⟩

end SqliteSyntax
