import SqliteSyntax.Proofs.Rules.Finished
import SqliteSyntax.Proofs.Rules.Regular

/-! # What drafts hold

`Draft.Holds` says that what was handed to a draft is sound at every depth. A call keeps it when what
it takes is sound (`Draft.Holds.apply`), and a regular draft that holds only sound parts ends in a
statement that is sound at every depth (`Draft.sound_of_finish`). -/
namespace SqliteSyntax
set_option autoImplicit false

/-! ## What drafts hold -/

/-- What the record of an insertion holds beside its common tables. -/
def InsertRecord.parts (r : InsertRecord) : List Node :=
  r.query.toList.map .query ++ rowParts r.rows ++ r.upserts.flatMap Upsert.parts ++
    columnParts r.returning

/-- What an insertion holds beside its common tables. -/
def InsertDraft.parts : InsertDraft → List Node
  | .insert _ r => r.parts
  | .conflict r target => r.parts ++ target.toList.flatMap UpsertTarget.parts
  | .updating r target assignments filter =>
    r.parts ++ target.toList.flatMap UpsertTarget.parts ++
      assignmentParts assignments ++ optionParts filter

/-- Common tables are listed, and their queries are sound. -/
def WithSound (w : Option WithClause) : Prop := WithListed w ∧ AllSound (withParts w)

def ConstraintSound (c : TableConstraint) : Prop := c.rule.Sound ∧ AllSound c.rule.parts

structure TableDraft.Holds (d : TableDraft) : Prop where
  columns : AllSound (d.columns.flatMap ColumnDef.parts)
  constraints : ∀ c ∈ d.constraints, ConstraintSound c
  query : AllSound (d.query.toList.map .query)

/-- What was handed to the draft is sound. -/
def Draft.Holds : Draft → Prop
  | .select d => WithListed d.query.withClause ∧ AllSound d.query.parts
  | .insert d => WithSound d.record.withClause ∧ AllSound d.parts
  | .update d => WithListed d.update.withClause ∧ AllSound d.update.parts
  | .delete d => WithListed d.delete.withClause ∧ AllSound d.delete.parts
  | .table d => d.Holds
  | .index i => AllSound (indexedParts i.columns) ∧ AllSound (optionParts i.filter)
  | .view d => AllSound (d.query.toList.map .query)
  | .trigger d => AllSound (optionParts d.condition) ∧ AllSound (d.steps.map .statement)
  | .alter d => AllSound (d.change.toList.flatMap TableChange.parts)
  | .vacuum d => AllSound (optionParts d.file)
  | .finished s => (Node.statement s).SoundThroughout
  | .virtualTable _ | .drop _ => True

def Item.Sound : Item → Prop
  | .node n => n.SoundThroughout
  | .withClause w => WithSound (some w)
  | .constraint c => ConstraintSound c
  | .draft d => d.Holds

/-! ## Ends -/

/-- The source is chosen from what the record holds. -/
theorem InsertRecord.allSound_source {r : InsertRecord} (h : AllSound r.parts) :
    AllSound r.source.parts := by
  simp only [parts, AllSound.append_iff] at h
  obtain ⟨⟨⟨query, rows⟩, -⟩, -⟩ := h
  cases given : r.query with
  | some q =>
    rw [given] at query
    simpa [source, given, InsertSource.parts] using query
  | none =>
    rw [source, given]
    show AllSound (InsertSource.parts (if r.rows.isEmpty then _ else _))
    split
    · exact .nil
    · exact rows

theorem InsertDraft.sound_of_finish {d : InsertDraft} {i : Insert} (h : d.Regular)
    (hw : WithSound d.record.withClause) (hp : AllSound d.parts) (hi : d.finish = .ok i) :
    (Node.statement (.insert i)).SoundThroughout := by
  obtain ⟨fits, ordered⟩ := h
  have inner {state : InsertState} {r : InsertRecord} (sound : r.insert.Sound)
      (hw : WithSound r.withClause) (hp : AllSound (InsertDraft.insert state r).parts) :
      (Node.statement (.insert r.insert)).SoundThroughout := by
    have source := InsertRecord.allSound_source hp
    simp only [parts, InsertRecord.parts, AllSound.append_iff] at hp
    refine Node.soundThroughout_iff.mpr ⟨sound, ?_⟩
    exact AllSound.append_iff.mpr ⟨AllSound.append_iff.mpr
      ⟨AllSound.append_iff.mpr ⟨hw.2, source⟩, hp.1.2⟩, hp.2⟩
  cases finishes_of_finish fits hi with
  | defaults source unnamed upserts | fromSelect given source upserts =>
    refine inner ⟨hw.1, ?_, by simp [InsertRecord.insert, upserts],
      by simp [OnlyLastTargetless, InsertRecord.insert, upserts]⟩ hw hp
    rw [InsertRecord.insert, source]
    trivial
  | rows source =>
    obtain ⟨regular, targets⟩ := ordered
    refine inner ⟨hw.1, ?_, regular.upserts, targets⟩ hw hp
    rw [InsertRecord.insert, source]
    exact ⟨regular.even, regular.fit⟩

theorem TableDraft.soundThroughout_of_finish {d : TableDraft} {t : CreateTable} (hd : d.Holds)
    (ht : d.finish = .ok t) : (Node.statement (.createTable t)).SoundThroughout := by
  have hsound := sound_of_finish ht fun c hc => (hd.constraints c hc).1
  refine Node.soundThroughout_iff.mpr ⟨hsound, ?_⟩
  cases finishes_of_finish ht with
  | definitions =>
    refine AllSound.append_iff.mpr ⟨hd.columns, fun m hm => ?_⟩
    obtain ⟨c, hc, hm⟩ := List.mem_flatMap.mp hm
    exact (hd.constraints c hc).2 m hm
  | fromSelect => exact hd.query

namespace Draft

/-- A regular draft that holds only sound parts ends in a statement that is sound at every depth. -/
theorem sound_of_finish {d : Draft} {s : Statement} (h : d.Regular) (hd : d.Holds)
    (hs : d.finish = .ok s) : (Node.statement s).SoundThroughout := by
  cases finishes_of_finish hs with
  | select d =>
    have query : (Node.query d.query).SoundThroughout :=
      Node.soundThroughout_iff.mpr ⟨⟨hd.1, (SelectDraft.Regular.bounds h).offsetLimited⟩, hd.2⟩
    exact Node.soundThroughout_iff.mpr ⟨trivial, by simpa [Node.parts, Statement.parts] using query⟩
  | insert hi => exact InsertDraft.sound_of_finish h hd.1 hd.2 hi
  | update hu =>
    obtain ⟨set, order, offset⟩ := UpdateDraft.Regular.finish h hu
    obtain ⟨-, -, rfl⟩ := UpdateDraft.finish_eq_ok hu
    exact Node.soundThroughout_iff.mpr ⟨⟨hd.1, set, order, offset⟩, hd.2⟩
  | delete hx =>
    obtain ⟨order, offset⟩ := DeleteDraft.Regular.finish h hx
    obtain ⟨-, rfl⟩ := DeleteDraft.finish_eq_ok hx
    exact Node.soundThroughout_iff.mpr ⟨⟨hd.1, order, offset⟩, hd.2⟩
  | table ht => exact TableDraft.soundThroughout_of_finish hd ht
  | index hi =>
    obtain ⟨ne, rfl⟩ := CreateIndex.finish_eq_ok.mp hi
    exact Node.soundThroughout_iff.mpr ⟨ne, AllSound.append_iff.mpr hd⟩
  | view hv =>
    have query := ViewDraft.finish_eq_ok hv
    refine Node.soundThroughout_iff.mpr ⟨trivial, ?_⟩
    simpa [Node.parts, Statement.parts, Holds, query] using hd
  | trigger header ne =>
    exact Node.soundThroughout_iff.mpr
      ⟨⟨ne, fun s hs => (h s hs).1⟩, AllSound.append_iff.mpr hd⟩
  | alter table change =>
    refine Node.soundThroughout_iff.mpr ⟨h change rfl, ?_⟩
    simpa [Node.parts, Statement.parts, Holds] using hd
  | vacuum d => exact Node.soundThroughout_iff.mpr ⟨trivial, hd⟩
  | virtualTable | drop => exact Node.soundThroughout_iff.mpr ⟨trivial, .nil⟩
  | finished => exact hd

end Draft

/-! ## Clauses -/

/-- What stands in the clauses of a body is sound. -/
@[mk_iff] structure SelectCore.ClausesSound (c : SelectCore) : Prop where
  columns : AllSound (columnParts c.columns)
  source : AllSound (c.source.toList.map .tree)
  filter : AllSound (optionParts c.filter)
  groupBy : AllSound (c.groupBy.map .expr)
  having : AllSound (optionParts c.having)

/-- What stands in the clauses of a query is sound, its bodies included. -/
@[mk_iff] structure Select.ClausesSound (q : Select) : Prop where
  tables : AllSound (withParts q.withClause)
  bodies : AllSound (q.bodies.map .body)
  orderBy : AllSound (termParts q.orderBy)
  limit : AllSound (optionParts q.limit)
  offset : AllSound (optionParts q.offset)

/-- What stands in the clauses of an update is sound. -/
@[mk_iff] structure Update.ClausesSound (u : Update) : Prop where
  tables : AllSound (withParts u.withClause)
  assignments : AllSound (assignmentParts u.assignments)
  source : AllSound (u.source.toList.map .tree)
  filter : AllSound (optionParts u.filter)
  returning : AllSound (columnParts u.returning)
  orderBy : AllSound (termParts u.orderBy)
  limit : AllSound (optionParts u.limit)
  offset : AllSound (optionParts u.offset)

/-- What stands in the clauses of a deletion is sound. -/
@[mk_iff] structure Delete.ClausesSound (d : Delete) : Prop where
  tables : AllSound (withParts d.withClause)
  filter : AllSound (optionParts d.filter)
  returning : AllSound (columnParts d.returning)
  orderBy : AllSound (termParts d.orderBy)
  limit : AllSound (optionParts d.limit)
  offset : AllSound (optionParts d.offset)

theorem SelectCore.allSound_parts {c : SelectCore} :
    AllSound (SelectBody.core c).parts ↔ c.ClausesSound := by
  simp only [clausesSound_iff, SelectBody.parts, AllSound.append_iff, and_assoc]

theorem Select.allSound_parts {q : Select} : AllSound q.parts ↔ q.ClausesSound := by
  simp only [clausesSound_iff, Select.parts, AllSound.append_iff, and_assoc]

theorem Update.allSound_parts {u : Update} : AllSound u.parts ↔ u.ClausesSound := by
  simp only [clausesSound_iff, Update.parts, AllSound.append_iff, and_assoc]

theorem Delete.allSound_parts {d : Delete} : AllSound d.parts ↔ d.ClausesSound := by
  simp only [clausesSound_iff, Delete.parts, AllSound.append_iff, and_assoc]

/-- A change of the first body is sound if it keeps sound clauses sound. -/
theorem Select.ClausesSound.editCore {q : Select} {f : SelectCore → SelectCore}
    (h : q.ClausesSound) (hf : ∀ c : SelectCore, c.ClausesSound → (f c).ClausesSound) :
    (q.editCore f).ClausesSound := by
  obtain ⟨w, body, compounds, orderBy, limit, offset⟩ := q
  cases body with
  | values rows => exact h
  | core c =>
    obtain ⟨first, others⟩ := AllSound.cons_iff.mp h.bodies
    have core := SelectCore.allSound_parts.mp (Node.soundThroughout_iff.mp first).2
    have changed : (Node.body (.core (f c))).SoundThroughout :=
      Node.soundThroughout_iff.mpr ⟨trivial, SelectCore.allSound_parts.mpr (hf c core)⟩
    exact { h with bodies := AllSound.cons_iff.mpr ⟨changed, others⟩ }

theorem Select.editCore_withClause (q : Select) (f : SelectCore → SelectCore) :
    (q.editCore f).withClause = q.withClause := by
  unfold editCore
  split <;> rfl

namespace AllSound

theorem of_option {e : Expr} (h : (Node.expr e).SoundThroughout) :
    AllSound (optionParts (some e)) := by
  simpa [optionParts] using h

theorem columns_append {a b : List ResultColumn} (ha : AllSound (columnParts a))
    (hb : AllSound (columnParts b)) : AllSound (columnParts (a ++ b)) := by
  rw [columnParts_append]
  exact append_iff.mpr ⟨ha, hb⟩

theorem terms_append {a b : List OrderingTerm} (ha : AllSound (termParts a))
    (hb : AllSound (termParts b)) : AllSound (termParts (a ++ b)) := by
  rw [termParts_append]
  exact append_iff.mpr ⟨ha, hb⟩

theorem assignments_concat {assignments : List Assignment} {a : Assignment}
    (h : AllSound (assignmentParts assignments)) (ha : (Node.expr a.value).SoundThroughout) :
    AllSound (assignmentParts (assignments ++ [a])) := by
  rw [assignmentParts_append]
  exact append_iff.mpr ⟨h, cons_iff.mpr ⟨ha, .nil⟩⟩

end AllSound

/-! ## Calls -/

theorem allSound_of_items {nodes : List Node} (h : ∀ i ∈ nodeItems nodes, i.Sound) :
    AllSound nodes :=
  fun n hn => h (.node n) (List.mem_map_of_mem hn)

theorem expr_of_items {e : Expr} (h : ∀ i ∈ nodeItems [.expr e], i.Sound) :
    (Node.expr e).SoundThroughout :=
  (AllSound.cons_iff.mp (allSound_of_items h)).1

namespace Draft.Holds

theorem applySelect {d e : SelectDraft} {call : SelectCall} (h : (Draft.select d).Holds)
    (items : ∀ i ∈ call.items, i.Sound) (happ : d.apply call = .ok e) :
    (Draft.select e).Holds := by
  obtain ⟨-, hedit⟩ := SelectDraft.apply_eq_ok.mp happ
  obtain ⟨stage, query⟩ := e
  obtain ⟨listed, parts⟩ := h
  have clauses := Select.allSound_parts.mp parts
  have edited {f : SelectCore → SelectCore}
      (hf : ∀ c : SelectCore, c.ClausesSound → (f c).ClausesSound) :
      (Draft.select ⟨stage, d.query.editCore f⟩).Holds := by
    refine ⟨?_, Select.allSound_parts.mpr (clauses.editCore hf)⟩
    rw [Select.editCore_withClause]
    exact listed
  cases call with
  | distinct =>
    cases hedit
    exact edited fun c hc => { hc with }
  | source tree =>
    cases hedit
    exact edited fun c hc => { hc with source := allSound_of_items items }
  | filter condition =>
    cases hedit
    exact edited fun c hc => { hc with filter := hc.filter.conjoin (expr_of_items items) }
  | groupBy exprs =>
    cases hedit
    refine edited fun c hc => { hc with groupBy := ?_ }
    rw [List.map_append]
    exact AllSound.append_iff.mpr ⟨hc.groupBy, allSound_of_items items⟩
  | having condition =>
    cases hedit
    exact edited fun c hc => { hc with having := hc.having.conjoin (expr_of_items items) }
  | combine op operand =>
    rw [SelectDraft.edit] at hedit
    split at hedit
    · cases hedit
      have operand := Select.allSound_parts.mp (items (.draft (.select operand)) (.head _)).2
      have body := (AllSound.cons_iff.mp operand.bodies).1
      refine ⟨listed, Select.allSound_parts.mpr { clauses with bodies := ?_ }⟩
      rw [Select.bodies, List.map_append, ← List.cons_append, List.map_append]
      exact AllSound.append_iff.mpr ⟨clauses.bodies, AllSound.cons_iff.mpr ⟨body, .nil⟩⟩
    · cases hedit
  | orderBy more | thenBy more =>
    cases hedit
    exact ⟨listed, Select.allSound_parts.mpr
      { clauses with orderBy := clauses.orderBy.terms_append (allSound_of_items items) }⟩
  | limit count =>
    cases hedit
    exact ⟨listed, Select.allSound_parts.mpr
      { clauses with limit := .of_option (expr_of_items items) }⟩
  | offset count =>
    cases hedit
    exact ⟨listed, Select.allSound_parts.mpr
      { clauses with offset := .of_option (expr_of_items items) }⟩

theorem applyUpdate {d e : UpdateDraft} {call : UpdateCall} (h : (Draft.update d).Holds)
    (items : ∀ i ∈ call.items, i.Sound) (happ : d.apply call = .ok e) :
    (Draft.update e).Holds := by
  obtain ⟨-, hedit⟩ := UpdateDraft.apply_eq_ok.mp happ
  obtain ⟨stage, update⟩ := e
  obtain ⟨listed, parts⟩ := h
  have clauses := Update.allSound_parts.mp parts
  cases call with
  | assign column value =>
    cases hedit
    exact ⟨listed, Update.allSound_parts.mpr
      { clauses with assignments := clauses.assignments.assignments_concat (expr_of_items items) }⟩
  | assignRow columns value =>
    obtain ⟨a, ha, hu⟩ := bind_eq_ok.mp hedit
    obtain ⟨rfl, -⟩ := Assignment.columns_of_toColumns (orRefuse_eq_ok.mp ha)
    cases pure_eq_ok.mp hu
    exact ⟨listed, Update.allSound_parts.mpr
      { clauses with assignments := clauses.assignments.assignments_concat (expr_of_items items) }⟩
  | source tree =>
    cases hedit
    exact ⟨listed, Update.allSound_parts.mpr { clauses with source := allSound_of_items items }⟩
  | filter condition =>
    cases hedit
    exact ⟨listed, Update.allSound_parts.mpr
      { clauses with filter := clauses.filter.conjoin (expr_of_items items) }⟩
  | returning columns =>
    cases hedit
    exact ⟨listed, Update.allSound_parts.mpr
      { clauses with returning := clauses.returning.columns_append (allSound_of_items items) }⟩
  | orderBy more =>
    cases hedit
    exact ⟨listed, Update.allSound_parts.mpr
      { clauses with orderBy := clauses.orderBy.terms_append (allSound_of_items items) }⟩
  | limit count =>
    cases hedit
    exact ⟨listed, Update.allSound_parts.mpr
      { clauses with limit := .of_option (expr_of_items items) }⟩
  | offset count =>
    cases hedit
    exact ⟨listed, Update.allSound_parts.mpr
      { clauses with offset := .of_option (expr_of_items items) }⟩

theorem applyDelete {d e : DeleteDraft} {call : DeleteCall} (h : (Draft.delete d).Holds)
    (items : ∀ i ∈ call.items, i.Sound) (happ : d.apply call = .ok e) :
    (Draft.delete e).Holds := by
  obtain ⟨-, hedit⟩ := DeleteDraft.apply_eq_ok.mp happ
  obtain ⟨stage, delete⟩ := e
  obtain ⟨listed, parts⟩ := h
  have clauses := Delete.allSound_parts.mp parts
  cases hedit
  refine ⟨by cases call <;> exact listed, Delete.allSound_parts.mpr ?_⟩
  cases call with
  | filter condition =>
    exact { clauses with filter := clauses.filter.conjoin (expr_of_items items) }
  | returning columns =>
    exact { clauses with returning := clauses.returning.columns_append (allSound_of_items items) }
  | orderBy more =>
    exact { clauses with orderBy := clauses.orderBy.terms_append (allSound_of_items items) }
  | limit count => exact { clauses with limit := .of_option (expr_of_items items) }
  | offset count => exact { clauses with offset := .of_option (expr_of_items items) }

/-- A clause that is closed hands its parts to the record. -/
theorem addUpsert {r : InsertRecord} {target : Option UpsertTarget} {action : UpsertAction}
    (front : AllSound (r.parts ++ target.toList.flatMap UpsertTarget.parts))
    (ha : AllSound action.parts) : AllSound (r.addUpsert ⟨target, action⟩).parts := by
  simp only [InsertRecord.parts, InsertRecord.addUpsert, List.flatMap_append,
    List.flatMap_singleton, Upsert.parts, AllSound.append_iff] at front ⊢
  obtain ⟨⟨⟨source, upserts⟩, returning⟩, target⟩ := front
  exact ⟨⟨source, upserts, target, ha⟩, returning⟩

theorem applyInsert {d e : InsertDraft} {call : InsertCall} (h : (Draft.insert d).Holds)
    (items : ∀ i ∈ call.items, i.Sound) (happ : d.apply call = .ok e) :
    (Draft.insert e).Holds := by
  obtain ⟨tables, parts⟩ := h
  cases InsertDraft.step_of_apply happ with
  | named | columns | defaultValues => exact ⟨tables, parts⟩
  | @values state takes r s row added =>
    cases InsertRecord.eq_of_addRow added
    refine ⟨tables, ?_⟩
    simp only [InsertDraft.parts, InsertRecord.parts, rowParts_append, rowParts_singleton,
      AllSound.append_iff, and_assoc] at parts ⊢
    exact ⟨parts.1, parts.2.1, allSound_of_items items, parts.2.2⟩
  | select unsourced r query =>
    refine ⟨tables, ?_⟩
    simp only [InsertDraft.parts, InsertRecord.parts, AllSound.append_iff] at parts ⊢
    exact ⟨⟨⟨allSound_of_items items, parts.1.1.2⟩, parts.1.2⟩, parts.2⟩
  | returning sourced r columns =>
    obtain ⟨front, results⟩ := AllSound.append_iff.mp parts
    exact ⟨tables, AllSound.append_iff.mpr ⟨front, results.columns_append (allSound_of_items items)⟩⟩
  | onConflict ne targeted =>
    refine ⟨tables, AllSound.append_iff.mpr ⟨parts, ?_⟩⟩
    simpa [UpsertTarget.parts, optionParts] using allSound_of_items items
  | onAnyConflict targeted => exact ⟨tables, AllSound.append_iff.mpr ⟨parts, .nil⟩⟩
  | targetFilter r target condition =>
    refine ⟨tables, ?_⟩
    simp only [InsertDraft.parts, Option.toList_some, List.flatMap_singleton, UpsertTarget.parts,
      AllSound.append_iff] at parts ⊢
    obtain ⟨front, columns, filter⟩ := parts
    exact ⟨front, columns, filter.conjoin (expr_of_items items)⟩
  | doNothing => exact ⟨tables, addUpsert parts .nil⟩
  | doUpdate =>
    have set := AllSound.append_iff.mpr
      ⟨parts, AllSound.cons_iff.mpr ⟨expr_of_items items, .nil⟩⟩
    exact ⟨tables, AllSound.append_iff.mpr ⟨set, .nil⟩⟩
  | assign | assignRow =>
    obtain ⟨front, condition⟩ := AllSound.append_iff.mp parts
    obtain ⟨rows, set⟩ := AllSound.append_iff.mp front
    refine ⟨tables, AllSound.append_iff.mpr ⟨AllSound.append_iff.mpr ⟨rows, ?_⟩, condition⟩⟩
    exact set.assignments_concat (expr_of_items items)
  | filter =>
    obtain ⟨front, condition⟩ := AllSound.append_iff.mp parts
    exact ⟨tables, AllSound.append_iff.mpr ⟨front, condition.conjoin (expr_of_items items)⟩⟩
  | done =>
    obtain ⟨front, condition⟩ := AllSound.append_iff.mp parts
    obtain ⟨rows, set⟩ := AllSound.append_iff.mp front
    exact ⟨tables, addUpsert rows (AllSound.append_iff.mpr ⟨set, condition⟩)⟩

theorem applyTable {d e : TableDraft} {call : TableCall} (h : d.Holds)
    (items : ∀ i ∈ call.items, i.Sound) (happ : d.apply call = .ok e) : e.Holds := by
  cases TableDraft.adds_of_apply happ with
  | column columns constraints query =>
    refine ⟨?_, constraints ▸ h.constraints, query ▸ h.query⟩
    rw [columns, List.flatMap_append, AllSound.append_iff]
    exact ⟨h.columns, by simpa using allSound_of_items items⟩
  | constraint columns constraints query =>
    refine ⟨columns ▸ h.columns, ?_, query ▸ h.query⟩
    rw [constraints]
    exact List.forall_mem_append.mpr
      ⟨h.constraints, List.forall_mem_singleton.mpr (items (.constraint _) (.head _))⟩
  | asSelect columns constraints query =>
    refine ⟨by simp [columns], by simp [constraints], ?_⟩
    rw [query]
    exact allSound_of_items items
  | nothing columns constraints query =>
    exact ⟨columns ▸ h.columns, constraints ▸ h.constraints, query ▸ h.query⟩

theorem applyIndex {i j : CreateIndex} {call : IndexCall} (h : (Draft.index i).Holds)
    (items : ∀ i ∈ call.items, i.Sound) (happ : i.apply call = .ok j) : (Draft.index j).Holds := by
  obtain ⟨columns, filter⟩ := h
  rcases CreateIndex.cases_of_apply happ with ⟨hc, hf⟩ | ⟨c, rfl, hc, hf⟩ | ⟨cs, rfl, hc, hf⟩ |
    ⟨e, rfl, hc, hf⟩
  · exact ⟨hc ▸ columns, hf ▸ filter⟩
  · refine ⟨?_, hf ▸ filter⟩
    rw [hc, indexedParts_append, AllSound.append_iff]
    exact ⟨columns, allSound_of_items items⟩
  · refine ⟨?_, hf ▸ filter⟩
    rw [hc, indexedParts_append, AllSound.append_iff]
    exact ⟨columns, allSound_of_items items⟩
  · refine ⟨hc ▸ columns, ?_⟩
    rw [hf]
    exact filter.conjoin (expr_of_items items)

theorem applyTrigger {d e : TriggerDraft} {call : TriggerCall} (h : (Draft.trigger d).Holds)
    (items : ∀ i ∈ call.items, i.Sound ∧ i.Regular) (happ : d.apply call = .ok e) :
    (Draft.trigger e).Holds := by
  obtain ⟨condition, steps⟩ := h
  rcases TriggerDraft.cases_of_apply happ with ⟨hs, hc⟩ | ⟨c, rfl, hs, hc⟩ |
    ⟨draft, s, rfl, hstep, hs, hc⟩
  · exact ⟨hc ▸ condition, hs ▸ steps⟩
  · refine ⟨?_, hs ▸ steps⟩
    rw [hc]
    exact condition.conjoin (expr_of_items fun i hi => (items i hi).1)
  · obtain ⟨holds, regular⟩ := items (.draft draft) (.head _)
    have step := sound_of_finish regular holds (TriggerDraft.stepOf_eq_ok.mp hstep).1
    refine ⟨hc ▸ condition, ?_⟩
    rw [hs, List.map_append, AllSound.append_iff]
    exact ⟨steps, by simpa using step⟩

theorem applyView {d e : ViewDraft} {call : ViewCall} (h : (Draft.view d).Holds)
    (items : ∀ i ∈ call.items, i.Sound) (happ : d.apply call = .ok e) : (Draft.view e).Holds := by
  rcases ViewDraft.query_of_apply happ with same | ⟨q, rfl, hq⟩
  · rw [Draft.Holds, same]
    exact h
  · rw [Draft.Holds, hq]
    exact allSound_of_items items

/-- Each call keeps the parts sound, if what it takes is sound. -/
theorem apply {d e : Draft} {call : Call} (h : d.Holds)
    (items : ∀ i ∈ call.items, i.Sound ∧ i.Regular) (happ : d.apply call = .ok e) : e.Holds := by
  have sound : ∀ i ∈ call.items, i.Sound := fun i hi => (items i hi).1
  cases Draft.step_of_apply happ with
  | select hx => exact applySelect h sound hx
  | insert hx => exact applyInsert h sound hx
  | update hx => exact applyUpdate h sound hx
  | delete hx => exact applyDelete h sound hx
  | table hx => exact applyTable h sound hx
  | index hx => exact applyIndex h sound hx
  | view hx => exact applyView h sound hx
  | trigger hx => exact applyTrigger h items hx
  | virtualTable | drop => trivial
  | alter hx =>
    obtain ⟨-, rfl⟩ := AlterDraft.apply_eq_ok hx
    simpa [Draft.Holds] using allSound_of_items sound
  | vacuum d call =>
    cases call with
    | schema name => exact h
    | intoFile file => exact .of_option (expr_of_items sound)

end Draft.Holds
end SqliteSyntax
