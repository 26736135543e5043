import SqliteSyntax.Proofs.Drafts.Clauses
import SqliteSyntax.Proofs.Rules.Insertion

/-! # What calls give to an insertion

A conflict clause is given by the calls from the one that opens it to the next that closes it, so the
clauses of a run can be read off its calls (`closedClauses`). A draft after a run of accepted calls has
exactly the columns, rows, clauses and results that its calls gave, and while a clause is open also what
was given to it so far (`InsertDraft.Run`). -/
namespace SqliteSyntax
set_option autoImplicit false

/-! ## What one call gives -/

namespace InsertCall

@[simp] def columnNames : InsertCall → List String
  | .columns names => names
  | _ => []

@[simp] def row : InsertCall → List (List Expr)
  | .values row => [row]
  | _ => []

@[simp] def queries : InsertCall → List Select
  | .select query => [query]
  | _ => []

@[simp] def results : InsertCall → List ResultColumn
  | .returning results => results
  | _ => []

@[simp] def targetConditions : InsertCall → List Expr
  | .targetFilter condition => [condition]
  | _ => []

@[simp] def assignments : InsertCall → List Assignment
  | .doUpdate column value | .assign column value => [⟨[column], value⟩]
  | .assignRow names value => [⟨names, value⟩]
  | _ => []

@[simp] def updateConditions : InsertCall → List Expr
  | .filter condition => [condition]
  | _ => []

/-- Whether the call begins a conflict clause. -/
@[simp] def opens : InsertCall → Bool
  | .onConflict _ | .onAnyConflict => true
  | _ => false

/-- Whether the call ends a conflict clause. -/
@[simp] def closes : InsertCall → Bool
  | .doNothing | .done => true
  | _ => false

theorem mem_row {call : InsertCall} {row : List Expr} : row ∈ call.row ↔ call = .values row := by
  cases call <;> simp [eq_comm]

theorem mem_queries {call : InsertCall} {query : Select} :
    query ∈ call.queries ↔ call = .select query := by
  cases call <;> simp [eq_comm]

theorem not_opens_of_closes {call : InsertCall} (h : call.closes = true) : call.opens = false := by
  cases call <;> first | rfl | exact Bool.noConfusion h

end InsertCall

/-! ## Conflict clauses -/

/-- The target of a clause after its first call and some more. -/
def conflictTarget (opening : InsertCall) (between : List InsertCall) : Option UpsertTarget :=
  match opening with
  | .onConflict columns =>
    some ⟨columns, conjunction (between.flatMap InsertCall.targetConditions)⟩
  | _ => none

theorem conflictTarget_concat {opening call : InsertCall} {between : List InsertCall}
    (h : call.targetConditions = []) :
    conflictTarget opening (between ++ [call]) = conflictTarget opening between := by
  have same : (between ++ [call]).flatMap InsertCall.targetConditions =
      between.flatMap InsertCall.targetConditions := by
    rw [List.flatMap_append, List.flatMap_singleton, h, List.append_nil]
  simp only [conflictTarget, same]

theorem conflictTarget_concat_filter {opening : InsertCall} {between : List InsertCall}
    {target : UpsertTarget} {condition : Expr} (h : conflictTarget opening between = some target) :
    some { target with filter := conjoin target.filter condition } =
      conflictTarget opening (between ++ [.targetFilter condition]) := by
  cases opening with
  | onConflict columns =>
    cases h
    simp [conflictTarget, conjunction_concat]
  | _ => cases h

/-- The action of a clause, which its last call decides. -/
def conflictAction (between : List InsertCall) (closing : InsertCall) : UpsertAction :=
  match closing with
  | .done =>
    .update (between.flatMap InsertCall.assignments)
      (conjunction (between.flatMap InsertCall.updateConditions))
  | _ => .nothing

/-- The clause that a call opens, if a later one closes it. -/
def clauseFrom? (opening : InsertCall) (later : List InsertCall) : Option Upsert :=
  if opening.opens then
    let between := later.takeWhile fun call => !call.closes
    (later.find? InsertCall.closes).map fun closing =>
      ⟨conflictTarget opening between, conflictAction between closing⟩
  else none

/-- The clauses that calls opened and closed, in call order. -/
def closedClauses : List InsertCall → List Upsert
  | [] => []
  | call :: later => (clauseFrom? call later).toList ++ closedClauses later

theorem closedClauses_cons_of_not_opens {call : InsertCall} (h : call.opens = false)
    (later : List InsertCall) : closedClauses (call :: later) = closedClauses later := by
  rw [closedClauses, clauseFrom?, h, if_neg Bool.false_ne_true, Option.toList_none, List.nil_append]

theorem closedClauses_append_of_not_opens {front : List InsertCall}
    (h : ∀ call ∈ front, call.opens = false) (later : List InsertCall) :
    closedClauses (front ++ later) = closedClauses later := by
  induction front with
  | nil => rfl
  | cons call rest ih =>
    obtain ⟨hcall, hrest⟩ := List.forall_mem_cons.mp h
    rw [List.cons_append, closedClauses_cons_of_not_opens hcall, ih hrest]

theorem clauseFrom?_of_not_closes {between : List InsertCall}
    (h : ∀ call ∈ between, call.closes = false) (opening : InsertCall) :
    clauseFrom? opening between = none := by
  have open_ : between.find? InsertCall.closes = none := by simpa [List.find?_eq_none] using h
  rw [clauseFrom?, open_]
  split <;> rfl

theorem clauseFrom?_of_closes {opening closing : InsertCall} {between : List InsertCall}
    (ho : opening.opens = true) (hb : ∀ call ∈ between, call.closes = false)
    (hc : closing.closes = true) (later : List InsertCall) :
    clauseFrom? opening (between ++ closing :: later) =
      some ⟨conflictTarget opening between, conflictAction between closing⟩ := by
  have found : (between ++ closing :: later).find? InsertCall.closes = some closing := by
    have none : between.find? InsertCall.closes = none := by simpa [List.find?_eq_none] using hb
    rw [List.find?_append, none, Option.none_or, List.find?_cons_of_pos hc]
  have inside : (between ++ closing :: later).takeWhile (fun call => !call.closes) = between := by
    rw [List.takeWhile_append_of_pos (by simpa using hb), List.takeWhile_cons, hc]
    simp
  rw [clauseFrom?, if_pos ho, found, inside]
  rfl

/-- No clause is open after the calls, so later ones cannot add to what they gave. -/
def Settled (calls : List InsertCall) : Prop :=
  ∀ later, closedClauses (calls ++ later) = closedClauses calls ++ closedClauses later

namespace Settled

theorem nil : Settled [] := fun _ => rfl

theorem closedClauses_concat {calls : List InsertCall} {call : InsertCall} (h : Settled calls)
    (hcall : call.opens = false) : closedClauses (calls ++ [call]) = closedClauses calls := by
  rw [h, closedClauses_cons_of_not_opens hcall, closedClauses, List.append_nil]

theorem concat {calls : List InsertCall} {call : InsertCall} (h : Settled calls)
    (hcall : call.opens = false) : Settled (calls ++ [call]) := by
  intro later
  rw [h.closedClauses_concat hcall, List.append_assoc, h, List.singleton_append,
    closedClauses_cons_of_not_opens hcall]

end Settled

/-- After the calls the clause is open that one of them began. -/
structure OpenClause (calls before : List InsertCall) (opening : InsertCall)
    (between : List InsertCall) : Prop where
  split : calls = before ++ opening :: between
  settled : Settled before
  opens : opening.opens = true
  inner : ∀ call ∈ between, call.opens = false ∧ call.closes = false

namespace OpenClause
variable {calls before between : List InsertCall} {opening : InsertCall}

theorem start (h : Settled before) (ho : opening.opens = true) :
    OpenClause (before ++ [opening]) before opening [] :=
  ⟨rfl, h, ho, fun _ hc => absurd hc List.not_mem_nil⟩

theorem concat (h : OpenClause calls before opening between) {call : InsertCall}
    (hcall : call.opens = false ∧ call.closes = false) :
    OpenClause (calls ++ [call]) before opening (between ++ [call]) where
  split := by rw [h.split, List.append_assoc, List.cons_append]
  settled := h.settled
  opens := h.opens
  inner := List.forall_mem_append.mpr ⟨h.inner, List.forall_mem_singleton.mpr hcall⟩

/-- An open clause is not among those that are closed. -/
theorem closedClauses_eq (h : OpenClause calls before opening between) :
    closedClauses calls = closedClauses before := by
  have inner := closedClauses_append_of_not_opens (fun call hc => (h.inner call hc).1) []
  rw [List.append_nil] at inner
  rw [h.split, h.settled, closedClauses, clauseFrom?_of_not_closes fun call hc => (h.inner call hc).2,
    inner]
  simp [closedClauses]

/-- The call that closes a clause adds it behind the others. -/
theorem close (h : OpenClause calls before opening between) (closing : InsertCall)
    (hc : closing.closes = true) :
    Settled (calls ++ [closing]) ∧ closedClauses (calls ++ [closing]) =
      closedClauses calls ++
        [⟨conflictTarget opening between, conflictAction between closing⟩] := by
  -- stated for all later calls, since that the clause is closed says how they go on
  have closed (later : List InsertCall) : closedClauses (calls ++ closing :: later) =
      closedClauses before ++
        (⟨conflictTarget opening between, conflictAction between closing⟩ :: closedClauses later) := by
    rw [h.split, List.append_assoc, h.settled, List.cons_append, closedClauses,
      clauseFrom?_of_closes h.opens (fun call hm => (h.inner call hm).2) hc,
      closedClauses_append_of_not_opens fun call hm => (h.inner call hm).1,
      closedClauses_cons_of_not_opens (InsertCall.not_opens_of_closes hc)]
    rfl
  have here : closedClauses (calls ++ [closing]) = closedClauses calls ++
      [⟨conflictTarget opening between, conflictAction between closing⟩] := by
    rw [closed, h.closedClauses_eq, closedClauses]
  refine ⟨fun later => ?_, here⟩
  rw [here, h.closedClauses_eq, List.append_assoc, List.singleton_append, closed, List.append_assoc,
    List.singleton_append]

end OpenClause

/-! ## Drafts -/

namespace InsertDraft

/-- What a call adds to a draft, conflict clauses left out. -/
structure Adds (d : InsertDraft) (call : InsertCall) (e : InsertDraft) : Prop where
  columns : e.record.columns = d.record.columns ++ call.columnNames
  rows : e.record.rows = d.record.rows ++ call.row
  queries : e.record.query.toList = d.record.query.toList ++ call.queries
  returning : e.record.returning = d.record.returning ++ call.results
  defaults : e.stage = .defaults ↔ d.stage = .defaults ∨ call = .defaultValues

theorem adds_of_apply {d e : InsertDraft} {call : InsertCall} (fits : d.Fits)
    (h : d.apply call = .ok e) : d.Adds call e := by
  cases step_of_apply h with
  | columns r ne =>
    have unnamed : r.columns = [] := fits.1
    constructor <;> simp [record, stage, InsertState.stage, unnamed]
  | @values state takes r s row added =>
    cases InsertRecord.eq_of_addRow added
    cases state with
    | noSource | hasColumns | rows => constructor <;> simp [record, stage, InsertState.stage]
    | defaults | fromSelect => exact Bool.noConfusion takes
  | @select state unsourced r query =>
    cases state with
    | noSource | hasColumns =>
      have none : r.query = none := fits.2.query
      constructor <;> simp [record, stage, InsertState.stage, none]
    | defaults | fromSelect | rows => exact Bool.noConfusion unsourced
  | named | returning => constructor <;> simp [record, stage]
  | defaultValues | onConflict | onAnyConflict | targetFilter | doNothing | doUpdate | assign
  | assignRow | filter | done =>
    constructor <;> simp [record, stage, InsertState.stage, InsertRecord.addUpsert]

/-- What the calls gave to the conflict clause that is open; else each is closed. -/
def Opened (calls : List InsertCall) : InsertDraft → Prop
  | .conflict _ target =>
    ∃ before opening between, OpenClause calls before opening between ∧
      target = conflictTarget opening between ∧ between.flatMap InsertCall.assignments = [] ∧
      between.flatMap InsertCall.updateConditions = []
  | .updating _ target assignments filter =>
    ∃ before opening between, OpenClause calls before opening between ∧
      target = conflictTarget opening between ∧
      assignments = between.flatMap InsertCall.assignments ∧
      filter = conjunction (between.flatMap InsertCall.updateConditions)
  | .insert .. => Settled calls

/-- Every call keeps that the clauses of a draft are those that were closed, and keeps what was given
to an open one. -/
theorem upserts_of_apply {calls : List InsertCall} {d e : InsertDraft} {call : InsertCall}
    (hd : d.record.upserts = closedClauses calls) (ho : d.Opened calls) (h : d.apply call = .ok e) :
    e.record.upserts = closedClauses (calls ++ [call]) ∧ e.Opened (calls ++ [call]) := by
  -- a call inside the open clause leaves it open and the closed ones as they are
  have inner {before between : List InsertCall} {opening : InsertCall}
      (hopen : OpenClause calls before opening between)
      (hcall : call.opens = false ∧ call.closes = false) :
      d.record.upserts = closedClauses (calls ++ [call]) ∧
        OpenClause (calls ++ [call]) before opening (between ++ [call]) := by
    have longer := hopen.concat hcall
    exact ⟨by rw [longer.closedClauses_eq, hd, hopen.closedClauses_eq], longer⟩
  cases step_of_apply h with
  | named | columns | defaultValues | select | returning =>
    exact ⟨hd.trans (ho.closedClauses_concat rfl).symm, ho.concat rfl⟩
  | values takes added =>
    cases InsertRecord.eq_of_addRow added
    exact ⟨hd.trans (ho.closedClauses_concat rfl).symm, ho.concat rfl⟩
  | @onConflict _ columns =>
    have started : OpenClause (calls ++ [.onConflict columns]) calls (.onConflict columns) [] :=
      .start ho rfl
    exact ⟨hd.trans started.closedClauses_eq.symm, _, _, [], started, rfl, rfl, rfl⟩
  | onAnyConflict =>
    have started : OpenClause (calls ++ [.onAnyConflict]) calls .onAnyConflict [] := .start ho rfl
    exact ⟨hd.trans started.closedClauses_eq.symm, _, _, [], started, rfl, rfl, rfl⟩
  | targetFilter r target condition =>
    obtain ⟨before, opening, between, hopen, ht, ha, hf⟩ := ho
    obtain ⟨hclosed, longer⟩ := inner hopen ⟨rfl, rfl⟩
    refine ⟨hclosed, _, _, _, longer, ?_, by simpa using ha, by simpa using hf⟩
    exact conflictTarget_concat_filter ht.symm
  | doNothing r target =>
    obtain ⟨before, opening, between, hopen, rfl, -, -⟩ := ho
    obtain ⟨settled, hclosed⟩ := hopen.close .doNothing rfl
    exact ⟨(congrArg (· ++ [_]) hd).trans hclosed.symm, settled⟩
  | doUpdate r target column value =>
    obtain ⟨before, opening, between, hopen, rfl, ha, hf⟩ := ho
    obtain ⟨hclosed, longer⟩ := inner hopen ⟨rfl, rfl⟩
    refine ⟨hclosed, _, _, _, longer, ?_, by simp [ha], by simp [hf, conjunction]⟩
    exact (conflictTarget_concat rfl).symm
  | assign r target assignments filter column value =>
    obtain ⟨before, opening, between, hopen, rfl, rfl, rfl⟩ := ho
    obtain ⟨hclosed, longer⟩ := inner hopen ⟨rfl, rfl⟩
    exact ⟨hclosed, _, _, _, longer, (conflictTarget_concat rfl).symm, by simp, by simp⟩
  | assignRow r target assignments filter value ne =>
    obtain ⟨before, opening, between, hopen, rfl, rfl, rfl⟩ := ho
    obtain ⟨hclosed, longer⟩ := inner hopen ⟨rfl, rfl⟩
    exact ⟨hclosed, _, _, _, longer, (conflictTarget_concat rfl).symm, by simp, by simp⟩
  | filter r target assignments filter condition =>
    obtain ⟨before, opening, between, hopen, rfl, rfl, rfl⟩ := ho
    obtain ⟨hclosed, longer⟩ := inner hopen ⟨rfl, rfl⟩
    refine ⟨hclosed, _, _, _, longer, (conflictTarget_concat rfl).symm, by simp, ?_⟩
    simp [conjunction_concat]
  | done r target assignments filter =>
    obtain ⟨before, opening, between, hopen, rfl, rfl, rfl⟩ := ho
    obtain ⟨settled, hclosed⟩ := hopen.close .done rfl
    exact ⟨(congrArg (· ++ [_]) hd).trans hclosed.symm, settled⟩

/-- What the calls of a run have given to its draft. -/
structure Run (calls : List InsertCall) (d : InsertDraft) : Prop where
  fits : d.Fits
  columns : d.record.columns = calls.flatMap InsertCall.columnNames
  rows : d.record.rows = calls.flatMap InsertCall.row
  queries : d.record.query.toList = calls.flatMap InsertCall.queries
  returning : d.record.returning = calls.flatMap InsertCall.results
  defaults : d.stage = .defaults ↔ .defaultValues ∈ calls
  upserts : d.record.upserts = closedClauses calls
  opened : d.Opened calls

/-- A call adds to the draft what it gives. -/
theorem Run.concat {calls : List InsertCall} {d e : InsertDraft} {call : InsertCall}
    (h : d.Run calls) (happ : d.apply call = .ok e) : e.Run (calls ++ [call]) := by
  have adds := adds_of_apply h.fits happ
  obtain ⟨upserts, opened⟩ := upserts_of_apply h.upserts h.opened happ
  have flat {α : Type} (f : InsertCall → List α) :
      (calls ++ [call]).flatMap f = calls.flatMap f ++ f call := by
    rw [List.flatMap_append, List.flatMap_singleton]
  refine ⟨h.fits.apply happ, ?_, ?_, ?_, ?_, ?_, upserts, opened⟩
  · rw [adds.columns, h.columns, flat]
  · rw [adds.rows, h.rows, flat]
  · rw [adds.queries, h.queries, flat]
  · rw [adds.returning, h.returning, flat]
  · rw [adds.defaults, h.defaults, List.mem_append, List.mem_singleton, eq_comm]

/-- A draft has what the calls gave that were accepted, however many. -/
theorem Run.of_runCalls {w : Option WithClause} {verb : InsertVerb} {table : QualifiedName}
    {calls : List InsertCall} {d : InsertDraft}
    (h : runCalls apply (.start w verb table) calls = .ok d) : d.Run calls := by
  have first : (start w verb table).Run [] :=
    ⟨.start w verb table, rfl, rfl, rfl, rfl, iff_of_false InsertStage.noConfusion List.not_mem_nil,
      rfl, Settled.nil⟩
  exact runCalls_induction first (fun _ _ _ _ h happ => h.concat happ) h

end InsertDraft
end SqliteSyntax
