import SqliteSyntax.Proofs.Drafts.Clauses
import SqliteSyntax.Proofs.Pieces.Listed

/-! # Text of compound queries

A set operator keeps only the body of its operand. Nothing of the operand is lost by that: in the
stages in which a draft may be an operand, its body is its whole text (`sql_of_isOperand`). The text of
a query with further bodies is then its text before, and each operator and operand after it; an
order, a limit and an offset stand behind all bodies. -/
namespace SqliteSyntax
set_option autoImplicit false

/-! ## Text -/

theorem textOf_append (ps qs : List Piece) : textOf (ps ++ qs) = textOf ps ++ textOf qs := by
  rw [textOf, charsOf_append, String.ofList_append]
  rfl

theorem textOf_flatMap {α : Type} (f : α → List Piece) (items : List α) :
    textOf (items.flatMap f) = String.join (items.map fun a => textOf (f a)) := by
  induction items with
  | nil => rfl
  | cons a rest ih => rw [List.flatMap_cons, List.map_cons, textOf_append, String.join_cons, ih]

/-- The text of a further body, after its operator. -/
def furtherText (op : SetOperator) (text : String) : String := " " ++ Phrase.sql op ++ " " ++ text

theorem textOf_compoundText (compound : SetOperator × SelectBody) :
    textOf (compoundText compound) = furtherText compound.1 (textOf compound.2.pieces) := by
  have parts : compoundText compound =
      [.space] ++ Phrase.pieces compound.1 ++ [.space] ++ compound.2.pieces := by
    simp [compoundText]
  rw [parts, textOf_append, textOf_append, textOf_append]
  rfl

theorem Select.eta (q : Select) :
    (⟨q.withClause, q.body, q.compounds, q.orderBy, q.limit, q.offset⟩ : Select) = q := by
  cases q
  rfl

/-- The common tables of a query and its bodies, without what stands behind them. -/
def Select.bodiesText (q : Select) : String :=
  textOf (withPieces q.withClause) ++ textOf q.body.pieces ++
    String.join (q.compounds.map fun b => furtherText b.1 (textOf b.2.pieces))

/-- What stands behind the bodies. -/
def closingText (orderBy : List OrderingTerm) (limit offset : Option Expr) : String :=
  textOf (orderByPieces (termPieces orderBy)) ++ textOf (clause ["LIMIT"] (limit.map Expr.bare)) ++
    textOf (clause ["OFFSET"] (offset.map Expr.bare))

theorem Select.sql_eq (q : Select) :
    q.sql = q.bodiesText ++ closingText q.orderBy q.limit q.offset := by
  obtain ⟨w, body, compounds, orderBy, limit, offset⟩ := q
  simp only [sql, bodiesText, closingText, pieces, compoundPieces_eq, optionPieces_eq,
    textOf_append, textOf_flatMap, textOf_compoundText, String.append_assoc]

/-! ## Drafts that calls reach -/

/-- A draft after any calls from any beginning. -/
inductive SelectDraft.Reached : SelectDraft → Prop
  | select (w : Option WithClause) (distinct : Bool) (columns : List ResultColumn) :
      Reached (.select w distinct columns)
  | values {w : Option WithClause} {rows : List (List Expr)} {d : SelectDraft}
      (h : SelectDraft.values w rows = .ok d) : Reached d
  | called {d e : SelectDraft} {call : SelectCall} (hd : Reached d) (h : d.apply call = .ok e) :
      Reached e

namespace SelectDraft

theorem Reached.staged {d : SelectDraft} (h : d.Reached) : d.Staged := by
  induction h with
  | select w distinct columns => exact .select w distinct columns
  | values h => exact .values h
  | called _ h ih => exact ih.apply h

/-- A draft in which a set operator may follow has nothing behind its bodies. -/
theorem Staged.sql_eq {d : SelectDraft} (h : d.Staged) (hd : d.stage.isOpen = true) :
    d.query.sql = d.query.bodiesText := by
  have unlimited := SelectStage.isUnlimited_of_isOpen hd
  rw [Select.sql_eq, h.unordered hd, h.unlimited unlimited,
    h.noOffset (SelectStage.ne_closed_of_isUnlimited unlimited)]
  exact String.append_empty

/-- The body of an operand is all that it says. -/
theorem Staged.sql_of_isOperand {d : SelectDraft} (h : d.Staged) (hd : d.isOperand = true) :
    d.query.sql = textOf d.query.body.pieces := by
  obtain ⟨hstage, hwith⟩ := Bool.and_eq_true_iff.mp hd
  have single : d.stage.isSingle = true := by
    rcases Bool.or_eq_true_iff.mp hstage with hs | hs <;> rw [eq_of_beq hs] <;> rfl
  have isOpen : d.stage.isOpen = true := by
    rcases Bool.or_eq_true_iff.mp hstage with hs | hs <;> rw [eq_of_beq hs] <;> rfl
  have noWith : withPieces d.query.withClause = [] := by
    rw [Option.isNone_iff_eq_none.mp hwith, withPieces]
  rw [h.sql_eq isOpen, Select.bodiesText, h.single single, noWith]
  simp [textOf]

/-! ## Set operators -/

/-- The calls of a chain of set operators. -/
def combining (operands : List (SetOperator × SelectDraft)) : List SelectCall :=
  operands.map fun b => .combine b.1 b.2

/-- The draft after a chain of set operators. -/
def combined (a : SelectDraft) (operands : List (SetOperator × SelectDraft)) : SelectDraft :=
  ⟨if operands.isEmpty then a.stage else .compound,
    { a.query with compounds := a.query.compounds ++ operands.map fun b => (b.1, b.2.query.body) }⟩

theorem apply_combine {a operand : SelectDraft} {op : SetOperator} (ha : a.stage.isOpen = true)
    (hb : operand.isOperand = true) :
    a.apply (.combine op operand) = .ok (a.combined [(op, operand)]) := by
  have stage : a.stage.after? .combine = some .compound := by
    cases hs : a.stage <;> rw [hs] at ha <;> first | rfl | exact Bool.noConfusion ha
  exact apply_eq_ok.mpr ⟨stage, by rw [edit, if_pos hb]; rfl⟩

theorem runCalls_combining {a : SelectDraft} {operands : List (SetOperator × SelectDraft)}
    (ha : a.stage.isOpen = true) (hb : ∀ b ∈ operands, b.2.isOperand = true) :
    runCalls SelectDraft.apply a (combining operands) = .ok (a.combined operands) := by
  induction operands generalizing a with
  | nil =>
    simp only [combined, List.map_nil, List.append_nil, List.isEmpty_nil, if_true, Select.eta]
    exact runCalls_nil_eq_ok.mpr rfl
  | cons b rest ih =>
    obtain ⟨hfirst, hrest⟩ := List.forall_mem_cons.mp hb
    refine runCalls_cons_eq_ok.mpr ⟨_, apply_combine ha hfirst, ?_⟩
    rw [← combining, ih rfl hrest]
    simp [combined]

/-! ## Order, limit and offset -/

/-- The kinds of what stands behind the bodies. -/
def closingKinds : List ClauseKind := [.orderBy, .limit, .offset]

/-- A query with other clauses behind its bodies. -/
def closedBy (q : Select) (given : Clauses) : Select :=
  ⟨q.withClause, q.body, q.compounds, given.orderBy, given.limit, given.offset⟩

/-- The draft after calls that give an order, a limit and an offset to an open one. -/
structure Closed (c : SelectDraft) (calls : List SelectCall) (d : SelectDraft) : Prop where
  stage : d.stage = c.stage.afterAll (kindsOf (calls.map SelectCall.part))
  query : d.query = closedBy c.query (Clauses.of (calls.map SelectCall.part))
  fitting : Fitting closingKinds (calls.map SelectCall.part)

theorem Closed.nil {c : SelectDraft} (hc : c.Staged) (isOpen : c.stage.isOpen = true) :
    Closed c [] c where
  stage := rfl
  query := by
    have unlimited := SelectStage.isUnlimited_of_isOpen isOpen
    have order : (Clauses.of []).orderBy = c.query.orderBy := (hc.unordered isOpen).symm
    have limit : (Clauses.of []).limit = c.query.limit := (hc.unlimited unlimited).symm
    have offset : (Clauses.of []).offset = c.query.offset :=
      (hc.noOffset (SelectStage.ne_closed_of_isUnlimited unlimited)).symm
    rw [List.map_nil, closedBy, order, limit, offset, Select.eta]
  fitting := .nil _

theorem Closed.concat {c d e : SelectDraft} {calls : List SelectCall} {call : SelectCall}
    (h : Closed c calls d) (isOpen : c.stage.isOpen = true) (hcall : call.part.kind ∈ closingKinds)
    (happ : d.apply call = .ok e) : Closed c (calls ++ [call]) e := by
  obtain ⟨hstage, hedit⟩ := apply_eq_ok.mp happ
  rw [h.stage] at hstage
  obtain ⟨hnext, -, once⟩ := SelectStage.afterAll_concat isOpen hstage
  have parts : (calls ++ [call]).map SelectCall.part = calls.map SelectCall.part ++ [call.part] :=
    List.map_append
  refine ⟨by rw [parts, kindsOf_concat, hnext], ?_, parts ▸ h.fitting.concat hcall once⟩
  rw [parts, Clauses.of_concat]
  rw [h.query] at hedit
  cases call with
  | orderBy terms | thenBy terms | limit count | offset count =>
    exact (Except.ok.inj hedit).symm
  | _ => simp [closingKinds, SelectCall.part, ClausePart.kind] at hcall

theorem Closed.of_runCalls {c d : SelectDraft} {calls : List SelectCall} (hc : c.Staged)
    (isOpen : c.stage.isOpen = true) (hcalls : ∀ call ∈ calls, call.part.kind ∈ closingKinds)
    (hrun : runCalls SelectDraft.apply c calls = .ok d) : Closed c calls d := by
  refine runCalls_induction
    (P := fun calls d => (∀ call ∈ calls, call.part.kind ∈ closingKinds) → Closed c calls d)
    (fun _ => .nil hc isOpen) (fun front next call e h happ hall => ?_) hrun hcalls
  obtain ⟨hfront, hcall⟩ := List.forall_mem_append.mp hall
  exact (h hfront).concat isOpen (hcall call List.mem_cons_self) happ

/-- What stands behind the bodies is added to the text, which is otherwise left as it is. -/
theorem Closed.sql_eq {c d : SelectDraft} {calls : List SelectCall} (h : Closed c calls d)
    (hc : c.Staged) (isOpen : c.stage.isOpen = true) :
    d.query.sql = c.query.sql ++ closingText (Clauses.of (calls.map SelectCall.part)).orderBy
      (Clauses.of (calls.map SelectCall.part)).limit
      (Clauses.of (calls.map SelectCall.part)).offset := by
  rw [hc.sql_eq isOpen, Select.sql_eq, h.query]
  rfl

end SelectDraft

/-! ## Compound queries -/

theorem SelectDraft.Reached.run {d e : SelectDraft} {calls : List SelectCall} (h : d.Reached)
    (hrun : runCalls SelectDraft.apply d calls = .ok e) : e.Reached :=
  runCalls_induction (P := fun _ d => d.Reached) h (fun _ _ _ _ h happ => h.called happ) hrun

theorem SelectDraft.combined_isOpen {a : SelectDraft}
    {operands : List (SetOperator × SelectDraft)} (ha : a.stage.isOpen = true) :
    (a.combined operands).stage.isOpen = true := by
  rw [combined]
  split
  · exact ha
  · rfl

theorem SelectDraft.bodiesText_combined {a : SelectDraft}
    {operands : List (SetOperator × SelectDraft)}
    (hb : ∀ b ∈ operands, b.2.Reached ∧ b.2.isOperand = true) :
    (a.combined operands).query.bodiesText = a.query.bodiesText ++
      String.join (operands.map fun b => furtherText b.1 b.2.query.sql) := by
  have texts : (operands.map fun b => furtherText b.1 (textOf b.2.query.body.pieces)) =
      operands.map fun b => furtherText b.1 b.2.query.sql :=
    List.map_congr_left fun b h => by rw [(hb b h).1.staged.sql_of_isOperand (hb b h).2]
  rw [Select.bodiesText, combined, List.map_append, List.map_map, String.join_append, ← texts,
    ← String.append_assoc]
  rfl

/-- A chain of set operators on a draft that takes them is accepted, and its text is the text before
with each operator and the whole text of its operand behind. That is: the common tables, the first
body, and the further bodies with their operators in call order. What an order, a limit and an offset
add, each given once at most but for the terms of the order, stands behind all of them. -/
theorem SelectDraft.sql_of_combining {a : SelectDraft} {operands : List (SetOperator × SelectDraft)}
    (ha : a.Reached) (isOpen : a.stage.isOpen = true)
    (hb : ∀ b ∈ operands, b.2.Reached ∧ b.2.isOperand = true) :
    ∃ c, runCalls SelectDraft.apply a
        (operands.map fun b => SelectCall.combine b.1 b.2) = .ok c ∧
      c.query.sql = a.query.sql ++
        String.join (operands.map fun b => " " ++ Phrase.sql b.1 ++ " " ++ b.2.query.sql) ∧
      a.query.sql = textOf (withPieces a.query.withClause) ++ textOf a.query.body.pieces ++
        String.join (a.query.compounds.map fun b =>
          " " ++ Phrase.sql b.1 ++ " " ++ textOf b.2.pieces) ∧
      ∀ calls d, (∀ call ∈ calls, call.part.kind ∈ [.orderBy, .limit, .offset]) →
        runCalls SelectDraft.apply c calls = .ok d →
        let given := Clauses.of (calls.map SelectCall.part)
        d.query.sql = c.query.sql ++ (textOf (orderByPieces (termPieces given.orderBy)) ++
          textOf (clause ["LIMIT"] (given.limit.map Expr.bare)) ++
          textOf (clause ["OFFSET"] (given.offset.map Expr.bare))) ∧
        (kindsOf (calls.map SelectCall.part)).count .limit ≤ 1 ∧
        (kindsOf (calls.map SelectCall.part)).count .offset ≤ 1 := by
  have run := runCalls_combining isOpen fun b h => (hb b h).2
  have reached := ha.run run
  have combinedOpen : (a.combined operands).stage.isOpen = true := combined_isOpen isOpen
  refine ⟨_, run, ?_, ha.staged.sql_eq isOpen, fun calls d hcalls hrun => ?_⟩
  · rw [reached.staged.sql_eq combinedOpen, ha.staged.sql_eq isOpen, bodiesText_combined hb]
    rfl
  · have closed := Closed.of_runCalls reached.staged combinedOpen hcalls hrun
    exact ⟨closed.sql_eq reached.staged combinedOpen, closed.fitting.limit, closed.fitting.offset⟩

namespace Sample

/-- All rows of a common table. -/
def fromCommon : SelectDraft :=
  .select (some (.start false ⟨"c", [], none, .ofBody (.values [[.named "n"]])⟩)) false [.star]

def oneRow : SelectDraft := ⟨.values, .ofBody (.values [[.named "x"]])⟩

/-- The calls behind the bodies. -/
def bounds : List SelectCall :=
  [.orderBy [.ofExpr (.named "n")], .thenBy [.ofExpr (.named "l")], .limit (.named "m"),
    .offset (.named "k")]

end Sample

open Sample in
/-- A query with a common table and a set operator, bounded by four calls. -/
theorem SelectDraft.sql_of_combining_row :
    ∃ c d, runCalls SelectDraft.apply fromCommon [.combine .unionAll oneRow] = .ok c ∧
      runCalls SelectDraft.apply c bounds = .ok d ∧
      c.query.sql = fromCommon.query.sql ++ (" UNION ALL " ++ oneRow.query.sql) ∧
      d.query.sql = "WITH \"c\" AS (VALUES (\"n\")) SELECT * UNION ALL VALUES (\"x\")" ++
        " ORDER BY \"n\", \"l\" LIMIT \"m\" OFFSET \"k\"" := by
  have row : SelectDraft.values none [[.named "x"]] = .ok oneRow := rfl
  have operands : ∀ b ∈ [(SetOperator.unionAll, oneRow)], b.2.Reached ∧ b.2.isOperand = true :=
    List.forall_mem_singleton.mpr ⟨.values row, rfl⟩
  obtain ⟨c, run, text, -, closing⟩ :=
    sql_of_combining (a := fromCommon) (.select _ _ _) rfl operands
  obtain ⟨d, run'⟩ : ∃ d, runCalls SelectDraft.apply c bounds = .ok d := by
    cases run
    exact ⟨_, rfl⟩
  have behind := (closing bounds d (by decide) run').1
  refine ⟨c, d, run, run', text, ?_⟩
  rw [behind, text]
  rfl

end SqliteSyntax
