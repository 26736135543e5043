import SqliteSyntax.Proofs.Rules.Shape

/-! # Bounds of drafts

Queries, updates and deletions take their order, limit and offset clause by clause. `BoundsKept` is
what holds in between: a call keeps it whatever it is given, and where a draft can end it says that
the bounds belong together. -/
namespace SqliteSyntax
set_option autoImplicit false

/-- The bounds of a draft, given clause by clause. An order without a limit is the last clause so far,
and after the clause of the limit there is one. -/
structure BoundsKept (ordered limited : Prop) (orderBy : List OrderingTerm)
    (limit offset : Option Expr) : Prop where
  orderLimited : OrderLimited orderBy limit ∨ ordered
  limitGiven : limited → limit.isSome
  offsetLimited : OffsetLimited limit offset

namespace BoundsKept
variable {ordered ordered' limited limited' : Prop} {orderBy orderBy' : List OrderingTerm}
  {limit offset : Option Expr}

theorem start (h : ¬ limited) : BoundsKept ordered limited [] none none where
  orderLimited := .inl fun h => absurd rfl h
  limitGiven hl := absurd hl h
  offsetLimited h := h

theorem keep (h : BoundsKept ordered limited orderBy limit offset) (ho : ordered → ordered')
    (hl : ¬ limited') : BoundsKept ordered' limited' orderBy limit offset where
  orderLimited := h.orderLimited.imp_right ho
  limitGiven hl' := absurd hl' hl
  offsetLimited := h.offsetLimited

theorem reorder (h : BoundsKept ordered limited orderBy limit offset) (ho : ordered')
    (hl : ¬ limited') : BoundsKept ordered' limited' orderBy' limit offset where
  orderLimited := .inr ho
  limitGiven hl' := absurd hl' hl
  offsetLimited := h.offsetLimited

/-- Behind a limit nothing is amiss. -/
theorem of_limit (h : limit.isSome) : BoundsKept ordered limited orderBy limit offset where
  orderLimited := .inl fun _ => h
  limitGiven _ := h
  offsetLimited _ := h

end BoundsKept

/-! ## Queries -/

structure SelectDraft.Regular (d : SelectDraft) : Prop where
  bounds : BoundsKept True (d.stage = .limited) d.query.orderBy d.query.limit d.query.offset
  bodies : ∀ b ∈ d.query.bodies, b.Sound

namespace SelectDraft

theorem apply_eq_ok {d e : SelectDraft} {call : SelectCall} :
    d.apply call = .ok e ↔
      d.stage.after? call.clause = some e.stage ∧ edit d.query call = .ok e.query := by
  cases h : d.stage.after? call.clause with
  | none => simp [apply, h]
  | some stage =>
    simp only [apply, h, bind_eq_ok, pure_eq_ok, Option.some.injEq]
    constructor
    · rintro ⟨q, hq, rfl⟩
      exact ⟨rfl, hq⟩
    · rintro ⟨rfl, hq⟩
      exact ⟨_, hq, rfl⟩

theorem limited_of_offset {stage next : SelectStage} (h : stage.after? .offset = some next) :
    stage = .limited := by
  cases stage <;> first | rfl | simp [SelectStage.after?] at h

theorem limit_of_limited {stage : SelectStage} {clause : SelectClause}
    (h : stage.after? clause = some .limited) : clause = .limit := by
  cases stage <;> cases clause <;> first | rfl | simp [SelectStage.after?] at h

namespace Regular

theorem shapeSound {d : SelectDraft} (h : d.Regular) : d.query.ShapeSound :=
  ⟨h.bounds.offsetLimited, h.bodies⟩

theorem select (w : Option WithClause) (distinct : Bool) (columns : List ResultColumn) :
    (SelectDraft.select w distinct columns).Regular where
  bounds := .start (by simp [SelectDraft.select])
  bodies := List.forall_mem_singleton.mpr trivial

theorem values {w : Option WithClause} {rows : List (List Expr)} {d : SelectDraft}
    (h : SelectDraft.values w rows = .ok d) : d.Regular := by
  obtain ⟨⟨⟩, hrows, hd⟩ := bind_eq_ok.mp h
  cases pure_eq_ok.mp hd
  exact {
    bounds := .start (by simp)
    bodies := List.forall_mem_singleton.mpr (evenRows_of_checkRowWidths (orRefuse_eq_ok.mp hrows)) }

/-- A change of the first body leaves the bounds and the other bodies alone. -/
theorem editCore {d : SelectDraft} (h : d.Regular) (f : SelectCore → SelectCore)
    {stage : SelectStage} (hs : stage ≠ .limited) : Regular ⟨stage, d.query.editCore f⟩ := by
  obtain ⟨bounds, bodies⟩ := h
  obtain ⟨_, w, body, compounds, orderBy, limit, offset⟩ := d
  cases body with
  | core core =>
    refine ⟨bounds.keep (fun h => h) hs, ?_⟩
    exact List.forall_mem_cons.mpr ⟨trivial, (List.forall_mem_cons.mp bodies).2⟩
  | values rows => exact ⟨bounds.keep (fun h => h) hs, bodies⟩

/-- Each call keeps what was in order, if what a set operator takes is in order. -/
theorem apply {d e : SelectDraft} {call : SelectCall} (h : d.Regular)
    (operand : ∀ op x, call = .combine op x → x.Regular) (happ : d.apply call = .ok e) :
    e.Regular := by
  obtain ⟨hstage, hedit⟩ := apply_eq_ok.mp happ
  obtain ⟨stage, query⟩ := e
  have unlimited (hc : call.clause ≠ .limit) : stage ≠ .limited := by
    rintro rfl
    exact hc (limit_of_limited hstage)
  cases call with
  | distinct => cases hedit; exact h.editCore _ (unlimited (by decide))
  | source tree => cases hedit; exact h.editCore _ (unlimited (by simp [SelectCall.clause]))
  | filter condition => cases hedit; exact h.editCore _ (unlimited (by simp [SelectCall.clause]))
  | groupBy exprs => cases hedit; exact h.editCore _ (unlimited (by simp [SelectCall.clause]))
  | having condition => cases hedit; exact h.editCore _ (unlimited (by simp [SelectCall.clause]))
  | combine op x =>
    rw [edit] at hedit
    split at hedit
    · cases hedit
      refine ⟨h.bounds.keep id (unlimited (by simp [SelectCall.clause])), ?_⟩
      have hx : x.query.body.Sound := (operand op x rfl).bodies _ (.head _)
      simpa [Select.bodies, or_imp, forall_and, hx] using h.bodies
    · cases hedit
  | orderBy terms =>
    cases hedit
    exact ⟨h.bounds.reorder trivial (unlimited (by simp [SelectCall.clause])), h.bodies⟩
  | thenBy terms =>
    cases hedit
    exact ⟨h.bounds.reorder trivial (unlimited (by simp [SelectCall.clause])), h.bodies⟩
  | limit count => cases hedit; exact ⟨.of_limit rfl, h.bodies⟩
  | offset count =>
    cases hedit
    have limited := h.bounds.limitGiven (limited_of_offset hstage)
    exact ⟨.of_limit limited, h.bodies⟩

end Regular
end SelectDraft

/-! ## Updates -/

structure UpdateDraft.Regular (d : UpdateDraft) : Prop where
  bounds : BoundsKept (d.stage = .ordered) (d.stage = .limited) d.update.orderBy d.update.limit
    d.update.offset
  assigned : d.stage ≠ .noSet → d.update.assignments ≠ []
  columns : ∀ a ∈ d.update.assignments, a.columns ≠ []

namespace UpdateDraft

theorem apply_eq_ok {d e : UpdateDraft} {call : UpdateCall} :
    d.apply call = .ok e ↔
      d.stage.after? call.clause = some e.stage ∧ edit d.update call = .ok e.update := by
  cases h : d.stage.after? call.clause with
  | none => simp [apply, h]
  | some stage =>
    simp only [apply, h, bind_eq_ok, pure_eq_ok, Option.some.injEq]
    constructor
    · rintro ⟨u, hu, rfl⟩
      exact ⟨rfl, hu⟩
    · rintro ⟨rfl, hu⟩
      exact ⟨_, hu, rfl⟩

theorem finish_eq_ok {d : UpdateDraft} {u : Update} (h : d.finish = .ok u) :
    d.stage ≠ .noSet ∧ d.stage ≠ .ordered ∧ d.update = u := by
  cases hs : d.stage <;> simp_all [UpdateDraft.finish]

theorem limited_of_offset {stage next : UpdateStage} (h : stage.after? .offset = some next) :
    stage = .limited := by
  cases stage <;> first | rfl | simp [UpdateStage.after?] at h

/-- The calls that are no bounds leave the stage where something is assigned. -/
theorem stages_of_unbounded {stage next : UpdateStage} {clause : UpdateClause}
    (h : stage.after? clause = some next)
    (hc : clause ≠ .orderBy ∧ clause ≠ .limit ∧ clause ≠ .offset) :
    next = .hasSet ∧ stage ≠ .ordered ∧
      (stage ≠ .noSet ∨ clause = .assign ∨ clause = .assignRow) := by
  cases stage <;> cases clause <;> simp_all [UpdateStage.after?] <;> simp [← h]

theorem stages_of_orderBy {stage next : UpdateStage} (h : stage.after? .orderBy = some next) :
    stage = .hasSet ∧ next = .ordered := by
  cases stage <;> simp_all [UpdateStage.after?]

theorem assigning_of_limit {stage next : UpdateStage} (h : stage.after? .limit = some next) :
    stage ≠ .noSet := by
  cases stage <;> simp_all [UpdateStage.after?]

namespace Regular

theorem start (w : Option WithClause) (conflict : Option ConflictAction) (table : TableRef) :
    (UpdateDraft.start w conflict table).Regular where
  bounds := .start (by simp [UpdateDraft.start])
  assigned h := absurd rfl h
  columns := by simp [UpdateDraft.start]

/-- One more assignment. -/
theorem assign {d e : UpdateDraft} (h : d.Regular) {a : Assignment} (ha : a.columns ≠ [])
    (hstage : e.stage = .hasSet ∧ d.stage ≠ .ordered)
    (he : e.update = { d.update with assignments := d.update.assignments ++ [a] }) :
    e.Regular := by
  have set := SetSound.append h.columns ha
  refine ⟨?_, fun _ => ?_, ?_⟩
  · rw [he, hstage.1]
    exact h.bounds.keep (fun ho => absurd ho hstage.2) (by simp)
  · rw [he]
    exact set.1
  · rw [he]
    exact set.2

/-- A call that neither assigns nor bounds. -/
theorem unbounded {d e : UpdateDraft} (h : d.Regular)
    (hstage : e.stage = .hasSet ∧ d.stage ≠ .ordered ∧ d.stage ≠ .noSet)
    (ha : e.update.assignments = d.update.assignments)
    (hb : e.update.orderBy = d.update.orderBy ∧ e.update.limit = d.update.limit ∧
      e.update.offset = d.update.offset) : e.Regular := by
  refine ⟨?_, fun _ => ?_, ?_⟩
  · rw [hb.1, hb.2.1, hb.2.2, hstage.1]
    exact h.bounds.keep (fun ho => absurd ho hstage.2.1) (by simp)
  · rw [ha]
    exact h.assigned hstage.2.2
  · rw [ha]
    exact h.columns

/-- Each call keeps what was in order. -/
theorem apply {d e : UpdateDraft} {call : UpdateCall} (h : d.Regular)
    (happ : d.apply call = .ok e) : e.Regular := by
  obtain ⟨hstage, hedit⟩ := apply_eq_ok.mp happ
  cases call with
  | assign column value =>
    obtain ⟨hnext, hord, -⟩ := stages_of_unbounded hstage (by simp [UpdateCall.clause])
    exact h.assign (a := .toColumn column value) (by simp [Assignment.toColumn]) ⟨hnext, hord⟩
      (Except.ok.inj hedit).symm
  | assignRow columns value =>
    obtain ⟨hnext, hord, -⟩ := stages_of_unbounded hstage (by simp [UpdateCall.clause])
    obtain ⟨a, ha, hu⟩ := bind_eq_ok.mp hedit
    obtain ⟨rfl, ne⟩ := Assignment.columns_of_toColumns (orRefuse_eq_ok.mp ha)
    exact h.assign (a := ⟨columns, value⟩) ne ⟨hnext, hord⟩ (pure_eq_ok.mp hu).symm
  | source tree | filter condition | returning columns =>
    obtain ⟨hnext, hord, hset⟩ := stages_of_unbounded hstage (by simp [UpdateCall.clause])
    have hu := (Except.ok.inj hedit).symm
    refine h.unbounded ⟨hnext, hord, ?_⟩ ?_ ?_
    · simpa [UpdateCall.clause] using hset
    · rw [hu]
    · simp [hu]
  | orderBy terms =>
    obtain ⟨hset, hnext⟩ := stages_of_orderBy hstage
    have hu := (Except.ok.inj hedit).symm
    refine ⟨?_, fun _ => ?_, ?_⟩
    · rw [hu, hnext]
      exact h.bounds.reorder rfl (by simp)
    · rw [hu]
      exact h.assigned (by simp [hset])
    · rw [hu]
      exact h.columns
  | limit count =>
    have hu := (Except.ok.inj hedit).symm
    refine ⟨.of_limit (by simp [hu]), fun _ => ?_, ?_⟩
    · rw [hu]
      exact h.assigned (assigning_of_limit hstage)
    · rw [hu]
      exact h.columns
  | offset count =>
    have limited := limited_of_offset hstage
    have hu := (Except.ok.inj hedit).symm
    refine ⟨.of_limit ?_, fun _ => ?_, ?_⟩
    · rw [hu]
      exact h.bounds.limitGiven limited
    · rw [hu]
      exact h.assigned (by simp [limited])
    · rw [hu]
      exact h.columns

/-- Where an update can end, it assigns and its bounds belong together. -/
theorem finish {d : UpdateDraft} {u : Update} (h : d.Regular) (hu : d.finish = .ok u) :
    SetSound u.assignments ∧ OrderLimited u.orderBy u.limit ∧ OffsetLimited u.limit u.offset := by
  obtain ⟨hset, hord, rfl⟩ := finish_eq_ok hu
  exact ⟨⟨h.assigned hset, h.columns⟩, h.bounds.orderLimited.resolve_right hord,
    h.bounds.offsetLimited⟩

end Regular
end UpdateDraft

/-! ## Deletions -/

structure DeleteDraft.Regular (d : DeleteDraft) : Prop where
  bounds : BoundsKept (d.stage = .ordered) (d.stage = .limited) d.delete.orderBy d.delete.limit
    d.delete.offset

namespace DeleteDraft

theorem apply_eq_ok {d e : DeleteDraft} {call : DeleteCall} :
    d.apply call = .ok e ↔
      d.stage.after? call.clause = some e.stage ∧ edit d.delete call = e.delete := by
  cases h : d.stage.after? call.clause with
  | none => simp [apply, h]
  | some stage =>
    simp only [apply, h, Except.ok.injEq, Option.some.injEq]
    constructor
    · rintro rfl
      exact ⟨rfl, rfl⟩
    · rintro ⟨rfl, hx⟩
      rw [hx]

theorem finish_eq_ok {d : DeleteDraft} {x : Delete} (h : d.finish = .ok x) :
    d.stage ≠ .ordered ∧ d.delete = x := by
  cases hs : d.stage <;> simp_all [DeleteDraft.finish]

theorem limited_of_offset {stage next : DeleteStage} (h : stage.after? .offset = some next) :
    stage = .limited := by
  cases stage <;> first | rfl | simp [DeleteStage.after?] at h

theorem stages_of_unbounded {stage next : DeleteStage} {clause : DeleteClause}
    (h : stage.after? clause = some next) (hc : clause = .filter ∨ clause = .returning) :
    next = .filtering ∧ stage = .filtering := by
  cases stage <;> rcases hc with rfl | rfl <;> simp_all [DeleteStage.after?]

theorem ordered_of_orderBy {stage next : DeleteStage} (h : stage.after? .orderBy = some next) :
    next = .ordered := by
  cases stage <;> simp_all [DeleteStage.after?]

namespace Regular

theorem start (w : Option WithClause) (table : TableRef) : (DeleteDraft.start w table).Regular where
  bounds := .start (by simp [DeleteDraft.start])

/-- Each call keeps what was in order. -/
theorem apply {d e : DeleteDraft} {call : DeleteCall} (h : d.Regular)
    (happ : d.apply call = .ok e) : e.Regular := by
  obtain ⟨hstage, hedit⟩ := apply_eq_ok.mp happ
  refine ⟨?_⟩
  cases call with
  | filter condition | returning columns =>
    obtain ⟨hnext, hfrom⟩ := stages_of_unbounded hstage (by simp [DeleteCall.clause])
    rw [← hedit, hnext]
    exact h.bounds.keep (fun ho => by simp [hfrom] at ho) (by simp)
  | orderBy terms =>
    rw [← hedit, ordered_of_orderBy hstage]
    exact h.bounds.reorder rfl (by simp)
  | limit count => exact .of_limit (by simp [← hedit, edit])
  | offset count =>
    refine .of_limit ?_
    rw [← hedit]
    exact h.bounds.limitGiven (limited_of_offset hstage)

/-- Where a deletion can end, its bounds belong together. -/
theorem finish {d : DeleteDraft} {x : Delete} (h : d.Regular) (hx : d.finish = .ok x) :
    OrderLimited x.orderBy x.limit ∧ OffsetLimited x.limit x.offset := by
  obtain ⟨hord, rfl⟩ := finish_eq_ok hx
  exact ⟨h.bounds.orderLimited.resolve_right hord, h.bounds.offsetLimited⟩

end Regular
end DeleteDraft

end SqliteSyntax
