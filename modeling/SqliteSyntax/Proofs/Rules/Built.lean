import SqliteSyntax.Proofs.Rules.Held

/-! # Statements made by calls alone

Whatever is made by calls alone is sound at every depth (`Made.sound`): the rules of an expression, a
table tree, a clause or a constraint are checked when it is made, those of a statement are kept by the
calls on its draft. -/
namespace SqliteSyntax
set_option autoImplicit false

/-! ## Beginnings -/

theorem withSound_of_items {w : Option WithClause} {items : List Item}
    (h : ∀ i ∈ w.toList.map Item.withClause ++ items, i.Sound) : WithSound w := by
  cases w with
  | none => exact ⟨fun w hw => absurd hw (by simp), .nil⟩
  | some w => exact h (.withClause w) (.head _)

theorem Draft.Holds.start {start : Start} {d : Draft} (items : ∀ i ∈ start.items, i.Sound)
    (hd : start.draft = .ok d) : d.Holds := by
  cases start with
  | opening w first =>
    have tables := withSound_of_items items
    have rest : ∀ i ∈ first.items, i.Sound := fun i hi => items i (List.mem_append_right _ hi)
    cases first with
    | select distinct columns =>
      cases hd
      have core : (Node.body (.core (.ofColumns distinct columns))).SoundThroughout := by
        refine Node.soundThroughout_iff.mpr ⟨trivial, ?_⟩
        simpa [Node.parts, SelectBody.parts, SelectCore.ofColumns, optionParts]
          using allSound_of_items rest
      refine ⟨tables.1, ?_⟩
      simpa [SelectDraft.select, Select.ofBody, Select.parts, Select.bodies, termParts, optionParts]
        using And.intro tables.2 core
    | values rows =>
      obtain ⟨x, hx, hd⟩ := bind_eq_ok.mp hd
      cases pure_eq_ok.mp hd
      obtain ⟨⟨⟩, hrows, hx⟩ := bind_eq_ok.mp hx
      cases pure_eq_ok.mp hx
      have values : (Node.body (.values rows)).SoundThroughout :=
        Node.soundThroughout_iff.mpr
          ⟨evenRows_of_checkRowWidths (orRefuse_eq_ok.mp hrows), allSound_of_items rest⟩
      refine ⟨tables.1, ?_⟩
      simpa [Select.ofBody, Select.parts, Select.bodies, termParts, optionParts]
        using And.intro tables.2 values
    | insert verb table => cases hd; exact ⟨tables, .nil⟩
    | update conflict table =>
      cases hd
      refine ⟨tables.1, ?_⟩
      simpa [UpdateDraft.start, Update.parts, assignmentParts, optionParts, columnParts, termParts]
        using tables.2
    | delete table =>
      cases hd
      refine ⟨tables.1, ?_⟩
      simpa [DeleteDraft.start, Delete.parts, optionParts, columnParts, termParts] using tables.2
  | table name =>
    cases hd
    exact ⟨by simp [TableDraft.start, TableDraft.columns],
      by simp [TableDraft.start, TableDraft.constraints],
      by simp [TableDraft.start, TableDraft.query]⟩
  | index name tableName => cases hd; exact ⟨.nil, .nil⟩
  | view name => cases hd; exact .nil
  | trigger name => cases hd; exact ⟨.nil, .nil⟩
  | alter tableName => cases hd; exact .nil
  | vacuum => cases hd; exact .nil
  | virtualTable name moduleName => cases hd; trivial
  | drop kind name => cases hd; trivial

/-! ## Expressions, table trees and clauses -/

theorem Expr.sound_of_isCase {e : Expr} (h : e.isCase = false) : e.Sound := by
  cases e with
  | caseWhen operand branches otherwise => exact Bool.noConfusion h
  | _ => trivial

/-- An escape character is one more part of a pattern match. -/
theorem Expr.withEscape_sound {e escape f : Expr} (he : (Node.expr e).SoundThroughout)
    (hc : (Node.expr escape).SoundThroughout) (h : e.withEscape escape = .ok f) :
    (Node.expr f).SoundThroughout := by
  unfold withEscape at h
  split at h
  · cases h
    have parts := (Node.soundThroughout_iff.mp he).2
    refine Node.soundThroughout_iff.mpr ⟨trivial, ?_⟩
    simpa [Node.parts, Expr.parts, optionParts, and_assoc, hc] using parts
  · cases h
  · cases h

theorem CaseDraft.branched_eq (operand : Option Expr) (branches : List (Expr × Expr)) :
    branched operand branches = ⟨operand, branches⟩ := by
  have grown (d : CaseDraft) : branches.foldl (fun d b => d.branch b.1 b.2) d =
      ⟨d.operand, d.branches ++ branches⟩ := by
    induction branches generalizing d with
    | nil => simp
    | cons b rest ih =>
      rw [List.foldl_cons, ih]
      simp [branch]
  exact grown (start operand)

theorem CaseDraft.finish_eq_ok {d : CaseDraft} {otherwise : Option Expr} {e : Expr} :
    d.finish otherwise = .ok e ↔ d.branches ≠ [] ∧ e = .caseWhen d.operand d.branches otherwise := by
  cases h : d.branches with
  | nil => simp [finish, h]
  | cons b rest =>
    simp only [finish, h, List.isEmpty_cons, Bool.false_eq_true, if_false, Except.ok.injEq, ne_eq,
      reduceCtorEq, not_false_eq_true, true_and]
    exact eq_comm

theorem FromTree.named_sound {t u : FromTree} {asName : String}
    (ht : (Node.tree t).SoundThroughout) (h : t.named asName = .ok u) :
    (Node.tree u).SoundThroughout := by
  have parts := (Node.soundThroughout_iff.mp ht).2
  cases t with
  | table reference => cases h; exact Node.soundThroughout_iff.mpr ⟨trivial, .nil⟩
  | subquery q old => cases h; exact Node.soundThroughout_iff.mpr ⟨trivial, parts⟩
  | function name items old => cases h; exact Node.soundThroughout_iff.mpr ⟨trivial, parts⟩
  | join l op r constraint => cases h

/-- A join of two sound trees is sound if the join itself is. -/
theorem FromTree.join_sound {l r : FromTree} {op : JoinOperator} {constraint : Option JoinConstraint}
    (hl : (Node.tree l).SoundThroughout) (hr : (Node.tree r).SoundThroughout)
    (here : JoinSound op constraint)
    (hc : AllSound (constraint.toList.flatMap JoinConstraint.parts)) :
    (Node.tree (.join l op r constraint)).SoundThroughout :=
  Node.soundThroughout_iff.mpr
    ⟨here, AllSound.cons_iff.mpr ⟨hl, AllSound.cons_iff.mpr ⟨hr, hc⟩⟩⟩

theorem FromTree.joinedUsing_sound {l r t : FromTree} {kind : JoinKind} {columns : List String}
    (hl : (Node.tree l).SoundThroughout) (hr : (Node.tree r).SoundThroughout)
    (h : joinedUsing kind l r columns = .ok t) : (Node.tree t).SoundThroughout := by
  obtain ⟨found, hfound, ht⟩ := bind_eq_ok.mp h
  obtain ⟨ne, rfl⟩ := required_eq_ok.mp hfound
  cases pure_eq_ok.mp ht
  exact join_sound hl hr ⟨by simpa using ne, by simp, by simp⟩ .nil

theorem FromTree.natural_sound {l r t : FromTree} {kind : JoinKind}
    (hl : (Node.tree l).SoundThroughout) (hr : (Node.tree r).SoundThroughout)
    (h : natural kind l r = .ok t) : (Node.tree t).SoundThroughout := by
  unfold natural at h
  split at h
  · rename_i can
    cases h
    refine join_sound hl hr ⟨by simp, fun _ => ⟨?_, ?_⟩, by simp⟩ .nil
    · rintro rfl
      exact Bool.noConfusion can
    · rintro rfl
      exact Bool.noConfusion can
  · cases h

theorem WithClause.adding_sound {w : WithClause} {t : CommonTable} (hw : WithSound (some w))
    (ht : (Node.query t.query).SoundThroughout) : WithSound (some (w.adding t)) := by
  refine ⟨fun v hv => by cases hv; simp [adding], ?_⟩
  simpa [withParts, adding, ht] using hw.2

theorem Statement.sound_of_isSingleCall {s : Statement} (h : s.isSingleCall = true) : s.Sound := by
  cases s <;> trivial

theorem Draft.explain_eq_ok {d : Draft} {queryPlan : Bool} {s : Statement}
    (h : d.explain queryPlan = .ok s) :
    ∃ t, d.build = .ok t ∧ t.isExplain = false ∧ s = .explain queryPlan t := by
  obtain ⟨t, ht, hs⟩ := bind_eq_ok.mp h
  split at hs
  · cases hs
  · rename_i plain
    exact ⟨t, ht, by simpa using plain, (pure_eq_ok.mp hs).symm⟩

/-! ## Everything -/

/-- Whatever is made by calls alone is sound at every depth. -/
theorem Made.sound {i : Item} (h : ByCalls i) : i.Sound := by
  induction h with
  | given h => exact h.elim
  | expr plain parts ih => exact Node.soundThroughout_iff.mpr ⟨Expr.sound_of_isCase plain, ih⟩
  | escaped he hc call ihe ihc => exact Expr.withEscape_sound ihe ihc call
  | caseWhen parts call ih =>
    rw [CaseDraft.branched_eq] at call
    obtain ⟨ne, rfl⟩ := CaseDraft.finish_eq_ok.mp call
    exact Node.soundThroughout_iff.mpr ⟨ne, ih⟩
  | table reference => exact Node.soundThroughout_iff.mpr ⟨trivial, .nil⟩
  | subquery asName hq ih =>
    exact Node.soundThroughout_iff.mpr ⟨trivial, AllSound.cons_iff.mpr ⟨ih, .nil⟩⟩
  | function name asName parts ih =>
    refine Node.soundThroughout_iff.mpr ⟨trivial, fun m hm => ?_⟩
    obtain ⟨e, he, rfl⟩ := List.mem_map.mp hm
    exact ih e he
  | treeNamed asName ht call ih => exact FromTree.named_sound ih call
  | joined kind hl hr ihl ihr =>
    exact FromTree.join_sound ihl ihr ⟨by simp, by simp, by simp⟩ .nil
  | joinedOn kind hl hr hc ihl ihr ihc =>
    exact FromTree.join_sound ihl ihr ⟨by simp, by simp, by simp⟩
      (AllSound.cons_iff.mpr ⟨ihc, .nil⟩)
  | joinedUsing kind columns hl hr call ihl ihr => exact FromTree.joinedUsing_sound ihl ihr call
  | natural kind hl hr call ihl ihr => exact FromTree.natural_sound ihl ihr call
  | withStart recursive hq ih =>
    exact ⟨fun w hw => by cases hw; simp [WithClause.start], AllSound.cons_iff.mpr ⟨ih, .nil⟩⟩
  | withAdding hw hq ihw ihq => exact WithClause.adding_sound ihw ihq
  | primaryKey parts call ih =>
    obtain ⟨ne, rfl⟩ := TableConstraint.primaryKey_eq_ok.mp call
    exact ⟨ne, ih⟩
  | unique parts call ih =>
    obtain ⟨ne, rfl⟩ := TableConstraint.unique_eq_ok.mp call
    exact ⟨ne, ih⟩
  | check hc ih => exact ⟨trivial, AllSound.cons_iff.mpr ⟨ih, .nil⟩⟩
  | foreignKey call =>
    obtain ⟨ne, rfl⟩ := TableConstraint.foreignKey_eq_ok call
    exact ⟨ne, .nil⟩
  | constraintNamed name hc ih => exact ih
  | constraintConflict action hc call ih =>
    obtain ⟨same, parts⟩ := TableConstraint.onConflict_eq_ok call
    exact ⟨same.mpr ih.1, parts ▸ ih.2⟩
  | query hd ih =>
    have regular : SelectDraft.Regular _ := hd.regular
    exact Node.soundThroughout_iff.mpr ⟨⟨ih.1, regular.bounds.offsetLimited⟩, ih.2⟩
  | single plain parts ih =>
    exact Node.soundThroughout_iff.mpr ⟨Statement.sound_of_isSingleCall plain, ih⟩
  | built hd call ih => exact Draft.sound_of_finish hd.regular ih (Draft.build_eq_ok.mp call).1
  | explained queryPlan hd call ih =>
    obtain ⟨t, ht, plain, rfl⟩ := Draft.explain_eq_ok call
    have inner := Draft.sound_of_finish hd.regular ih (Draft.build_eq_ok.mp ht).1
    exact Node.soundThroughout_iff.mpr ⟨plain, AllSound.cons_iff.mpr ⟨inner, .nil⟩⟩
  | started items call ih => exact Draft.Holds.start ih call
  | called hd items applied ihd ihitems =>
    exact ihd.apply (fun i hi => ⟨ihitems i hi, (items i hi).regular⟩) applied
  | finished hs ih => exact ih

/-- What a draft builds or explains after a run of accepted calls, however long, keeps all rules at
every depth, if the draft and all that its calls took were made by calls. -/
theorem Statement.sound_of_calls {d e : Draft} {s : Statement} {calls : List Call}
    (hd : ByCalls (.draft d)) (items : ∀ call ∈ calls, ∀ i ∈ call.items, ByCalls i)
    (hrun : runCalls Draft.apply d calls = .ok e)
    (hs : e.build = .ok s ∨ ∃ queryPlan, e.explain queryPlan = .ok s) :
    ∀ n, Inside n (.statement s) → n.Sound := by
  have made : ByCalls (.draft e) := hd.run items hrun
  rcases hs with hs | ⟨queryPlan, hs⟩
  · exact Made.sound (.built made hs)
  · exact Made.sound (.explained queryPlan made hs)

namespace Sample

/-- A page of a natural join. -/
def page : Select :=
  ⟨none, .core ⟨false, [.expr (.named "x") none],
    some (.join (.table (.ofName (.unqualified "t"))) ⟨true, .left⟩
      (.table (.ofName (.unqualified "u"))) none), none, [], none⟩,
    [], [], some (.named "m"), some (.named "n")⟩

/-- An insertion of a row that holds a page, with a conflict clause. -/
def upsert : Insert :=
  ⟨none, .insert, .unqualified "v", none, [], .values [[.subquery page, .named "y"]],
    [⟨some ⟨[.named "a"], none⟩, .update [⟨["b"], .named "z"⟩] none⟩], []⟩

theorem named_made (column : String) : ByCalls (.node (.expr (.named column))) :=
  .expr rfl fun _ h => absurd h List.not_mem_nil

theorem page_made : ByCalls (.node (.query page)) := by
  have tree : ByCalls (.node (.tree (.join (.table (.ofName (.unqualified "t"))) ⟨true, .left⟩
      (.table (.ofName (.unqualified "u"))) none))) :=
    .natural .left (.table _) (.table _) rfl
  have first : ByCalls (.draft (.select (.select none false [.expr (.named "x") none]))) := by
    have opening : Start.draft (.opening none (.select false [.expr (.named "x") none])) =
        .ok (.select (.select none false [.expr (.named "x") none])) := rfl
    refine .started ?_ opening
    exact List.forall_mem_singleton.mpr (named_made "x")
  have whole : ByCalls (.draft (.select ⟨.closed, page⟩)) := by
    have run : runCalls Draft.apply (.select (.select none false [.expr (.named "x") none]))
        [.select (.source _), .select (.limit (.named "m")), .select (.offset (.named "n"))] =
          .ok (.select ⟨.closed, page⟩) := rfl
    refine first.run ?_ run
    refine List.forall_mem_cons.mpr ⟨List.forall_mem_singleton.mpr tree, ?_⟩
    exact List.forall_mem_cons.mpr ⟨List.forall_mem_singleton.mpr (named_made "m"),
      List.forall_mem_singleton.mpr (List.forall_mem_singleton.mpr (named_made "n"))⟩
  exact .query whole

end Sample

open Sample in
/-- An insertion made by four calls, which takes a page made by three, and explained at the end. -/
theorem Statement.sound_of_upsert_calls :
    let opened : Draft := .insert (.start none .insert (.unqualified "v"))
    let calls : List Call := [.insert (.values [.subquery page, .named "y"]),
      .insert (.onConflict [.named "a"]), .insert (.doUpdate "b" (.named "z")), .insert .done]
    let explained : Statement := .explain false (.insert upsert)
    ByCalls (.draft opened) ∧ (∀ call ∈ calls, ∀ i ∈ call.items, ByCalls i) ∧
      (runCalls Draft.apply opened calls).bind (Draft.explain false) = .ok explained ∧
      (Node.statement explained).SoundThroughout := by
  intro opened calls explained
  have first : ByCalls (.draft opened) := by
    have opening : Start.draft (.opening none (.insert .insert (.unqualified "v"))) =
        .ok opened := rfl
    exact .started (List.forall_mem_nil _) opening
  have cell : ByCalls (.node (.expr (.subquery page))) :=
    .expr rfl (List.forall_mem_singleton.mpr page_made)
  have items : ∀ call ∈ calls, ∀ i ∈ call.items, ByCalls i := by
    refine List.forall_mem_cons.mpr ⟨List.forall_mem_cons.mpr ⟨cell,
      List.forall_mem_singleton.mpr (named_made "y")⟩, ?_⟩
    refine List.forall_mem_cons.mpr ⟨List.forall_mem_singleton.mpr (named_made "a"), ?_⟩
    refine List.forall_mem_cons.mpr ⟨List.forall_mem_singleton.mpr (named_made "z"), ?_⟩
    exact List.forall_mem_singleton.mpr (List.forall_mem_nil _)
  obtain ⟨e, run, hs⟩ : ∃ e, runCalls Draft.apply opened calls = .ok e ∧
      e.explain false = .ok explained := ⟨_, rfl, rfl⟩
  exact ⟨first, items, rfl, sound_of_calls first items run (.inr ⟨false, hs⟩)⟩

end SqliteSyntax
