import SqliteSyntax.Draft.Statement
import SqliteSyntax.Proofs.Nodes.RaiseParts

/-! # `RAISE` outside of triggers

A statement contains a `RAISE` exactly when one stands in it with no trigger on the way. Such a
statement is never built, and the text of a built statement without triggers does not have the
word. -/
namespace SqliteSyntax
set_option autoImplicit false

/-- A trigger, or an `EXPLAIN` of one. -/
def Statement.involvesTrigger : Statement → Bool
  | .createTrigger .. => true
  | .explain _ statement => statement.involvesTrigger
  | _ => false

namespace Node

def involvesTrigger : Node → Bool
  | .statement s => s.involvesTrigger
  | .expr _ | .query _ | .body _ | .tree _ => false

theorem isTrigger_of_involvesTrigger {n : Node} (h : n.involvesTrigger = false) :
    n.isTrigger = false := by
  cases n with
  | statement s =>
    cases s with
    | createTrigger header steps => exact Bool.noConfusion h
    | _ => rfl
  | _ => rfl

/-! ## Statements in statements -/

def isStatement : Node → Bool
  | .statement _ => true
  | .expr _ | .query _ | .body _ | .tree _ => false

/-- None of the nodes is a statement. -/
def NoStatements (nodes : List Node) : Prop := ∀ m ∈ nodes, m.isStatement = false

namespace NoStatements

theorem nil : NoStatements [] := fun _ h => absurd h List.not_mem_nil

theorem cons {m : Node} {rest : List Node} (hm : m.isStatement = false)
    (hr : NoStatements rest) : NoStatements (m :: rest) := by
  intro x hx
  rcases List.mem_cons.mp hx with rfl | hx
  · exact hm
  · exact hr x hx

theorem append {a b : List Node} (ha : NoStatements a) (hb : NoStatements b) :
    NoStatements (a ++ b) := by
  intro x hx
  rcases List.mem_append.mp hx with hx | hx
  · exact ha x hx
  · exact hb x hx

theorem map {α : Type} {f : α → Node} (hf : ∀ a, (f a).isStatement = false) (items : List α) :
    NoStatements (items.map f) := by
  intro x hx
  obtain ⟨a, -, rfl⟩ := List.mem_map.mp hx
  exact hf a

theorem flatMap {α : Type} {f : α → List Node} (hf : ∀ a, NoStatements (f a)) (items : List α) :
    NoStatements (items.flatMap f) := by
  intro x hx
  obtain ⟨a, -, hm⟩ := List.mem_flatMap.mp hx
  exact hf a x hm

theorem exprs (items : List Expr) : NoStatements (items.map .expr) := map (fun _ => rfl) items

theorem one (e : Expr) : NoStatements [.expr e] := cons rfl nil

theorem query (q : Select) : NoStatements [.query q] := cons rfl nil

theorem option (item : Option Expr) : NoStatements (optionParts item) := exprs _

theorem withTables (w : Option WithClause) : NoStatements (withParts w) :=
  flatMap (fun _ => map (fun _ => rfl) _) _

theorem columns (columns : List ResultColumn) : NoStatements (columnParts columns) :=
  flatMap (fun c => by cases c <;> first | exact one _ | exact nil) _

theorem terms (terms : List OrderingTerm) : NoStatements (termParts terms) := map (fun _ => rfl) _

theorem indexed (columns : List IndexedColumn) : NoStatements (indexedParts columns) :=
  map (fun _ => rfl) _

theorem assignments (assignments : List Assignment) : NoStatements (assignmentParts assignments) :=
  map (fun _ => rfl) _

theorem rows (rows : List (List Expr)) : NoStatements (rowParts rows) := flatMap exprs rows

theorem source (source : Option FromTree) : NoStatements (source.toList.map .tree) :=
  map (fun _ => rfl) _

theorem expr (e : Expr) : NoStatements e.parts := by
  cases e with
  | literal v => exact nil
  | column c => exact nil
  | callStar f d => exact nil
  | raise a => exact nil
  | unary op a => exact one a
  | nullTest t a => exact one a
  | collate a c => exact one a
  | cast a t => exact one a
  | existsRow n q => exact query q
  | subquery q => exact query q
  | call f d items => exact exprs items
  | row items => exact exprs items
  | binary op a b => exact cons rfl (one b)
  | between n a b c => exact cons rfl (cons rfl (one c))
  | inSelect n a q => exact cons rfl (query q)
  | inList n a items => exact cons rfl (exprs items)
  | pattern op n a b c => exact cons rfl (cons rfl (option c))
  | caseWhen a bs c =>
    have branches : NoStatements (bs.flatMap fun b => [.expr b.1, .expr b.2]) :=
      flatMap (fun b => cons rfl (one b.2)) bs
    exact ((option a).append branches).append (option c)

theorem tree (t : FromTree) : NoStatements t.parts := by
  cases t with
  | table r => exact nil
  | subquery q n => exact query q
  | function n items a => exact exprs items
  | join l op r c =>
    exact cons rfl (cons rfl (flatMap (fun c => by cases c <;> first | exact one _ | exact nil) _))

theorem column (c : ColumnDef) : NoStatements c.parts := by
  refine flatMap (fun constraint => ?_) _
  unfold ColumnRule.parts
  split <;> first | exact one _ | exact nil

theorem tableBody (b : TableBody) : NoStatements b.parts := by
  cases b with
  | asSelect q => exact query q
  | definitions columns constraints w s =>
    refine (flatMap column columns).append (flatMap (fun constraint => ?_) constraints)
    unfold TableRule.parts
    split <;> first | exact indexed _ | exact one _ | exact nil

theorem upsert (u : Upsert) : NoStatements u.parts := by
  have target : ∀ t : UpsertTarget, NoStatements t.parts := fun t =>
    (indexed t.columns).append (option t.filter)
  refine (flatMap target _).append ?_
  cases u.action with
  | nothing => exact nil
  | update as f => exact (assignments as).append (option f)

theorem insert (i : Insert) : NoStatements i.parts := by
  have source : NoStatements i.source.parts := by
    cases i.source with
    | values rs => exact rows rs
    | select q => exact query q
    | defaultValues => exact nil
  exact (((withTables _).append source).append (flatMap upsert _)).append (columns _)

theorem update (u : Update) : NoStatements u.parts :=
  (((((((withTables _).append (assignments _)).append (source _)).append (option _)).append
    (columns _)).append (terms _)).append (option _)).append (option _)

theorem delete (d : Delete) : NoStatements d.parts :=
  (((((withTables _).append (option _)).append (columns _)).append (terms _)).append
    (option _)).append (option _)

end NoStatements

/-- A statement stands directly in nothing but a trigger and an `EXPLAIN`. -/
theorem eq_explain_of_statement_mem {t : Statement} {n : Node} (h : .statement t ∈ n.parts)
    (ht : n.isTrigger = false) : ∃ p, n = .statement (.explain p t) := by
  have none : ¬ NoStatements n.parts := fun hn => Bool.noConfusion (hn _ h)
  cases n with
  | expr e => exact absurd (NoStatements.expr e) none
  | tree t => exact absurd (NoStatements.tree t) none
  | query q =>
    refine absurd ?_ none
    exact ((((NoStatements.withTables _).append (.map (fun _ => rfl) _)).append (.terms _)).append
      (.option _)).append (.option _)
  | body b =>
    refine absurd ?_ none
    cases b with
    | core c =>
      exact ((((NoStatements.columns _).append (.source _)).append (.option _)).append
        (.exprs _)).append (.option _)
    | values rows => exact .rows rows
  | statement s =>
    cases s with
    | explain p s =>
      cases List.mem_singleton.mp h
      exact ⟨p, rfl⟩
    | createTrigger header steps => exact Bool.noConfusion ht
    | select q => exact absurd (NoStatements.query q) none
    | insert i => exact absurd (NoStatements.insert i) none
    | update u => exact absurd (NoStatements.update u) none
    | delete d => exact absurd (NoStatements.delete d) none
    | createTable t => exact absurd (NoStatements.tableBody t.body) none
    | createIndex i =>
      exact absurd ((NoStatements.indexed i.columns).append (.option i.filter)) none
    | createView v => exact absurd (NoStatements.query v.query) none
    | alterTable t change =>
      cases change with
      | addColumn c => exact absurd (NoStatements.column c) none
      | _ => exact absurd NoStatements.nil none
    | attach file n => exact absurd (NoStatements.one file) none
    | vacuum n file => exact absurd (NoStatements.option file) none
    | _ => exact absurd NoStatements.nil none

theorem involvesTrigger_of_mem_parts {m n : Node} (h : m ∈ n.parts)
    (hn : n.involvesTrigger = false) : m.involvesTrigger = false := by
  cases m with
  | statement t =>
    obtain ⟨p, rfl⟩ := eq_explain_of_statement_mem h (isTrigger_of_involvesTrigger hn)
    exact hn
  | _ => rfl

theorem isStatement_of_mem_parts {m n : Node} (h : m ∈ n.parts) (hn : n.isStatement = false) :
    m.isStatement = false := by
  cases m with
  | statement t =>
    have ht : n.isTrigger = false := by cases n <;> first | rfl | exact Bool.noConfusion hn
    obtain ⟨p, rfl⟩ := eq_explain_of_statement_mem h ht
    exact hn
  | _ => rfl

theorem isStatement_of_inside {m n : Node} (h : Inside m n) (hn : n.isStatement = false) :
    m.isStatement = false := by
  induction h using Relation.ReflTransGen.head_induction_on with
  | refl => exact hn
  | head hstep _ ih => exact isStatement_of_mem_parts hstep ih

/-- There is no trigger on the way to what stands inside of anything but a statement. -/
theorem plainly_iff_inside {m n : Node} (hn : n.isStatement = false) :
    Plainly m n ↔ Inside m n := by
  refine ⟨fun h => Relation.ReflTransGen.mono (fun _ _ hstep => hstep.1) _ _ h, fun h => ?_⟩
  induction h using Relation.ReflTransGen.head_induction_on with
  | refl => exact .refl
  | @head m middle hstep hrest ih =>
    refine .head ⟨hstep, ?_⟩ ih
    have below := isStatement_of_inside hrest hn
    cases middle with
    | statement s => exact Bool.noConfusion below
    | _ => rfl

/-! ## The word and the expression -/

/-- The word stands in the text of a node without triggers exactly when a `RAISE` is among the
expressions that a search of the node visits. -/
theorem showsRaise_iff {n : Node} (h : n.involvesTrigger = false) :
    ShowsRaise n.pieces ↔ ∃ e ∈ n.nested, e.isRaise = true := by
  induction n using Node.induction with
  | step n ih =>
    have ht := isTrigger_of_involvesTrigger h
    have here : ShowsRaise n.pieces ↔
        (∃ e ∈ n.itself, e.isRaise = true) ∨ SomeShowsRaise n.parts := by
      have itself_nil : ∀ {p q : Prop}, (p ↔ q) →
          (p ↔ (∃ e ∈ ([] : List Expr), e.isRaise = true) ∨ q) := by
        intro p q hpq
        simpa using hpq
      cases n with
      | expr e =>
        simp only [itself, List.mem_singleton, exists_eq_left]
        exact e.showsRaise_iff
      | query q => exact itself_nil q.showsRaise_iff
      | body b => exact itself_nil b.showsRaise_iff
      | tree t => exact itself_nil t.showsRaise_iff
      | statement s => exact itself_nil (s.showsRaise_iff ht)
    have below : SomeShowsRaise n.parts ↔ ∃ e ∈ nestedInParts n.parts, e.isRaise = true := by
      constructor
      · rintro ⟨m, hm, hs⟩
        obtain ⟨e, he, hr⟩ := (ih m hm (involvesTrigger_of_mem_parts hm h)).mp hs
        exact ⟨e, List.mem_flatMap_of_mem hm he, hr⟩
      · rintro ⟨e, he, hr⟩
        obtain ⟨m, hm, he⟩ := List.mem_flatMap.mp he
        exact ⟨m, hm, (ih m hm (involvesTrigger_of_mem_parts hm h)).mpr ⟨e, he, hr⟩⟩
    rw [here, below, nested_eq n ht]
    simp only [List.mem_append, or_and_right, exists_or]

end Node

/-! ## Detection -/

theorem Expr.isRaise_iff {e : Expr} : e.isRaise = true ↔ ∃ action, e = .raise action := by
  cases e <;> simp [Expr.isRaise]

/-- A `RAISE` stands in the statement with no trigger on the way. -/
def Statement.HasPlainRaise (s : Statement) : Prop :=
  ∃ action, Plainly (.expr (.raise action)) (.statement s)

theorem Statement.exists_raise_iff {s : Statement} :
    (∃ e ∈ s.nested, e.isRaise = true) ↔ s.HasPlainRaise := by
  constructor
  · rintro ⟨e, he, hr⟩
    obtain ⟨action, rfl⟩ := Expr.isRaise_iff.mp hr
    exact ⟨action, mem_nested_iff.mp he⟩
  · rintro ⟨action, h⟩
    exact ⟨.raise action, mem_nested_iff.mpr h, rfl⟩

theorem Statement.containsRaise_iff {s : Statement} : s.containsRaise = true ↔ s.HasPlainRaise := by
  rw [containsRaise, List.any_eq_true]
  exact exists_raise_iff

theorem Draft.build_of_containsRaise {d : Draft} {s : Statement} (hd : d.finish = .ok s)
    (hs : s.containsRaise = true) : d.build = .error (.of (.raiseOutsideTrigger s.kind)) := by
  simp only [build, hd, bind, Except.bind, hs, if_true]

theorem Draft.containsRaise_of_build {d : Draft} {s : Statement} (hd : d.build = .ok s) :
    s.containsRaise = false := by
  cases hf : d.finish with
  | error failure => simp [build, hf, bind, Except.bind] at hd
  | ok t =>
    cases ht : t.containsRaise with
    | true =>
      rw [Draft.build_of_containsRaise hf ht] at hd
      exact absurd hd (by simp)
    | false =>
      have : t = s := by simpa [build, hf, bind, Except.bind, ht, pure, Except.pure] using hd
      rw [← this]
      exact ht

/-- The search for `RAISE` is complete and exact, every statement in which it finds one is refused
with an error that names its kind, and the text of a built statement that involves no trigger is
without the word, which only a `RAISE` writes. -/
theorem Statement.raise_detected (s : Statement) :
    (s.containsRaise = true ↔ s.HasPlainRaise) ∧
      (∀ d : Draft, d.finish = .ok s → s.HasPlainRaise →
        d.build = .error (.of (.raiseOutsideTrigger s.kind))) ∧
      (s.involvesTrigger = false →
        (.fixed "RAISE" ∈ s.pieces ↔ s.HasPlainRaise) ∧
        ∀ d : Draft, d.build = .ok s → .fixed "RAISE" ∉ s.pieces) := by
  refine ⟨containsRaise_iff, fun d hd hs => ?_, fun ht => ?_⟩
  · exact Draft.build_of_containsRaise hd (containsRaise_iff.mpr hs)
  · have word : .fixed "RAISE" ∈ s.pieces ↔ s.HasPlainRaise :=
      (Node.showsRaise_iff (n := .statement s) ht).trans exists_raise_iff
    refine ⟨word, fun d hd h => ?_⟩
    have found := containsRaise_iff.mpr (word.mp h)
    rw [Draft.containsRaise_of_build hd] at found
    exact Bool.noConfusion found

/-- A `RAISE` in the filter of an upsert, below a subquery of a `CASE`, is refused; the same insertion
with a column in its place is built without the word. -/
theorem Statement.raise_detected_in_upsert :
    let upsert (e : Expr) : Insert :=
      ⟨none, .insert, .unqualified "t", none, [], .values [[.named "a"]],
        [⟨some ⟨[.named "a"], none⟩, .update [.toColumn "b" (.named "c")]
          (some (.caseWhen none
            [(.subquery (.ofBody (.core (.ofColumns false [.expr e none]))), .named "d")] none))⟩], []⟩
    Draft.build (.finished (.insert (upsert (.raise .ignore)))) =
        .error (.of (.raiseOutsideTrigger .insert)) ∧
      .fixed "RAISE" ∉ (Statement.insert (upsert (.named "a"))).pieces := by
  intro upsert
  refine ⟨?_, ?_⟩
  · have h := raise_detected (.insert (upsert (.raise .ignore)))
    exact h.2.1 _ rfl (h.1.mp (by decide))
  · have h := raise_detected (.insert (upsert (.named "a")))
    exact (h.2.2 rfl).2 (.finished (.insert (upsert (.named "a")))) rfl

end SqliteSyntax
