import SqliteSyntax.Proofs.Nodes.Leaves
import SqliteSyntax.Proofs.Outside.Semicolons
import SqliteSyntax.Proofs.Quotes.StatementLeaves
import SqliteSyntax.Proofs.Reading.ReadBack
import SqliteSyntax.Proofs.Reading.Statements
import SqliteSyntax.Proofs.Rules.Sound

/-! # Sound statements with plain types are read back

What can be read of a node follows from its parts, its own rule and its types, one case for each kind of
node. A query is read at one depth more than the queries inside it, so a node is read at every depth
beyond its size (`Node.Plain.readable`). -/
namespace SqliteSyntax
set_option autoImplicit false

/-! ## Plain types -/

/-- The words that would be read as something else in the place of a type, all of them keywords of SQL:
those with which a constraint of a column begins, and the one that tells a conflict clause. -/
def typeStops : List String := "CONFLICT" :: ruleWords

/-- A plain word and no keyword that may stand where a type does. -/
def IsPlainType (t : String) : Prop := isWord t = true ∧ t ∉ typeStops

/-- Every type among the contents is a plain word. -/
def TypesPlain (leaves : List Leaf) : Prop := ∀ t, .verbatim t ∈ leaves → IsPlainType t

theorem IsPlainType.not_end {t : String} (h : IsPlainType t) : t ∉ ruleEnds := by
  intro hmem
  simp only [ruleEnds, List.mem_cons] at hmem
  rcases hmem with rfl | rfl | hmem
  · exact absurd h.1 (by decide)
  · exact absurd h.1 (by decide)
  · exact h.2 (List.mem_cons_of_mem _ hmem)

theorem TypesPlain.words {leaves : List Leaf} (h : TypesPlain leaves) : TypesAreWords leaves :=
  fun t ht => (h t ht).1

/-- A word that a lexer sees in a text is one of the grammar or a type, but for the signs and parentheses
that it makes itself. -/
theorem mem_of_mem_plainOf {word : String} (other : word ∉ ["-", "+", "(", ")"]) {ps : List Piece}
    (h : .fixed word ∈ plainOf ps) : .fixed word ∈ ps ∨ .verbatim word ∈ ps := by
  obtain ⟨p, hp, hw⟩ := List.mem_flatMap.mp h
  simp only [List.mem_cons, List.not_mem_nil, or_false, not_or] at other
  obtain ⟨minus, plus, opening, closing⟩ := other
  cases p with
  | fixed t =>
    obtain rfl := Piece.fixed.inj (List.mem_singleton.mp hw)
    exact .inl hp
  | verbatim t =>
    obtain rfl := Piece.fixed.inj (List.mem_singleton.mp hw)
    exact .inr hp
  | numeral digits =>
    rw [Piece.plain, plainNumeral] at hw
    split at hw <;> simp_all
  | _ => simp_all [Piece.plain]

/-- A lexer sees none of the words that the grammar does not write and no type is. -/
theorem TypesPlain.not_mem_plainOf {ps : List Piece} (h : TypesPlain (leavesOf ps)) {word : String}
    (lacks : .fixed word ∉ ps) (other : word ∉ ["-", "+", "(", ")"]) (plain : ¬ IsPlainType word) :
    .fixed word ∉ plainOf ps := by
  intro hm
  rcases mem_of_mem_plainOf other hm with hm | hm
  · exact lacks hm
  · exact plain (h word (List.mem_filterMap.mpr ⟨_, hm, rfl⟩))

/-! ## Parts that can be read -/

/-- The node can be read, and its queries have a property. A query has the property itself too. -/
def Node.ReadableBy (P : Select → Prop) : Node → Prop
  | .expr e => e.Readable P
  | .query q => P q ∧ q.Readable P
  | .body b => b.Readable P
  | .tree t => t.Readable P
  | .statement s => s.isExplain = false → s.moduleArguments = [] → s.PlainReadable P

def AllReadable (P : Select → Prop) (nodes : List Node) : Prop := ∀ m ∈ nodes, m.ReadableBy P

variable {P : Select → Prop}

namespace AllReadable
variable {a b : List Node}

theorem left (h : AllReadable P (a ++ b)) : AllReadable P a :=
  fun m hm => h m (List.mem_append_left b hm)

theorem right (h : AllReadable P (a ++ b)) : AllReadable P b :=
  fun m hm => h m (List.mem_append_right a hm)

theorem head {m : Node} (h : AllReadable P (m :: a)) : m.ReadableBy P := h m (List.mem_cons_self ..)

theorem tail {m : Node} (h : AllReadable P (m :: a)) : AllReadable P a :=
  fun m' hm => h m' (List.mem_cons_of_mem m hm)

theorem flatMap {α : Type} {f : α → List Node} {items : List α}
    (h : AllReadable P (items.flatMap f)) {x : α} (hx : x ∈ items) : AllReadable P (f x) :=
  fun m hm => h m (List.mem_flatMap_of_mem hx hm)

theorem map {α : Type} {f : α → Node} {items : List α} (h : AllReadable P (items.map f)) {x : α}
    (hx : x ∈ items) : (f x).ReadableBy P :=
  h (f x) (List.mem_map_of_mem hx)

theorem option {item : Option Expr} (h : AllReadable P (optionParts item)) :
    ∀ e ∈ item, e.Readable P :=
  fun _ he => h.map (Option.mem_toList.mpr he)

theorem rows {rows : List (List Expr)} (h : AllReadable P (rowParts rows)) :
    ∀ row ∈ rows, ∀ e ∈ row, e.Readable P :=
  fun _ hrow _ he => (h.flatMap hrow).map he

theorem columns {columns : List ResultColumn} (h : AllReadable P (columnParts columns)) :
    ∀ c ∈ columns, c.Readable P := by
  intro c hc
  have here := h.flatMap hc
  cases c with
  | expr value asName => exact here.head
  | star => trivial
  | tableStar table => trivial

theorem terms {terms : List OrderingTerm} (h : AllReadable P (termParts terms)) :
    ∀ t ∈ terms, t.Readable P :=
  fun _ ht => h.map ht

theorem indexed {columns : List IndexedColumn} (h : AllReadable P (indexedParts columns)) :
    ∀ c ∈ columns, c.Readable P :=
  fun _ hc => h.map hc

theorem source {source : Option FromTree} (h : AllReadable P (source.toList.map .tree)) :
    ∀ t ∈ source, t.Readable P :=
  fun _ ht => h.map (Option.mem_toList.mpr ht)

theorem withTables {withClause : Option WithClause} (listed : WithListed withClause)
    (h : AllReadable P (withParts withClause)) : ∀ w ∈ withClause, w.Readable P :=
  fun w hw => ⟨listed w hw, fun _ ht => ((h.flatMap (Option.mem_toList.mpr hw)).map ht).1⟩

theorem assignments {assignments : List Assignment} (sound : SetSound assignments)
    (h : AllReadable P (assignmentParts assignments)) : ∀ a ∈ assignments, a.Readable P :=
  fun a ha => ⟨sound.2 a ha, h.map ha⟩

end AllReadable

/-! ## Expressions, queries and table trees -/

theorem optionReadable_iff (item : Option Expr) : optionReadable P item ↔ ∀ e ∈ item, e.Readable P := by
  cases item <;> simp [optionReadable]

theorem branchesReadable_iff (branches : List (Expr × Expr)) :
    branchesReadable P branches ↔ ∀ b ∈ branches, b.1.Readable P ∧ b.2.Readable P := by
  induction branches with
  | nil => simp [branchesReadable]
  | cons b rest ih =>
    obtain ⟨condition, result⟩ := b
    rw [branchesReadable, ih, List.forall_mem_cons, and_assoc]

theorem Expr.readable_of_parts {e : Expr} (sound : e.Sound) (types : TypesPlain e.leaves)
    (h : AllReadable P e.parts) : e.Readable P := by
  cases e with
  | literal value => simp only [Readable]
  | column reference => simp only [Readable]
  | callStar f d => simp only [Readable]
  | raise action => simp only [Readable]
  | unary op a =>
    rw [Readable]
    exact h.head
  | nullTest test a =>
    rw [Readable]
    exact h.head
  | collate a c =>
    rw [Readable]
    exact h.head
  | cast a t =>
    rw [Readable]
    exact ⟨(types t (List.mem_append_right _ (List.mem_singleton.mpr rfl))).1, h.head⟩
  | existsRow n q =>
    rw [Readable]
    exact h.head.1
  | subquery q =>
    rw [Readable]
    exact h.head.1
  | binary op a b =>
    rw [Readable]
    exact ⟨h.head, h.tail.head⟩
  | between n a b c =>
    rw [Readable]
    exact ⟨h.head, h.tail.head, h.tail.tail.head⟩
  | inSelect n a q =>
    rw [Readable]
    exact ⟨h.head, h.tail.head.1⟩
  | inList n a items =>
    rw [Readable, listReadable_iff]
    exact ⟨h.head, fun e he => h.tail.map he⟩
  | pattern op n a b c =>
    rw [Readable, optionReadable_iff]
    exact ⟨h.head, h.tail.head, h.tail.tail.option⟩
  | call f d items =>
    rw [Readable, listReadable_iff]
    exact fun e he => h.map he
  | row items =>
    rw [Readable, listReadable_iff]
    exact fun e he => h.map he
  | caseWhen a bs c =>
    rw [Readable, optionReadable_iff, optionReadable_iff, branchesReadable_iff]
    refine ⟨sound, h.left.left.option, fun b hb => ?_, h.right.option⟩
    have both := h.left.right.flatMap hb
    exact ⟨both.head, both.tail.head⟩

theorem Select.readable_of_parts {q : Select} (sound : q.Sound) (h : AllReadable P q.parts) :
    q.Readable P where
  withClause := h.left.left.left.left.withTables sound.withListed
  body := h.left.left.left.right.map (List.mem_cons_self ..)
  compounds _ hc := h.left.left.left.right.map (List.mem_cons_of_mem _ (List.mem_map_of_mem hc))
  orderBy := h.left.left.right.terms
  limit := h.left.right.option
  offset := h.right.option

theorem SelectBody.readable_of_parts {b : SelectBody} (sound : b.Sound) (h : AllReadable P b.parts) :
    b.Readable P := by
  cases b with
  | core c =>
    exact ⟨h.left.left.left.left.columns, h.left.left.left.right.source, h.left.left.right.option,
      fun e he => h.left.right.map he, h.right.option⟩
  | values rows => exact ⟨sound.1, h.rows⟩

theorem FromTree.readable_of_parts {t : FromTree} (sound : t.Sound) (h : AllReadable P t.parts) :
    t.Readable P := by
  cases t with
  | table reference => simp only [Readable]
  | subquery q asName =>
    rw [Readable]
    exact h.head.1
  | function name items asName =>
    rw [Readable]
    exact fun e he => h.map he
  | join left op right constraint =>
    rw [Readable]
    refine ⟨h.head, h.tail.head, fun natural => (sound.kind natural).1, ?_⟩
    rintro e rfl
    exact h.tail.tail.head

/-! ## Changes of rows -/

theorem Upsert.readable_of_parts {u : Upsert} (sound : u.Sound) (h : AllReadable P u.parts) :
    u.Readable P where
  target t ht := by
    have parts := h.left.flatMap (Option.mem_toList.mpr ht)
    exact ⟨sound.target t ht, parts.left.indexed, parts.right.option⟩
  action := by
    have parts := h.right
    have assigned := sound.action
    cases hu : u.action with
    | nothing => trivial
    | update assignments filter =>
      rw [hu] at parts assigned
      exact ⟨assigned.1, parts.left.assignments assigned, parts.right.option⟩

theorem Select.quiet {q : Select} (types : TypesPlain q.leaves) : Quiet q.pieces :=
  TypesPlain.not_mem_plainOf (by rwa [q.leavesOf_pieces]) (q.lacks _ (by simp)) (by decide)
    fun h => h.2 (List.mem_cons_self ..)

theorem quiet_returning {columns : List ResultColumn} (types : TypesPlain (columnLeaves columns)) :
    Quiet (returningPieces columns) := by
  have lacks : Lacks statementWords (returningPieces columns) := by
    unfold returningPieces
    split
    · exact lacks_nil
    · simpa using columnPieces_lacks columns
  exact TypesPlain.not_mem_plainOf (by rwa [leavesOf_returning]) (lacks _ (by simp)) (by decide)
    fun h => h.2 (List.mem_cons_self ..)

theorem InsertSource.leaves_of_query? {source : InsertSource} {q : Select} (h : q ∈ source.query?) :
    q.leaves = source.leaves := by
  cases source with
  | values rows =>
    cases h
    simp [Select.ofBody, Select.leaves, withLeaves, SelectBody.leaves, compoundLeaves, termLeaves,
      optionLeaves, leaves]
  | select query =>
    cases h
    rfl
  | defaultValues => cases h

theorem Insert.readable_of_parts {i : Insert} (sound : i.Sound) (types : TypesPlain i.leaves)
    (rows : ∀ q ∈ i.source.query?, P q) (h : AllReadable P i.parts) : i.Readable P where
  withClause := h.left.left.left.withTables sound.withListed
  source q hq := by
    refine ⟨rows q hq, Select.quiet fun t ht => types t ?_⟩
    rw [InsertSource.leaves_of_query? hq] at ht
    exact List.mem_append_left _ (List.mem_append_left _ (List.mem_append_right _ ht))
  upserts u hu := Upsert.readable_of_parts (sound.upserts u hu) (h.left.right.flatMap hu)
  returning := h.right.columns
  quiet := quiet_returning fun t ht => types t (List.mem_append_right _ ht)

theorem Update.readable_of_parts {u : Update} (sound : u.Sound) (h : AllReadable P u.parts) :
    u.Readable P where
  withClause := h.left.left.left.left.left.left.left.withTables sound.withListed
  nonempty := sound.assignments.1
  assignments := h.left.left.left.left.left.left.right.assignments sound.assignments
  source := h.left.left.left.left.left.right.source
  tail := ⟨h.left.left.left.left.right.option, h.left.left.left.right.columns, h.left.left.right.terms,
    h.left.right.option, h.right.option⟩

theorem Delete.readable_of_parts {d : Delete} (sound : d.Sound) (h : AllReadable P d.parts) :
    d.Readable P where
  withClause := h.left.left.left.left.left.withTables sound.withListed
  tail := ⟨h.left.left.left.left.right.option, h.left.left.left.right.columns, h.left.left.right.terms,
    h.left.right.option, h.right.option⟩

/-! ## Schema objects -/

theorem ColumnRule.readable_of_parts {rule : ColumnRule} (h : AllReadable P rule.parts) :
    rule.Readable P := by
  cases rule with
  | check condition => exact h.head
  | generated value storage => exact h.head
  | default value =>
    cases value with
    | literal value => trivial
    | expr value => exact h.head
  | _ => trivial

theorem ColumnDef.readable_of_parts {c : ColumnDef} (types : TypesPlain c.leaves)
    (h : AllReadable P c.parts) : c.Readable P where
  typeName t ht := by
    have leaf : .verbatim t ∈ c.leaves := by
      refine List.mem_append_left _ (List.mem_cons_of_mem _ ?_)
      exact List.mem_map_of_mem (Option.mem_toList.mpr ht)
    exact (types t leaf).not_end
  rules constraint hc := ColumnRule.readable_of_parts (h.flatMap hc)

theorem TableRule.readable_of_parts {rule : TableRule} (sound : rule.Sound)
    (h : AllReadable P rule.parts) : rule.Readable P := by
  cases rule with
  | primaryKey columns conflict => exact ⟨sound, h.indexed⟩
  | unique columns conflict => exact ⟨sound, h.indexed⟩
  | check condition => exact h.head
  | foreignKey columns key => exact sound

theorem TableBody.readable_of_parts {b : TableBody} (sound : b.Sound) (types : TypesPlain b.leaves)
    (h : AllReadable P b.parts) : b.Readable P := by
  cases b with
  | definitions columns constraints withoutRowid strict =>
    refine ⟨sound.1, fun c hc => ?_, fun c hc => ?_⟩
    · refine ColumnDef.readable_of_parts (fun t ht => types t ?_) (h.left.flatMap hc)
      exact List.mem_append_left _ (List.mem_flatMap_of_mem hc ht)
    · exact TableRule.readable_of_parts (sound.2.1 c hc) (h.right.flatMap hc)
  | asSelect q => exact h.head.1

/-! ## Statements -/

/-- A statement that may be a step is a query or a change of rows. -/
theorem Statement.changeReadable_of_step {s : Statement} (step : s.checkStep = .ok ())
    (h : (Node.statement s).ReadableBy P) : s.ChangeReadable P := by
  cases s with
  | select q => exact h rfl rfl
  | insert i => exact h rfl rfl
  | update u => exact h rfl rfl
  | delete d => exact h rfl rfl
  | _ => cases step

/-- A change of rows writes no semicolon. -/
theorem Statement.unbounded_of_step {s : Statement} (step : s.checkStep = .ok ())
    (types : TypesPlain s.leaves) : Unbounded s.pieces := by
  have unended : Unended s.pieces := by
    cases s with
    | select q =>
      rw [pieces]
      exact q.unended
    | insert i =>
      rw [pieces]
      exact i.unended
    | update u =>
      rw [pieces]
      exact u.unended
    | delete d =>
      rw [pieces]
      exact d.unended
    | _ => cases step
  exact TypesPlain.not_mem_plainOf (by rwa [s.leavesOf_pieces]) (unended _ (by simp)) (by decide)
    fun h => absurd h.1 (by decide)

theorem TableChange.readable_of_parts {change : TableChange} (types : TypesPlain change.leaves)
    (h : AllReadable P change.parts) : change.Readable P := by
  cases change with
  | addColumn column => exact ColumnDef.readable_of_parts types h
  | _ => trivial

/-- What a node is read by: its rules hold throughout, and its types are plain words. -/
structure Node.Plain (n : Node) : Prop where
  sound : n.SoundThroughout
  types : TypesPlain n.leaves

theorem Node.Plain.part {m n : Node} (h : n.Plain) (hm : m ∈ n.parts) : m.Plain :=
  ⟨(soundThroughout_iff.mp h.sound).2 m hm, fun t ht => h.types t (leaves_subset hm ht)⟩

/-- A statement that is no `EXPLAIN` can be read if its parts can, and the rows that it inserts. -/
theorem Statement.readable_of_parts {s : Statement} (plain : (Node.statement s).Plain)
    (h : AllReadable P s.parts) (rows : ∀ i, s = .insert i → ∀ q ∈ i.source.query?, P q) :
    (Node.statement s).ReadableBy P := by
  intro explains arguments
  have sound : s.Sound := (Node.soundThroughout_iff.mp plain.sound).1
  have types : TypesPlain s.leaves := plain.types
  cases s with
  | select q => exact h.head.2
  | insert i => exact Insert.readable_of_parts sound types (rows i rfl) h
  | update u => exact Update.readable_of_parts sound h
  | delete d => exact Delete.readable_of_parts sound h
  | createTable t =>
    exact TableBody.readable_of_parts sound.body (fun v hv => types v (List.mem_append_right _ hv)) h
  | createIndex i => exact ⟨sound, h.left.indexed, h.right.option⟩
  | createView v => exact h.head.1
  | createTrigger header steps =>
    refine ⟨h.left.option, fun step hs => ?_⟩
    have ok := sound.2 step hs
    have inner : (Node.statement step).Plain :=
      plain.part (List.mem_append_right _ (List.mem_map_of_mem hs))
    exact ⟨changeReadable_of_step ok (h.right.map hs), unbounded_of_step ok inner.types⟩
  | createVirtualTable t => exact arguments
  | alterTable table change =>
    exact TableChange.readable_of_parts (fun v hv => types v (List.mem_append_right _ hv)) h
  | attach file schema => exact h.head
  | vacuum schema file => exact h.option
  | explain queryPlan t => exact Bool.noConfusion explains
  | _ => trivial

/-! ## Every depth -/

theorem Select.isRead_next {depth : Nat} {q : Select} (types : TypesPlain q.leaves)
    (h : q.Readable (Select.IsRead (Select.read depth))) : q.IsRead (Select.read (depth + 1)) where
  words := verbatimWord_of_leaves (by rw [q.leavesOf_pieces]; exact types.words)
  reads := Select.reads_next h

/-- Rows are read as a query if their values are. -/
theorem InsertSource.isRead_next {depth : Nat} {columns : List String} {source : InsertSource}
    (sound : source.Sound columns) (types : TypesPlain source.leaves)
    (here : AllReadable (Select.IsRead (Select.read (depth + 1))) source.parts)
    (below : AllReadable (Select.IsRead (Select.read depth)) source.parts) :
    ∀ q ∈ source.query?, q.IsRead (Select.read (depth + 1)) := by
  intro q hq
  cases source with
  | values rows =>
    have values : (SelectBody.values rows).Readable (Select.IsRead (Select.read depth)) :=
      ⟨sound.1.1, below.rows⟩
    rw [← InsertSource.leaves_of_query? hq] at types
    cases hq
    exact Select.isRead_next types ⟨by simp [Select.ofBody], values, by simp [Select.ofBody],
      by simp [Select.ofBody], by simp [Select.ofBody], by simp [Select.ofBody]⟩
  | select query =>
    cases hq
    exact here.head.1
  | defaultValues => cases hq

/-- A sound node with plain types is read by the readers of every depth beyond its size. -/
theorem Node.Plain.readable {n : Node} (h : n.Plain) (depth : Nat) (size : n.size < depth) :
    n.ReadableBy (Select.IsRead (Select.read depth)) := by
  induction n using Node.induction generalizing depth with
  | step n ih =>
    have sound := (soundThroughout_iff.mp h.sound).1
    -- The parts are read one level further down too, where the queries among them are taken.
    have parts (d : Nat) (hd : n.size ≤ d) : AllReadable (Select.IsRead (Select.read d)) n.parts := by
      intro m hm
      exact ih m hm (h.part hm) d (Nat.lt_of_lt_of_le (size_lt_of_mem_parts n m hm) hd)
    have here := parts depth (Nat.le_of_lt size)
    obtain ⟨d, rfl⟩ := Nat.exists_eq_add_one_of_ne_zero (Nat.ne_zero_of_lt size)
    have below := parts d (Nat.le_of_lt_succ size)
    cases n with
    | expr e => exact Expr.readable_of_parts sound h.types here
    | query q =>
      exact ⟨Select.isRead_next h.types (Select.readable_of_parts sound below),
        Select.readable_of_parts sound here⟩
    | body b => exact SelectBody.readable_of_parts sound here
    | tree t => exact FromTree.readable_of_parts sound here
    | statement s =>
      refine Statement.readable_of_parts h here fun i hi => ?_
      subst hi
      have source : TypesPlain i.source.leaves := fun t ht =>
        h.types t (List.mem_append_left _ (List.mem_append_left _ (List.mem_append_right _ ht)))
      exact InsertSource.isRead_next sound.source source here.left.left.right below.left.left.right

end SqliteSyntax
