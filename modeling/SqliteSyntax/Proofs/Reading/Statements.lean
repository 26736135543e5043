import SqliteSyntax.Proofs.Reading.Objects

/-! # Statements are read back

The first word tells the kind of a statement; after common tables, the word that follows them does. The
steps of a trigger end at semicolons, and each is read as a whole. The reader of a virtual table stops
after the name of its module. -/
namespace SqliteSyntax
set_option autoImplicit false

/-! ## What must hold of a statement -/

section Readable
variable (P : Select → Prop)

/-- The statement is a query or a change of rows and can be read. -/
def Statement.ChangeReadable : Statement → Prop
  | .select q => q.Readable P
  | .insert i => i.Readable P
  | .update u => u.Readable P
  | .delete d => d.Readable P
  | _ => False

/-- A lexer sees no semicolon in the text. -/
def Unbounded (ps : List Piece) : Prop := .fixed ";" ∉ plainOf ps

/-- The statement is no `EXPLAIN` and can be read. -/
def Statement.PlainReadable : Statement → Prop
  | .createTable t => t.body.Readable P
  | .createIndex i => i.Readable P
  | .createView v => P v.query
  | .createTrigger header steps =>
    (∀ e ∈ header.condition, e.Readable P) ∧ ∀ s ∈ steps, s.ChangeReadable P ∧ Unbounded s.pieces
  | .createVirtualTable t => t.arguments = []
  | .alterTable _ change => change.Readable P
  | .attach file _ => file.Readable P
  | .vacuum _ file => ∀ e ∈ file, e.Readable P
  | .explain .. => False
  | .drop _ | .begin _ | .commit | .rollback _ | .savepoint _ | .release _ | .detach _ | .reindex _
  | .analyze _ => True
  | s => s.ChangeReadable P

def Statement.Readable : Statement → Prop
  | .explain _ s => s.PlainReadable P
  | s => s.PlainReadable P

end Readable

/-- The arguments of the virtual table that the statement, explained or not, makes. -/
def Statement.moduleArguments : Statement → List String
  | .createVirtualTable t => t.arguments
  | .explain _ s => s.moduleArguments
  | _ => []

/-- The statement, explained or not, makes a virtual table. -/
def Statement.endsInModule : Statement → Bool
  | .createVirtualTable _ => true
  | .explain _ s => s.endsInModule
  | _ => false

/-! ## Readers -/

/-- What is read, as a whole, from the text before a semicolon; the semicolon and a space follow. -/
def Reader.ended {α : Type} (read : Reader α) : Reader α := fun ps =>
  let front := ps.takeWhile (· ≠ .fixed ";")
  match read front with
  | some (a, []) => (after [.fixed ";", .space] (ps.drop front.length)).map fun rest => (a, rest)
  | _ => none

/-- A part after a space, if a name stands after it. -/
def Reader.afterSpace {α : Type} (read : Reader α) : Reader (Option α) := fun ps =>
  match ps with
  | .space :: .name n :: rest => (read (.name n :: rest)).map fun r => (some r.1, r.2)
  | _ => some (none, ps)

namespace Statement
section Readers
variable (query : Reader Select)

/-- The readers of queries and changes of rows after their common tables, by their first words. -/
def changeReaders (withClause : Option WithClause) : List (String × Reader Statement) :=
  [("SELECT", select <$> Select.readAfter query withClause),
    ("VALUES", select <$> Select.readAfter query withClause),
    ("INSERT", insert <$> Insert.readAfter query withClause),
    ("REPLACE", insert <$> Insert.readAfter query withClause),
    ("UPDATE", update <$> Update.readAfter query withClause),
    ("DELETE", delete <$> Delete.readAfter query withClause)]

/-- A query or a change of rows. -/
def readChange : Reader Statement := do
  let withClause ← WithClause.read query
  Reader.byWord (changeReaders query withClause)

/-- A trigger, with its steps between `BEGIN` and `END`. -/
def readTrigger (temporary : Bool) : Reader Statement := do
  let header ← TriggerHeader.readAfter query temporary
  Reader.fixed (lead ["BEGIN"])
  let steps ← Reader.many (Reader.ended (readChange query))
  Reader.fixed [.fixed "END"]
  return createTrigger header steps

/-- The readers of objects after `CREATE` and `TEMP`, by their first words. -/
def objectReaders (temporary : Bool) : List (String × Reader Statement) :=
  [("TABLE", createTable <$> CreateTable.readAfter query temporary),
    ("UNIQUE", createIndex <$> CreateIndex.readAfter query),
    ("INDEX", createIndex <$> CreateIndex.readAfter query),
    ("VIEW", createView <$> CreateView.readAfter query temporary),
    ("TRIGGER", readTrigger query temporary),
    ("VIRTUAL", createVirtualTable <$> CreateVirtualTable.readHead)]

def readCreate : Reader Statement := do
  Reader.fixed [.fixed "CREATE", .space]
  let temporary ← Reader.flag [.fixed "TEMP", .space]
  Reader.byWord (objectReaders query temporary)

/-- The words with which queries and changes of rows begin. -/
def changeWords : List String := ["WITH", "SELECT", "VALUES", "INSERT", "REPLACE", "UPDATE", "DELETE"]

/-- The readers of statements that are no `EXPLAIN`, by their first words. -/
def plainReaders : List (String × Reader Statement) :=
  changeWords.map (·, readChange query) ++
    [("CREATE", readCreate query),
      ("ALTER", do
        Reader.fixed (phrase ["ALTER", "TABLE"] ++ [.space])
        let table ← QualifiedName.read
        Reader.fixed [.space]
        let change ← TableChange.read query
        return alterTable table change),
      ("DROP", drop <$> DropObject.read),
      ("BEGIN", do
        Reader.fixed [.fixed "BEGIN"]
        let mode ← Reader.choice TransactionMode
        Reader.fixed [.space, .fixed "TRANSACTION"]
        return begin mode),
      ("COMMIT", do
        Reader.fixed [.fixed "COMMIT"]
        return commit),
      ("ROLLBACK", do
        Reader.fixed [.fixed "ROLLBACK"]
        let name ← Reader.optionally (lead ["TO", "SAVEPOINT"]) Reader.name
        return rollback name),
      ("SAVEPOINT", do
        Reader.fixed [.fixed "SAVEPOINT", .space]
        let name ← Reader.name
        return savepoint name),
      ("RELEASE", do
        Reader.fixed (phrase ["RELEASE", "SAVEPOINT"] ++ [.space])
        let name ← Reader.name
        return release name),
      ("ATTACH", do
        Reader.fixed (phrase ["ATTACH", "DATABASE"] ++ [.space])
        let file ← Expr.read query
        Reader.fixed (lead ["AS"])
        let schema ← Reader.name
        return attach file schema),
      ("DETACH", do
        Reader.fixed (phrase ["DETACH", "DATABASE"] ++ [.space])
        let schema ← Reader.name
        return detach schema),
      ("VACUUM", do
        Reader.fixed [.fixed "VACUUM"]
        let schema ← Reader.afterSpace Reader.name
        let file ← Reader.optionally (lead ["INTO"]) (Expr.read query)
        return vacuum schema file),
      ("REINDEX", do
        Reader.fixed [.fixed "REINDEX"]
        let target ← Reader.afterSpace QualifiedName.read
        return reindex target),
      ("ANALYZE", do
        Reader.fixed [.fixed "ANALYZE"]
        let target ← Reader.afterSpace QualifiedName.read
        return analyze target)]

/-- A statement, explained or not. -/
def read : Reader Statement := Reader.byWord
  (("EXPLAIN", do
      Reader.fixed [.fixed "EXPLAIN"]
      let queryPlan ← Reader.flag (.space :: phrase ["QUERY", "PLAN"])
      Reader.fixed [.space]
      let s ← Reader.byWord (plainReaders query)
      return explain queryPlan s) :: plainReaders query)

end Readers
end Statement

/-! ## Parts that may be absent -/

section Parts
variable {α : Type} {read : Reader α}

theorem takeWhile_append_of_not_mem {β : Type} [DecidableEq β] {b : β} {bs : List β} (h : b ∉ bs)
    (k : List β) : (bs ++ b :: k).takeWhile (· ≠ b) = bs := by
  rw [List.takeWhile_append_of_pos]
  · simp
  · intro c hc
    rw [decide_eq_true_eq]
    rintro rfl
    exact h hc

theorem Reads.ended {ps : List Piece} {a : α} (h : Reads read (Begins []) ps a)
    (unbounded : .fixed ";" ∉ ps) (ok : List Piece → Prop) :
    Reads (Reader.ended read) ok (ps ++ [.fixed ";", .space]) a := by
  intro k _
  have whole := h [] .ending
  rw [List.append_nil] at whole
  have text : ps ++ [.fixed ";", .space] ++ k = ps ++ .fixed ";" :: .space :: k := by simp
  have left : (ps ++ .fixed ";" :: .space :: k).drop ps.length = .fixed ";" :: .space :: k :=
    List.drop_left
  rw [text, Reader.ended, takeWhile_append_of_not_mem unbounded]
  simp only [whole, left]
  rfl

theorem Reads.afterSpace {ends : List String} {shown : α → List Piece}
    (h : ∀ a, Reads read (Begins ends) (shown a) a) (opens : ∀ a k, OpensName (shown a ++ k))
    (item : Option α) :
    Reads (Reader.afterSpace read) (Begins ends) (spaced (item.map shown)) item := by
  intro k hk
  cases item with
  | none =>
    cases hk with
    | ending => rfl
    | mark _ _ => rfl
    | word _ _ => rfl
  | some a =>
    obtain ⟨n, rest, heq⟩ := opens a k
    show Reader.afterSpace read (.space :: (shown a ++ k)) = _
    have inner := h a k hk
    rw [heq] at inner ⊢
    show (read (.name n :: rest)).map _ = _
    rw [inner]
    rfl

/-- What is told by its first word begins with one that has a reader. -/
theorem Reader.byWord_begins {readers : List (String × Reader α)} {ps : List Piece}
    {r : α × List Piece} (h : Reader.byWord readers ps = some r) :
    ∃ word rest, ps = .fixed word :: rest ∧ readers.lookup word ≠ none := by
  unfold Reader.byWord at h
  split at h
  · next word rest =>
    refine ⟨word, rest, rfl, fun none => ?_⟩
    rw [none] at h
    cases h
  · cases h

theorem Reads.byWord_cons {readers : List (String × Reader α)} {ok : List Piece → Prop}
    {ps : List Piece} {a : α} (h : Reads (Reader.byWord readers) ok ps a) {first : String}
    (new : readers.lookup first = none) :
    Reads (Reader.byWord ((first, read) :: readers)) ok ps a := by
  intro k hk
  have whole := h k hk
  obtain ⟨word, rest, heq, known⟩ := Reader.byWord_begins whole
  have other : (word == first) = false := by
    rw [beq_eq_false_iff_ne]
    rintro rfl
    exact known new
  rw [heq] at whole ⊢
  show (List.lookup word ((first, read) :: readers)).bind _ = _
  rw [List.lookup_cons, other]
  exact whole

end Parts

/-! ## Queries and changes of rows -/

variable {query : Reader Select}

namespace Statement

theorem withPieces_opens (w : WithClause) (k : List Piece) :
    ∃ rest, plainOf (withPieces (some w)) ++ k = .fixed "WITH" :: rest := by
  obtain ⟨recursive, tables⟩ := w
  cases recursive <;> exact ⟨_, rfl⟩

/-- What is read as a whole and begins with one of the words of queries and changes of rows. -/
structure ReadsChange (query : Reader Select) (ps : List Piece) (s : Statement) : Prop where
  reads : Reads (readChange query) (Begins []) ps s
  opens : ∃ word ∈ changeWords, ∃ rest, ps = .fixed word :: rest

theorem ReadsChange.withTables {withClause : Option WithClause}
    (h : ∀ w ∈ withClause, w.Readable (Select.IsRead query)) (word : String)
    {read : Reader Statement} {ps : List Piece} {s : Statement}
    (found : (changeReaders query (canonicalWith withClause)).lookup word = some read)
    (known : word ∈ changeWords.erase "WITH") (begins : ∃ rest, ps = .fixed word :: rest)
    (inner : Reads read (Begins []) ps s) :
    ReadsChange query (plainOf (withPieces withClause) ++ ps) s := by
  constructor
  · refine .bind (WithClause.reads h) (fun k _ => ?_) (.byWord word found begins inner)
    obtain ⟨rest, rfl⟩ := begins
    refine after_ne (fun same => ?_) _ _
    rw [← Piece.fixed.inj same] at known
    exact absurd known (by decide)
  · cases withClause with
    | none => exact ⟨word, List.erase_subset known, begins⟩
    | some w => exact ⟨"WITH", by decide, withPieces_opens w ps⟩

theorem reads_select {q : Select} (h : q.Readable (Select.IsRead query)) :
    ReadsChange query (plainOf q.pieces) (select q.canonical) := by
  have inner := ((Select.reads_after h).weaken fun k (hk : Begins [] k) =>
    hk.mono (List.nil_subset _)).map select
  obtain ⟨word, hw, begins⟩ := q.opens_after
  rw [q.text]
  simp only [List.mem_cons, List.not_mem_nil, or_false] at hw
  rcases hw with rfl | rfl
  · exact .withTables h.withClause "SELECT" rfl (by decide) begins inner
  · exact .withTables h.withClause "VALUES" rfl (by decide) begins inner

theorem reads_insert {i : Insert} (h : i.Readable (Select.IsRead query)) :
    ReadsChange query (plainOf i.pieces) (insert i.canonical) := by
  have inner := (Insert.reads h).map insert
  have begins {word : String} {more : List String} (hv : Phrase.words i.verb = word :: more) :
      ∃ rest, i.afterWith = .fixed word :: rest := by
    obtain ⟨rest, heq⟩ := phrase_cons word more
    rw [Insert.afterWith, Phrase.pieces, hv, heq]
    exact ⟨_, rfl⟩
  rw [i.text]
  cases hv : i.verb with
  | insert =>
    exact .withTables h.withClause "INSERT" rfl (by decide) (begins (by rw [hv]; rfl)) inner
  | replace =>
    exact .withTables h.withClause "REPLACE" rfl (by decide) (begins (by rw [hv]; rfl)) inner
  | insertOr action =>
    exact .withTables h.withClause "INSERT" rfl (by decide) (begins (by rw [hv]; rfl)) inner

theorem reads_change {s : Statement} (h : s.ChangeReadable (Select.IsRead query)) :
    ReadsChange query (plainOf s.pieces) s.canonical := by
  cases s with
  | select q =>
    rw [pieces, canonical]
    exact reads_select h
  | insert i =>
    rw [pieces, canonical]
    exact reads_insert h
  | update u =>
    rw [pieces, canonical, u.text]
    exact .withTables h.withClause "UPDATE" rfl (by decide) ⟨_, rfl⟩ ((Update.reads h).map update)
  | delete d =>
    rw [pieces, canonical, d.text]
    exact .withTables h.withClause "DELETE" rfl (by decide) ⟨_, rfl⟩ ((Delete.reads h).map delete)
  | _ => exact h.elim

theorem plainReaders_change : ∀ word ∈ changeWords,
    (plainReaders query).lookup word = some (readChange query) := by
  intro word hw
  simp only [changeWords, List.mem_cons, List.not_mem_nil, or_false] at hw
  rcases hw with rfl | rfl | rfl | rfl | rfl | rfl | rfl <;> rfl

/-! ## Objects -/

theorem reads_create {temporary : Bool} (word : String) {read : Reader Statement}
    {ok : List Piece → Prop} {ps : List Piece} {s : Statement}
    (found : (objectReaders query temporary).lookup word = some read) (object : word ≠ "TEMP")
    (begins : ∃ rest, ps = .fixed word :: rest) (inner : Reads read ok ps s) :
    Reads (Reader.byWord (plainReaders query)) ok (creating temporary ++ ps) s := by
  have flag : Reads (Reader.flag [.fixed "TEMP", .space])
      (fun k => after [.fixed "TEMP", .space] k = none)
      (onlyIf temporary [.fixed "TEMP", .space]) temporary :=
    Reader.flag_onlyIf (fun _ hk => hk) temporary
  have whole : Reads (readCreate query) ok (creating temporary ++ ps) s := by
    rw [creating, List.append_assoc]
    refine .headed _ (.bind flag (fun k _ => ?_) (.byWord word found begins inner))
    obtain ⟨rest, rfl⟩ := begins
    exact after_ne (fun same => object (Piece.fixed.inj same).symm) _ _
  exact .byWord "CREATE" rfl ⟨_, rfl⟩ whole

/-- The word behind `CREATE` tells an index from one that is unique. -/
theorem reads_createIndex {i : CreateIndex} (h : (createIndex i).PlainReadable (Select.IsRead query)) :
    Reads (Reader.byWord (plainReaders query)) (Begins []) (plainOf (createIndex i).pieces)
      (createIndex i).canonical := by
  have inner := (CreateIndex.reads h).map createIndex
  rw [pieces, canonical, i.text]
  cases hu : i.unique with
  | false =>
    refine reads_create "INDEX" rfl (by decide) ?_ inner
    rw [CreateIndex.afterCreate, hu]
    exact ⟨_, rfl⟩
  | true =>
    refine reads_create "UNIQUE" rfl (by decide) ?_ inner
    rw [CreateIndex.afterCreate, hu]
    exact ⟨_, rfl⟩

theorem canonicalSteps_eq (steps : List Statement) : canonicalSteps steps = steps.map canonical := by
  induction steps with
  | nil => rw [canonicalSteps, List.map_nil]
  | cons s rest ih => rw [canonicalSteps, List.map_cons, ih]

theorem plainOf_steps (steps : List Statement) : plainOf (stepPieces steps) =
    steps.flatMap fun s => plainOf s.pieces ++ [.fixed ";", .space] := by
  induction steps with
  | nil => rfl
  | cons s rest ih =>
    rw [stepPieces, plainOf_append, plainOf_fixed, plainOf_space, ih, List.flatMap_cons,
      List.append_assoc]
    rfl

theorem reads_steps {steps : List Statement}
    (h : ∀ s ∈ steps, s.ChangeReadable (Select.IsRead query) ∧ Unbounded s.pieces) :
    Reads (Reader.many (Reader.ended (readChange query))) (fun k => ∃ rest, k = .fixed "END" :: rest)
      (plainOf (stepPieces steps)) (canonicalSteps steps) := by
  rw [plainOf_steps, canonicalSteps_eq]
  refine .many (fun s hs => (reads_change (h s hs).1).reads.ended (h s hs).2 fun _ => True)
    (fun s _ => ?_) (fun _ _ _ => trivial) (fun _ _ => trivial) ?_
  · exact List.append_ne_nil_of_right_ne_nil _ (List.cons_ne_nil _ _)
  · rintro k ⟨rest, rfl⟩
    have front : (Piece.fixed "END" :: rest).takeWhile (· ≠ .fixed ";") =
        .fixed "END" :: rest.takeWhile (· ≠ .fixed ";") := List.takeWhile_cons_of_pos (by decide)
    rw [Reader.ended, front]
    rfl

theorem reads_trigger {header : TriggerHeader} {steps : List Statement}
    (condition : ∀ e ∈ header.condition, e.Readable (Select.IsRead query))
    (h : ∀ s ∈ steps, s.ChangeReadable (Select.IsRead query) ∧ Unbounded s.pieces) :
    Reads (readTrigger query header.temporary) (Begins [])
      (header.afterCreate ++ (lead ["BEGIN"] ++ (plainOf (stepPieces steps) ++ [.fixed "END"])))
      (createTrigger header.canonical (canonicalSteps steps)) :=
  .bind (TriggerHeader.reads condition) (fun _ _ => .word (by decide) _) (.headed _
    (.bind (reads_steps h) (fun _ _ => ⟨_, rfl⟩) ((Reads.fixed [.fixed "END"] _).last _)))

theorem createTrigger_text (header : TriggerHeader) (steps : List Statement) :
    plainOf (createTrigger header steps).pieces = creating header.temporary ++ (header.afterCreate ++
      (lead ["BEGIN"] ++ (plainOf (stepPieces steps) ++ [.fixed "END"]))) := by
  rw [pieces]
  simp only [plainOf_append, plainOf_space, plainOf_fixed, header.text, List.append_assoc,
    List.cons_append]
  rfl

/-! ## Single calls -/

theorem reads_alter {table : QualifiedName} {change : TableChange}
    (h : change.Readable (Select.IsRead query)) :
    Reads (Reader.byWord (plainReaders query)) (Begins []) (plainOf (alterTable table change).pieces)
      (alterTable table change).canonical := by
  have text : plainOf (alterTable table change).pieces = (phrase ["ALTER", "TABLE"] ++ [.space]) ++
      (table.pieces ++ ([.space] ++ plainOf change.pieces)) := by
    rw [pieces]
    simp only [plainOf_append, plainOf_phrase, plainOf_space, plainOf_qualifiedName,
      List.append_assoc, List.cons_append, List.nil_append]
  have name : Reads QualifiedName.read (Begins ["RENAME", "ADD", "DROP"]) table.pieces table :=
    table.reads (by decide)
  rw [text, canonical]
  refine .byWord "ALTER" rfl ⟨_, rfl⟩ (.headed _ (.bind name (fun k _ => ?_)
    (.headed _ ((TableChange.reads h).last _))))
  cases change <;> exact .word (by decide) _

theorem reads_begin (mode : Option TransactionMode) :
    Reads (Reader.byWord (plainReaders query)) (Begins []) (plainOf (begin mode).pieces)
      (begin mode).canonical := by
  have text : plainOf (begin mode).pieces =
      [.fixed "BEGIN"] ++ (Phrase.optional mode ++ [.space, .fixed "TRANSACTION"]) := by
    rw [pieces, List.cons_append, plainOf_fixed, plainOf_append, plainOf_optional]
    rfl
  have choice : Reads (Reader.choice TransactionMode) (Begins ["TRANSACTION"])
      (Phrase.optional mode) mode := .choice TransactionMode.distinct (by decide) mode
  rw [text, canonical]
  exact .byWord "BEGIN" rfl ⟨_, rfl⟩ (.headed _ (.bind choice (fun k _ => .word (by decide) _)
    ((Reads.fixed [.space, .fixed "TRANSACTION"] _).last _)))

theorem reads_rollback (name : Option String) :
    Reads (Reader.byWord (plainReaders query)) (Begins []) (plainOf (rollback name).pieces)
      (rollback name).canonical := by
  have text : plainOf (rollback name).pieces =
      [.fixed "ROLLBACK"] ++ clause ["TO", "SAVEPOINT"] (name.map fun n => [.name n]) := by
    rw [pieces, plainOf_fixed, plainOf_clause, Option.map_map]
    rfl
  have savepoint : Reads (Reader.optionally (lead ["TO", "SAVEPOINT"]) Reader.name) (Begins [])
      (clause ["TO", "SAVEPOINT"] (name.map fun n => [.name n])) (name.map id) :=
    .clause (fun n _ => .name n _) (by decide) ["SAVEPOINT"]
  rw [Option.map_id] at savepoint
  rw [text, canonical]
  exact .byWord "ROLLBACK" rfl ⟨_, rfl⟩ (.headed _ (savepoint.last _))

theorem reads_attach {file : Expr} (h : file.Readable (Select.IsRead query)) (schema : String) :
    Reads (Reader.byWord (plainReaders query)) (Begins []) (plainOf (attach file schema).pieces)
      (attach file schema).canonical := by
  have text : plainOf (attach file schema).pieces = (phrase ["ATTACH", "DATABASE"] ++ [.space]) ++
      (plainOf file.bare ++ (lead ["AS"] ++ [.name schema])) := by
    rw [pieces]
    simp only [plainOf_append, plainOf_phrase, plainOf_space, List.append_assoc, List.cons_append,
      List.nil_append]
    rfl
  rw [text, canonical]
  exact .byWord "ATTACH" rfl ⟨_, rfl⟩ (.headed _ (.bind (Expr.reads h)
    (fun k _ => .word (by decide) _) (.headed _ ((Reads.name schema _).last _))))

theorem reads_vacuum (schema : Option String) {file : Option Expr}
    (h : ∀ e ∈ file, e.Readable (Select.IsRead query)) :
    Reads (Reader.byWord (plainReaders query)) (Begins []) (plainOf (vacuum schema file).pieces)
      (vacuum schema file).canonical := by
  have text : plainOf (vacuum schema file).pieces = [.fixed "VACUUM"] ++
      (spaced (schema.map fun n => [.name n]) ++ plainOf (clause ["INTO"] (file.map Expr.bare))) := by
    rw [pieces, List.cons_append, plainOf_fixed, plainOf_append, plainOf_spaced, Option.map_map]
    rfl
  have named : Reads (Reader.afterSpace Reader.name) (Begins ["INTO"])
      (spaced (schema.map fun n => [.name n])) schema :=
    .afterSpace (fun n => .name n _) (fun n k => ⟨n, k, rfl⟩) schema
  have clause : Reads (Reader.optionally (lead ["INTO"]) (Expr.read query)) (Begins [])
      (plainOf (clause ["INTO"] (file.map Expr.bare))) (file.map Expr.canonical) :=
    .exprClause h (by decide) (by decide)
  rw [text, canonical]
  exact .byWord "VACUUM" rfl ⟨_, rfl⟩ (.headed _ (.bind named
    (fun k hk => hk.exprClause "INTO" file) (clause.last _)))

theorem reads_target (target : Option QualifiedName) :
    Reads (Reader.afterSpace QualifiedName.read) (Begins [])
      (spaced (target.map QualifiedName.pieces)) target :=
  .afterSpace (fun n => n.reads (by decide)) QualifiedName.opens target

theorem plainOf_target (target : Option QualifiedName) :
    plainOf (spaced (target.map QualifiedName.pieces)) = spaced (target.map QualifiedName.pieces) := by
  cases target with
  | none => rfl
  | some n => rw [Option.map_some, plainOf_spaced, Option.map_some, plainOf_qualifiedName]

theorem reads_reindex (target : Option QualifiedName) :
    Reads (Reader.byWord (plainReaders query)) (Begins []) (plainOf (reindex target).pieces)
      (reindex target).canonical := by
  have text : plainOf (reindex target).pieces =
      [.fixed "REINDEX"] ++ spaced (target.map QualifiedName.pieces) := by
    rw [pieces, plainOf_fixed, plainOf_target]
    rfl
  rw [text, canonical]
  exact .byWord "REINDEX" rfl ⟨_, rfl⟩ (.headed _ ((reads_target target).last _))

theorem reads_analyze (target : Option QualifiedName) :
    Reads (Reader.byWord (plainReaders query)) (Begins []) (plainOf (analyze target).pieces)
      (analyze target).canonical := by
  have text : plainOf (analyze target).pieces =
      [.fixed "ANALYZE"] ++ spaced (target.map QualifiedName.pieces) := by
    rw [pieces, plainOf_fixed, plainOf_target]
    rfl
  rw [text, canonical]
  exact .byWord "ANALYZE" rfl ⟨_, rfl⟩ (.headed _ ((reads_target target).last _))

theorem reads_drop (object : DropObject) :
    Reads (Reader.byWord (plainReaders query)) (Begins []) (plainOf (drop object).pieces)
      (drop object).canonical := by
  have text : plainOf object.pieces = object.pieces := by
    rw [object.text]
    simp only [plainOf_append, plainOf_choice, plainOf_onlyIf, plainOf_space, plainOf_phrase,
      plainOf_qualifiedName, plainOf_fixed, plainOf_nil]
  rw [pieces, canonical, text]
  refine .byWord "DROP" rfl ?_ (object.reads.map _)
  rw [object.text]
  exact ⟨_, rfl⟩

/-! ## All statements -/

/-- What may follow a statement: nothing, or the arguments of a module. -/
def AtEnd (s : Statement) (k : List Piece) : Prop := s.endsInModule = false → k = []

theorem reads_plain {s : Statement} (h : s.PlainReadable (Select.IsRead query)) :
    Reads (Reader.byWord (plainReaders query)) s.AtEnd (plainOf s.pieces) s.canonical := by
  have ended {s : Statement} (hs : s.endsInModule = false) {read : Reader Statement}
      {ps : List Piece} {t : Statement} (h : Reads read (Begins []) ps t) : Reads read s.AtEnd ps t :=
    h.weaken fun k hk => by rw [hk hs]; exact .ending
  have change (hs : s.endsInModule = false) (h : s.ChangeReadable (Select.IsRead query)) :
      Reads (Reader.byWord (plainReaders query)) s.AtEnd (plainOf s.pieces) s.canonical := by
    obtain ⟨reads, word, hw, begins⟩ := reads_change h
    exact ended hs (.byWord word (plainReaders_change word hw) begins reads)
  cases s with
  | select q => exact change rfl h
  | insert i => exact change rfl h
  | update u => exact change rfl h
  | delete d => exact change rfl h
  | createTable t =>
    rw [pieces, canonical, t.text]
    exact ended rfl (reads_create "TABLE" rfl (by decide) ⟨_, rfl⟩ ((CreateTable.reads h).map _))
  | createIndex i => exact ended rfl (reads_createIndex h)
  | createView v =>
    rw [pieces, canonical, v.text]
    exact ended rfl (reads_create "VIEW" rfl (by decide) ⟨_, rfl⟩ ((CreateView.reads h).map _))
  | createTrigger header steps =>
    rw [createTrigger_text, canonical]
    exact ended rfl (reads_create "TRIGGER" rfl (by decide) ⟨_, rfl⟩ (reads_trigger h.1 h.2))
  | createVirtualTable t =>
    rw [pieces, canonical, CreateVirtualTable.text h]
    exact reads_create "VIRTUAL" rfl (by decide) ⟨_, rfl⟩ ((CreateVirtualTable.reads h _).map _)
  | alterTable table change => exact ended rfl (reads_alter h)
  | drop object => exact ended rfl (reads_drop object)
  | begin mode => exact ended rfl (reads_begin mode)
  | commit => exact ended rfl (.byWord "COMMIT" rfl ⟨_, rfl⟩ ((Reads.fixed [.fixed "COMMIT"] _).last _))
  | rollback name => exact ended rfl (reads_rollback name)
  | savepoint name =>
    exact ended rfl (.byWord "SAVEPOINT" rfl ⟨_, rfl⟩
      (.headed [.fixed "SAVEPOINT", .space] ((Reads.name name _).last _)))
  | release name =>
    exact ended rfl (.byWord "RELEASE" rfl ⟨_, rfl⟩
      (.headed (phrase ["RELEASE", "SAVEPOINT"] ++ [.space]) ((Reads.name name _).last _)))
  | attach file schema => exact ended rfl (reads_attach h schema)
  | detach schema =>
    exact ended rfl (.byWord "DETACH" rfl ⟨_, rfl⟩
      (.headed (phrase ["DETACH", "DATABASE"] ++ [.space]) ((Reads.name schema _).last _)))
  | vacuum schema file => exact ended rfl (reads_vacuum schema h)
  | reindex target => exact ended rfl (reads_reindex target)
  | analyze target => exact ended rfl (reads_analyze target)
  | explain queryPlan s => exact h.elim

theorem explain_text (queryPlan : Bool) (s : Statement) :
    plainOf (explain queryPlan s).pieces = [.fixed "EXPLAIN"] ++
      (onlyIf queryPlan (.space :: phrase ["QUERY", "PLAN"]) ++ ([.space] ++ plainOf s.pieces)) := by
  rw [pieces, plainOf_append, plainOf_phrase, plainOf_space]
  cases queryPlan <;> rfl

theorem reads_explain (queryPlan : Bool) {s : Statement} (h : s.PlainReadable (Select.IsRead query)) :
    Reads (read query) s.AtEnd (plainOf (explain queryPlan s).pieces)
      (explain queryPlan s.canonical) := by
  have inner := reads_plain h
  have plan : Reads (Reader.flag (.space :: phrase ["QUERY", "PLAN"]))
      (fun k => after (.space :: phrase ["QUERY", "PLAN"]) k = none)
      (onlyIf queryPlan (.space :: phrase ["QUERY", "PLAN"])) queryPlan :=
    Reader.flag_onlyIf (fun _ hk => hk) queryPlan
  rw [explain_text]
  refine .byWord "EXPLAIN" rfl ⟨_, rfl⟩ (.headed _ (.bind plan (fun k hk => ?_)
    (.headed _ (inner.last _))))
  obtain ⟨word, rest, heq, known⟩ := Reader.byWord_begins (inner k hk)
  have begins : Begins [word] ([.space] ++ plainOf s.pieces ++ k) := by
    rw [List.append_assoc, heq]
    exact .word (List.mem_singleton.mpr rfl) rest
  refine begins.after_phrase (fun same => known ?_) ["PLAN"]
  rw [← List.mem_singleton.mp same]
  rfl

theorem Readable.plain {P : Select → Prop} {s : Statement} (h : s.Readable P)
    (hs : s.isExplain = false) : s.PlainReadable P := by
  cases s with
  | explain queryPlan t => exact Bool.noConfusion hs
  | _ => exact h

/-- The text of a statement is read as its canonical form. -/
theorem reads {s : Statement} (h : s.Readable (Select.IsRead query)) :
    Reads (read query) s.AtEnd (plainOf s.pieces) s.canonical := by
  cases s with
  | explain queryPlan t =>
    rw [canonical]
    exact reads_explain queryPlan h
  | _ => exact (reads_plain (Readable.plain h rfl)).byWord_cons rfl

end Statement
end SqliteSyntax
