import SqliteSyntax.Proofs.Pieces.Lacking
import SqliteSyntax.Proofs.Reading.Queries
import SqliteSyntax.Statement.Render

/-! # Changes of rows are read back

Insertions, updates and deletions, each read part by part in the order of its text after its common
tables. A query whose rows are inserted stands bare before the conflict clauses, and a join inside it
may end with a table before the word that a conflict clause begins with; so the query is read in the
text before the word `CONFLICT`, which stands in no query (`Reads.beforeConflict`). -/
namespace SqliteSyntax
set_option autoImplicit false

/-! ## What must hold of a change -/

section Readable
variable (P : Select → Prop)

def Assignment.Readable (a : Assignment) : Prop := a.columns ≠ [] ∧ a.value.Readable P

def IndexedColumn.Readable (c : IndexedColumn) : Prop := c.expr.Readable P

structure UpsertTarget.Readable (t : UpsertTarget) : Prop where
  nonempty : t.columns ≠ []
  columns : ∀ c ∈ t.columns, c.Readable P
  filter : ∀ e ∈ t.filter, e.Readable P

def UpsertAction.Readable : UpsertAction → Prop
  | .nothing => True
  | .update assignments filter =>
    assignments ≠ [] ∧ (∀ a ∈ assignments, a.Readable P) ∧ ∀ e ∈ filter, e.Readable P

structure Upsert.Readable (u : Upsert) : Prop where
  target : ∀ t ∈ u.target, t.Readable P
  action : u.action.Readable P

/-- The query that an insertion takes its rows from, if there is one. -/
def InsertSource.query? : InsertSource → Option Select
  | .values rows => some (.ofBody (.values rows))
  | .select query => some query
  | .defaultValues => none

/-- A lexer sees no conflict clause in the text. -/
def Quiet (ps : List Piece) : Prop := .fixed "CONFLICT" ∉ plainOf ps

structure Insert.Readable (i : Insert) : Prop where
  withClause : ∀ w ∈ i.withClause, w.Readable P
  source : ∀ q ∈ i.source.query?, P q ∧ Quiet q.pieces
  upserts : ∀ u ∈ i.upserts, u.Readable P
  returning : ∀ c ∈ i.returning, c.Readable P
  quiet : Quiet (returningPieces i.returning)

/-- What bounds the rows of a change can be read. -/
structure TailReadable (filter : Option Expr) (returning : List ResultColumn)
    (orderBy : List OrderingTerm) (limit offset : Option Expr) : Prop where
  filter : ∀ e ∈ filter, e.Readable P
  returning : ∀ c ∈ returning, c.Readable P
  orderBy : ∀ t ∈ orderBy, t.Readable P
  limit : ∀ e ∈ limit, e.Readable P
  offset : ∀ e ∈ offset, e.Readable P

structure Update.Readable (u : Update) : Prop where
  withClause : ∀ w ∈ u.withClause, w.Readable P
  nonempty : u.assignments ≠ []
  assignments : ∀ a ∈ u.assignments, a.Readable P
  source : ∀ t ∈ u.source, t.Readable P
  tail : TailReadable P u.filter u.returning u.orderBy u.limit u.offset

structure Delete.Readable (d : Delete) : Prop where
  withClause : ∀ w ∈ d.withClause, w.Readable P
  tail : TailReadable P d.filter d.returning d.orderBy d.limit d.offset

end Readable

/-! ## Readers -/

namespace Reader
variable {α : Type}

/-- What is read here if the head stands here, the head included. -/
def ifBegins (head : List Piece) (read : Reader α) : Reader (Option α) := fun ps =>
  match after head ps with
  | some _ => (read ps).map fun r => (some r.1, r.2)
  | none => some (none, ps)

/-- What is read in the text before the first conflict clause; what is left of that text and the rest
follow. -/
def beforeConflict (read : Reader α) : Reader α := fun ps =>
  let front := ps.takeWhile (· ≠ .fixed "CONFLICT")
  if front.length = ps.length then read ps
  else (read (ps.take (front.length - 3))).map fun r => (r.1, r.2 ++ ps.drop (front.length - 3))

/-- One name, or several in parentheses. -/
def targets : Reader (List String) := fun ps =>
  match after [.fixed "("] ps with
  | some _ => names ps
  | none => (name ps).map fun r => ([r.1], r.2)

end Reader

section Readers
variable (query : Reader Select)

def Assignment.read : Reader Assignment := do
  let columns ← Reader.targets
  Reader.fixed [.space, .fixed "=", .space]
  let value ← Expr.read query
  return ⟨columns, value⟩

def IndexedColumn.read : Reader IndexedColumn := do
  let e ← Expr.read query
  let order ← Reader.choice SortOrder
  return ⟨e, none, order⟩

/-- Indexed columns in parentheses, at least one. -/
def Reader.indexed : Reader (List IndexedColumn) :=
  Reader.bracketed (Reader.listOf (IndexedColumn.read query))

def UpsertTarget.read : Reader UpsertTarget := do
  let columns ← Reader.indexed query
  let filter ← Reader.optionally (lead ["WHERE"]) (Expr.read query)
  return ⟨columns, filter⟩

/-- The action of a conflict clause and the space before it. -/
def UpsertAction.read : Reader UpsertAction := fun ps =>
  match after (.space :: phrase ["DO", "NOTHING"]) ps with
  | some rest => some (.nothing, rest)
  | none => (do
      Reader.fixed (lead ["DO", "UPDATE", "SET"])
      let assignments ← Reader.listOf (Assignment.read query)
      let filter ← Reader.optionally (lead ["WHERE"]) (Expr.read query)
      return .update assignments filter : Reader UpsertAction) ps

/-- A conflict clause and the space before it. -/
def Upsert.read : Reader Upsert := do
  Reader.fixed (.space :: phrase ["ON", "CONFLICT"])
  let target ← Reader.ifBegins [.space, .fixed "("] do
    Reader.fixed [.space]
    UpsertTarget.read query
  let action ← UpsertAction.read query
  return ⟨target, action⟩

def InsertSource.read : Reader InsertSource := fun ps =>
  match after (phrase ["DEFAULT", "VALUES"]) ps with
  | some rest => some (.defaultValues, rest)
  | none => (InsertSource.select <$> Reader.beforeConflict query) ps

/-- An insertion after its common tables. -/
def Insert.readAfter (withClause : Option WithClause) : Reader Insert := do
  let verb ← Reader.choose InsertVerb
  Reader.fixed [.space]
  let table ← QualifiedName.read
  let asName ← Reader.asName
  let columns ← Reader.spacedNames
  Reader.fixed [.space]
  let source ← InsertSource.read query
  let upserts ← Reader.many (Upsert.read query)
  let returning ← Reader.listAfter ["RETURNING"] (ResultColumn.read query)
  return ⟨withClause, verb, table, asName, columns, source, upserts, returning⟩

/-- What bounds the rows of a change, in the order of the text. -/
def Reader.tail : Reader (Option Expr × List ResultColumn × List OrderingTerm × Option Expr ×
    Option Expr) := do
  let filter ← optionally (lead ["WHERE"]) (Expr.read query)
  let returning ← listAfter ["RETURNING"] (ResultColumn.read query)
  let orderBy ← listAfter ["ORDER", "BY"] (OrderingTerm.read query)
  let limit ← optionally (lead ["LIMIT"]) (Expr.read query)
  let offset ← optionally (lead ["OFFSET"]) (Expr.read query)
  return (filter, returning, orderBy, limit, offset)

/-- An update after its common tables. -/
def Update.readAfter (withClause : Option WithClause) : Reader Update := do
  Reader.fixed [.fixed "UPDATE"]
  let conflict ← Reader.optionally (lead ["OR"]) (Reader.choose ConflictAction)
  Reader.fixed [.space]
  let table ← TableRef.read
  Reader.fixed (lead ["SET"])
  let assignments ← Reader.listOf (Assignment.read query)
  let source ← Reader.optionally (lead ["FROM"]) (FromTree.read query)
  let tail ← Reader.tail query
  return ⟨withClause, conflict, table, assignments, source, tail.1, tail.2.1, tail.2.2.1,
    tail.2.2.2.1, tail.2.2.2.2⟩

/-- A deletion after its common tables. -/
def Delete.readAfter (withClause : Option WithClause) : Reader Delete := do
  Reader.fixed (phrase ["DELETE", "FROM"] ++ [.space])
  let table ← TableRef.read
  let tail ← Reader.tail query
  return ⟨withClause, table, tail.1, tail.2.1, tail.2.2.1, tail.2.2.2.1, tail.2.2.2.2⟩

end Readers

/-! ## Parts that may be absent -/

section Parts
variable {α : Type} {read : Reader α} {ok : List Piece → Prop} {ps : List Piece} {a : α}

theorem Reads.ifBegins (h : Reads read ok ps a) {head : List Piece}
    (begins : ∀ k, after head (ps ++ k) ≠ none) : Reads (Reader.ifBegins head read) ok ps (some a) := by
  intro k hk
  obtain ⟨rest, hrest⟩ := Option.ne_none_iff_exists'.mp (begins k)
  rw [Reader.ifBegins, hrest]
  show (read (ps ++ k)).map _ = _
  rw [h k hk]
  rfl

theorem Reader.ifBegins_none {head k : List Piece} (h : after head k = none) :
    Reader.ifBegins head read k = some (none, k) := by
  rw [Reader.ifBegins, h]

/-- A text without conflict clauses is read in front of one as it is read alone. -/
theorem Reads.beforeConflict {ends : List String} (h : Reads read (Begins ends) ps a)
    (quiet : .fixed "CONFLICT" ∉ ps) :
    Reads (Reader.beforeConflict read)
      (fun k => (Begins ends k ∧ .fixed "CONFLICT" ∉ k) ∨
        ∃ rest, k = .space :: phrase ["ON", "CONFLICT"] ++ rest) ps a := by
  rintro k (⟨hk, none⟩ | ⟨rest, rfl⟩)
  · have front : (ps ++ k).takeWhile (· ≠ .fixed "CONFLICT") = ps ++ k := by
      rw [← List.append_nil (ps ++ k), List.takeWhile_append_of_pos, List.takeWhile_nil]
      intro p hp
      rw [decide_eq_true_eq]
      rintro rfl
      exact (List.mem_append.mp hp).elim quiet none
    rw [Reader.beforeConflict, front]
    exact (if_pos rfl).trans (h k hk)
  · have text : ps ++ (.space :: phrase ["ON", "CONFLICT"] ++ rest) =
        (ps ++ [.space, .fixed "ON", .space]) ++ .fixed "CONFLICT" :: rest := by
      simp [phrase, separated, token]
    have front : (ps ++ (.space :: phrase ["ON", "CONFLICT"] ++ rest)).takeWhile
        (· ≠ .fixed "CONFLICT") = ps ++ [.space, .fixed "ON", .space] := by
      rw [text, List.takeWhile_append_of_pos]
      · simp
      · intro p hp
        rw [decide_eq_true_eq]
        rintro rfl
        rcases List.mem_append.mp hp with hp | hp
        · exact quiet hp
        · exact absurd hp (by decide)
    have cut : (ps ++ [Piece.space, .fixed "ON", .space]).length - 3 = ps.length := by simp
    have whole := h [] .ending
    rw [List.append_nil] at whole
    rw [Reader.beforeConflict, front, if_neg (by simp [phrase, separated, token])]
    simp only [cut, List.take_left', List.drop_left', whole, Option.map_some, List.nil_append]

end Parts

/-! ## Assignments and indexed columns -/

/-- The columns that an assignment names. -/
def targetPieces : List String → List Piece
  | [column] => [.name column]
  | columns => nameList columns

theorem Reads.targets {columns : List String} (ne : columns ≠ []) (ok : List Piece → Prop) :
    Reads Reader.targets ok (targetPieces columns) columns := by
  intro k hk
  rcases columns with _ | ⟨c, _ | ⟨d, rest⟩⟩
  · exact absurd rfl ne
  · rfl
  · exact Reads.names ne ok k hk

variable {query : Reader Select}

theorem Assignment.text (a : Assignment) : plainOf a.pieces =
    targetPieces a.columns ++ ([.space, .fixed "=", .space] ++ plainOf a.value.bare) := by
  obtain ⟨columns, value⟩ := a
  have names : plainOf (targetPieces columns) = targetPieces columns := by
    rcases columns with _ | ⟨c, _ | ⟨d, rest⟩⟩
    · rfl
    · rfl
    · exact plainOf_nameList (c :: d :: rest)
  have pieces : Assignment.pieces ⟨columns, value⟩ =
      targetPieces columns ++ .space :: .fixed "=" :: .space :: value.bare := by
    rcases columns with _ | ⟨c, _ | ⟨d, rest⟩⟩ <;> rfl
  rw [pieces, plainOf_append, names]
  rfl

theorem Assignment.reads {a : Assignment} (h : a.Readable (Select.IsRead query)) {ends : List String}
    (sub : ∀ w ∈ ends, w ∈ exprEnds) :
    Reads (Assignment.read query) (Begins ends) (plainOf a.pieces) a.canonical := by
  have value : Reads (Expr.read query) (Begins ends) (plainOf a.value.bare) a.value.canonical :=
    (Expr.reads h.2).weaken fun k hk => hk.mono sub
  rw [a.text, Assignment.canonical]
  exact .bind (.targets h.1 fun _ => True) (fun _ _ => trivial) (.headed _ (value.last _))

theorem IndexedColumn.reads {c : IndexedColumn} (h : c.Readable (Select.IsRead query)) :
    Reads (IndexedColumn.read query) (Begins [",", ")"]) (plainOf c.pieces) c.canonical := by
  obtain ⟨expr, collation, order⟩ := c
  have text : plainOf (IndexedColumn.pieces ⟨expr, collation, order⟩) =
      plainOf (expr.collated collation).bare ++ Phrase.optional order := by
    rw [IndexedColumn.pieces, collatedPieces_eq, plainOf_append, plainOf_optional]
  have readable : (expr.collated collation).Readable (Select.IsRead query) :=
    Expr.Readable.collated h collation
  rw [text, IndexedColumn.canonical, ← Expr.canonical_collated]
  refine .bind (Expr.reads readable) (fun k hk => ?_)
    ((Reads.choice SortOrder.distinct (by decide) order).last _)
  exact (hk.optional SortOrder.distinct.nonempty order).mono (by decide)

theorem Reads.indexed {columns : List IndexedColumn} (ne : columns ≠ [])
    (h : ∀ c ∈ columns, c.Readable (Select.IsRead query)) (ok : List Piece → Prop) :
    Reads (Reader.indexed query) ok (plainOf (indexedList columns))
      (columns.map IndexedColumn.canonical) := by
  have list : Reads (Reader.listOf (IndexedColumn.read query)) (Begins [")"])
      (commaSeparated (columns.map fun c => plainOf c.pieces))
      (columns.map IndexedColumn.canonical) :=
    .listOf ne (fun c hc => IndexedColumn.reads (h c hc)) (by decide)
  rw [indexedList, plainOf_parenthesized, plainOf_commaSeparated, List.map_map]
  exact list.bracketed (fun k => .mark (List.mem_singleton.mpr rfl) k) ok

theorem Reads.assignments {assignments : List Assignment} (ne : assignments ≠ [])
    (h : ∀ a ∈ assignments, a.Readable (Select.IsRead query)) {ends : List String}
    (sub : ∀ w ∈ ends, w ∈ exprEnds) (comma : "," ∉ ends) :
    Reads (Reader.listOf (Assignment.read query)) (Begins ends)
      (plainOf (assignmentPieces assignments)) (assignments.map Assignment.canonical) := by
  have commaSub : ∀ w ∈ "," :: ends, w ∈ exprEnds := by
    intro w hw
    rcases List.mem_cons.mp hw with rfl | hw
    · decide
    · exact sub w hw
  rw [assignmentPieces, plainOf_commaSeparated, List.map_map]
  exact .listOf ne (fun a ha => Assignment.reads (h a ha) commaSub) comma

/-- A clause with an expression, in the form in which changes and schema objects keep it. -/
theorem Reads.exprClause {item : Option Expr} {ends : List String} {word : String}
    (h : ∀ e ∈ item, e.Readable (Select.IsRead query)) (sub : ∀ w ∈ ends, w ∈ exprEnds)
    (absent : word ∉ ends) :
    Reads (Reader.optionally (lead [word]) (Expr.read query)) (Begins ends)
      (plainOf (SqliteSyntax.clause [word] (item.map Expr.bare))) (item.map Expr.canonical) := by
  rw [plainOf_clause, Option.map_map, ← canonicalOption_eq]
  exact .optionalExpr h sub absent

theorem Begins.exprClause {ends : List String} {k : List Piece} (h : Begins ends k) (word : String)
    (item : Option Expr) :
    Begins (word :: ends) (plainOf (SqliteSyntax.clause [word] (item.map Expr.bare)) ++ k) := by
  rw [plainOf_clause]
  exact h.clause word [] _

/-! ## Conflict clauses -/

/-- What may follow a conflict clause. -/
def upsertEnds : List String := ["ON", "RETURNING"]

theorem UpsertTarget.reads {t : UpsertTarget} (h : t.Readable (Select.IsRead query)) :
    Reads (UpsertTarget.read query) (Begins ["DO"]) (plainOf t.pieces) t.canonical := by
  have filter : Reads (Reader.optionally (lead ["WHERE"]) (Expr.read query)) (Begins ["DO"])
      (plainOf (clause ["WHERE"] (t.filter.map Expr.bare))) (t.filter.map Expr.canonical) :=
    .exprClause h.filter (by decide) (by decide)
  rw [UpsertTarget.pieces, plainOf_append, UpsertTarget.canonical]
  exact .bind (.indexed h.nonempty h.columns fun _ => True) (fun _ _ => trivial) (filter.last _)

theorem UpsertAction.begins (action : UpsertAction) (k : List Piece) :
    Begins ["DO"] (.space :: plainOf action.pieces ++ k) := by
  cases action <;> exact .word (List.mem_singleton.mpr rfl) _

theorem UpsertAction.reads {action : UpsertAction} (h : action.Readable (Select.IsRead query)) :
    Reads (UpsertAction.read query) (Begins upsertEnds) (.space :: plainOf action.pieces)
      action.canonical := by
  cases action with
  | nothing => exact fun k _ => rfl
  | update assignments filter =>
    obtain ⟨ne, values, filterReadable⟩ := h
    have text : .space :: plainOf (UpsertAction.update assignments filter).pieces =
        lead ["DO", "UPDATE", "SET"] ++ (plainOf (assignmentPieces assignments) ++
          plainOf (clause ["WHERE"] (filter.map Expr.bare))) := by
      rw [UpsertAction.pieces, plainOf_append, plainOf_append, List.append_assoc]
      rfl
    intro k hk
    rw [text, UpsertAction.canonical]
    exact Reads.headed (lead ["DO", "UPDATE", "SET"])
      (.bind (.assignments ne values (by decide) (by decide)) (fun k hk => hk.exprClause "WHERE" filter)
        ((Reads.exprClause filterReadable (by decide) (by decide)).last _)) k hk

theorem Upsert.reads {u : Upsert} (h : u.Readable (Select.IsRead query)) :
    Reads (Upsert.read query) (Begins upsertEnds) (plainOf (.space :: u.pieces)) u.canonical := by
  obtain ⟨target, action⟩ := u
  have text : plainOf (.space :: Upsert.pieces ⟨target, action⟩) =
      (.space :: phrase ["ON", "CONFLICT"]) ++
        (spaced (target.map fun t => plainOf t.pieces) ++ (.space :: plainOf action.pieces)) := by
    rw [Upsert.pieces]
    simp only [plainOf_space, plainOf_append, plainOf_phrase, plainOf_spaced, Option.map_map,
      List.append_assoc, List.cons_append]
    rfl
  have targetRead : Reads (Reader.ifBegins [.space, .fixed "("]
      (Reader.fixed [.space] >>= fun _ => UpsertTarget.read query)) (Begins ["DO"])
      (spaced (target.map fun t => plainOf t.pieces)) (target.map UpsertTarget.canonical) := by
    cases target with
    | none => exact fun k hk => Reader.ifBegins_none (hk.after_word (by decide) [])
    | some t =>
      refine .ifBegins (.headed [.space] (UpsertTarget.reads (h.target t rfl))) fun k => ?_
      simp [UpsertTarget.pieces, indexedList, parenthesized, Piece.plain, after]
  rw [text, Upsert.canonical]
  exact .headed _ (.bind targetRead (fun k _ => action.begins k) ((UpsertAction.reads h.action).last _))

/-! ## Insertions -/

/-- A query begins with one of three words. -/
theorem Select.opens (q : Select) :
    ∃ word ∈ ["SELECT", "VALUES", "WITH"], ∃ rest, plainOf q.pieces = .fixed word :: rest := by
  rw [q.text]
  rcases q.withClause with _ | ⟨recursive, tables⟩
  · obtain ⟨word, hw, rest, heq⟩ := q.opens_after
    exact ⟨word, List.mem_append_left ["WITH"] hw, rest, heq⟩
  · cases recursive <;> exact ⟨"WITH", by decide, _, rfl⟩

/-- The words with which the rows of an insertion begin. -/
def sourceWords : List String := ["SELECT", "VALUES", "WITH", "DEFAULT"]

theorem InsertSource.begins (source : InsertSource) (k : List Piece) :
    Begins sourceWords (.space :: plainOf source.pieces ++ k) := by
  cases source with
  | values rows => exact .word (by decide) _
  | defaultValues => exact .word (by decide) _
  | select q =>
    obtain ⟨word, hw, rest, heq⟩ := q.opens
    rw [InsertSource.pieces, heq]
    exact .word (List.mem_append_left ["DEFAULT"] hw) _

/-- What may follow the rows of an insertion. -/
def AfterRows (k : List Piece) : Prop :=
  (Begins queryEnds k ∧ .fixed "CONFLICT" ∉ k) ∨ ∃ rest, k = .space :: phrase ["ON", "CONFLICT"] ++ rest

theorem InsertSource.reads {source : InsertSource}
    (h : ∀ q ∈ source.query?, q.IsRead query ∧ Quiet q.pieces) :
    Reads (InsertSource.read query) AfterRows (plainOf source.pieces) source.canonical := by
  have bare {q : Select} (h : q.IsRead query ∧ Quiet q.pieces) :
      Reads (InsertSource.read query) AfterRows (plainOf q.pieces) (.select q.canonical) := by
    have inner := (h.1.reads.beforeConflict h.2).map InsertSource.select
    intro k hk
    obtain ⟨word, hw, rest, heq⟩ := q.opens
    have default : after (phrase ["DEFAULT", "VALUES"]) (plainOf q.pieces ++ k) = none := by
      rw [heq]
      refine after_ne ?_ _ _
      rintro ⟨⟩
      exact absurd hw (by decide)
    rw [InsertSource.read, default]
    exact inner k hk
  cases source with
  | values rows =>
    have text : plainOf (InsertSource.values rows).pieces =
        plainOf (Select.ofBody (.values rows)).pieces := by
      simp [InsertSource.pieces, Select.ofBody, Select.pieces, withPieces, SelectBody.pieces,
        compoundPieces, orderByPieces, termPieces, optionPieces, clause, spaced]
    rw [text]
    exact bare (h _ rfl)
  | select q => exact bare (h q rfl)
  | defaultValues => exact fun k _ => rfl

theorem plainOf_returning (columns : List ResultColumn) :
    plainOf (returningPieces columns) =
      if columns.isEmpty then []
        else clause ["RETURNING"] (some (commaSeparated (columns.map fun c => plainOf c.pieces))) := by
  cases columns with
  | nil => rfl
  | cons c rest =>
    show plainOf (clause ["RETURNING"] (some (commaSeparated (columnPieces (c :: rest))))) =
      clause ["RETURNING"] _
    rw [plainOf_clause, Option.map_some, plainOf_commaSeparated, columnPieces_eq, List.map_map]
    rfl

theorem Reads.returning {columns : List ResultColumn}
    (h : ∀ c ∈ columns, c.Readable (Select.IsRead query)) {ends : List String}
    (sub : ∀ w ∈ "," :: ends, w ∈ exprEnds) (absent : ∀ w ∈ [",", "AS", "RETURNING"], w ∉ ends) :
    Reads (Reader.listAfter ["RETURNING"] (ResultColumn.read query)) (Begins ends)
      (plainOf (returningPieces columns)) (columns.map ResultColumn.canonical) := by
  rw [plainOf_returning]
  have as : "AS" ∉ "," :: ends := by simpa using absent "AS" (by simp)
  exact .listAfter [] (fun c hc => ResultColumn.reads sub as (h c hc)) (absent _ (by simp))
    (absent _ (by simp))

theorem Leads.returning {ok : List Piece → Prop} {ps : List Piece} {ends : List String}
    (h : Leads ok ends ps) (columns : List ResultColumn) :
    Leads ok ("RETURNING" :: ends) (plainOf (returningPieces columns) ++ ps) := by
  rw [plainOf_returning]
  exact h.listAfter columns "RETURNING" [] _

/-- The conflict clauses of an insertion, each after a space. -/
def upsertPieces (upserts : List Upsert) : List Piece := upserts.flatMap fun u => .space :: u.pieces

theorem Upsert.read_eq_none {k : List Piece} (h : Begins ["RETURNING"] k) :
    Upsert.read query k = none := by
  show (Reader.fixed (.space :: phrase ["ON", "CONFLICT"]) k).bind _ = none
  rw [Reader.fixed, h.after_phrase (by decide)]
  rfl

theorem Upsert.begins (u : Upsert) (k : List Piece) :
    ∃ rest, plainOf (.space :: u.pieces) ++ k = .space :: phrase ["ON", "CONFLICT"] ++ rest := by
  rw [Upsert.pieces]
  simp only [plainOf_space, plainOf_append, plainOf_phrase, List.append_assoc, List.cons_append]
  exact ⟨_, rfl⟩

theorem Upsert.begins_word (u : Upsert) (k : List Piece) :
    Begins upsertEnds (plainOf (.space :: u.pieces) ++ k) := by
  obtain ⟨rest, heq⟩ := u.begins k
  rw [heq]
  exact .word (by decide) _

theorem Upsert.reads_all {upserts : List Upsert}
    (h : ∀ u ∈ upserts, u.Readable (Select.IsRead query)) :
    Reads (Reader.many (Upsert.read query)) (Begins ["RETURNING"]) (plainOf (upsertPieces upserts))
      (upserts.map Upsert.canonical) := by
  rw [upsertPieces, plainOf_flatMap]
  exact .many (fun u hu => Upsert.reads (h u hu)) (fun u _ => List.cons_ne_nil _ _)
    (fun u _ => u.begins_word) (fun k hk => hk.mono (by decide)) fun k hk => Upsert.read_eq_none hk

theorem Begins.eq_nil {k : List Piece} (h : Begins [] k) : k = [] := by
  cases h with
  | ending => rfl
  | mark hw _ => exact absurd hw List.not_mem_nil
  | word hw _ => exact absurd hw List.not_mem_nil

theorem afterRows {i : Insert} (quiet : Quiet (returningPieces i.returning)) {k : List Piece}
    (hk : Begins [] k) :
    AfterRows (plainOf (upsertPieces i.upserts) ++ (plainOf (returningPieces i.returning) ++ k)) := by
  obtain rfl := hk.eq_nil
  cases i.upserts with
  | nil =>
    refine .inl ⟨?_, by simpa [upsertPieces, Quiet] using quiet⟩
    have leads := (Leads.of_mono (List.nil_subset [])).returning i.returning [] .ending
    rw [List.append_nil] at leads
    simpa [upsertPieces] using leads.mono (by decide)
  | cons u rest =>
    rw [upsertPieces, List.flatMap_cons, plainOf_append, List.append_assoc]
    exact .inr (u.begins _)

theorem Leads.spacedNames {ok : List Piece → Prop} {ps : List Piece} {ends : List String}
    (h : Leads ok ends ps) (names : List String) :
    Leads ok ("(" :: ends) ((if names.isEmpty then [] else .space :: nameList names) ++ ps) := by
  intro k hk
  cases names with
  | nil => exact (h k hk).mono (List.subset_cons_self ..)
  | cons n rest => exact .word (List.mem_cons_self ..) _

/-- The text of an insertion after its common tables, as a lexer sees it. -/
def Insert.afterWith (i : Insert) : List Piece :=
  Phrase.pieces i.verb ++ ([.space] ++ (i.table.pieces ++ (asClause i.asName ++
    ((if i.columns.isEmpty then [] else .space :: nameList i.columns) ++ ([.space] ++
      (plainOf i.source.pieces ++ (plainOf (upsertPieces i.upserts) ++
        plainOf (returningPieces i.returning))))))))

theorem Insert.text (i : Insert) :
    plainOf i.pieces = plainOf (withPieces i.withClause) ++ i.afterWith := by
  have names : plainOf (if i.columns.isEmpty then [] else .space :: nameList i.columns) =
      if i.columns.isEmpty then [] else .space :: nameList i.columns := by
    split
    · rfl
    · rw [plainOf_space, plainOf_nameList]
  rw [Insert.pieces, Insert.afterWith, upsertPieces]
  simp only [plainOf_append, plainOf_choice, plainOf_space, plainOf_qualifiedName, plainOf_asClause,
    names, List.append_assoc, List.cons_append, List.nil_append]

theorem Insert.reads {i : Insert} (h : i.Readable (Select.IsRead query)) :
    Reads (Insert.readAfter query (canonicalWith i.withClause)) (Begins []) i.afterWith
      i.canonical := by
  have returning : Reads (Reader.listAfter ["RETURNING"] (ResultColumn.read query)) (Begins [])
      (plainOf (returningPieces i.returning)) (i.returning.map ResultColumn.canonical) :=
    .returning h.returning (by decide) (by decide)
  have columns : Reads Reader.spacedNames (Begins sourceWords)
      (if i.columns.isEmpty then [] else .space :: nameList i.columns) i.columns :=
    .spacedNames (by decide) i.columns
  have asName : Reads Reader.asName (Begins ("(" :: sourceWords)) (asClause i.asName) i.asName :=
    .asName (by decide) i.asName
  have table : Reads QualifiedName.read (Begins ("AS" :: "(" :: sourceWords)) i.table.pieces i.table :=
    i.table.reads (by decide)
  have afterUpserts := (Leads.of_mono (List.Subset.refl [])).returning i.returning
  rw [List.append_nil] at afterUpserts
  have afterColumns : Leads (fun _ => True) sourceWords ([.space] ++ (plainOf i.source.pieces ++
      (plainOf (upsertPieces i.upserts) ++ plainOf (returningPieces i.returning)))) := by
    intro k _
    rw [List.append_assoc, List.append_assoc]
    exact i.source.begins _
  have afterName := afterColumns.spacedNames i.columns
  have afterTable := afterName.clause "AS" [] (i.asName.map fun n => [.name n])
  rw [Insert.canonical, Insert.afterWith]
  refine .bind (.choose InsertVerb.distinct (fun _ => True) i.verb) (fun _ _ => trivial)
    (.headed _ (.bind table (fun k _ => afterTable k trivial) (.bind asName
      (fun k _ => afterName k trivial) (.bind columns (fun k _ => afterColumns k trivial) (.headed _
        (.bind (InsertSource.reads h.source) (fun k hk => ?_) (.bind (Upsert.reads_all h.upserts)
          afterUpserts (returning.last _))))))))
  rw [List.append_assoc]
  exact afterRows h.quiet hk

/-! ## Updates and deletions -/

/-- What may follow the tables and the assignments of a change. -/
def tailEnds : List String := ["WHERE", "RETURNING", "ORDER", "LIMIT", "OFFSET"]

section Tail
variable {filter limit offset : Option Expr} {returning : List ResultColumn}
  {orderBy : List OrderingTerm}

theorem Leads.exprClause {ok : List Piece → Prop} {ps : List Piece} {ends : List String}
    (h : Leads ok ends ps) (word : String) (item : Option Expr) :
    Leads ok (word :: ends) (plainOf (SqliteSyntax.clause [word] (item.map Expr.bare)) ++ ps) := by
  intro k hk
  rw [List.append_assoc]
  exact (h k hk).exprClause word item

/-- What bounds the rows of a change is read, and it begins with one of its words. -/
theorem reads_tail (h : TailReadable (Select.IsRead query) filter returning orderBy limit offset) :
    Reads (Reader.tail query) (Begins []) (plainOf (tailPieces filter returning orderBy limit offset))
        (filter.map Expr.canonical, returning.map ResultColumn.canonical,
          orderBy.map OrderingTerm.canonical, limit.map Expr.canonical, offset.map Expr.canonical) ∧
      Leads (Begins []) tailEnds (plainOf (tailPieces filter returning orderBy limit offset)) := by
  have afterLimit := (Leads.of_mono (List.Subset.refl [])).exprClause "OFFSET" offset
  rw [List.append_nil] at afterLimit
  have afterOrder := afterLimit.exprClause "LIMIT" limit
  have afterReturning := afterOrder.orderBy orderBy
  have afterFilter := afterReturning.returning returning
  have text : plainOf (tailPieces filter returning orderBy limit offset) =
      plainOf (clause ["WHERE"] (filter.map Expr.bare)) ++ (plainOf (returningPieces returning) ++
        (plainOf (orderByPieces (termPieces orderBy)) ++
          (plainOf (clause ["LIMIT"] (limit.map Expr.bare)) ++
            plainOf (clause ["OFFSET"] (offset.map Expr.bare))))) := by
    rw [tailPieces]
    simp only [plainOf_append, List.append_assoc]
  have hReturning : Reads (Reader.listAfter ["RETURNING"] (ResultColumn.read query))
      (Begins ["ORDER", "LIMIT", "OFFSET"]) (plainOf (returningPieces returning))
      (returning.map ResultColumn.canonical) := .returning h.returning (by decide) (by decide)
  have hOrder := (OrderingTerm.reads_all h.orderBy).weaken
    fun k (hk : Begins ["LIMIT", "OFFSET"] k) => hk.mono (by decide)
  rw [canonicalTerms_eq] at hOrder
  have hLimit : Reads (Reader.optionally (lead ["LIMIT"]) (Expr.read query)) (Begins ["OFFSET"])
      (plainOf (clause ["LIMIT"] (limit.map Expr.bare))) (limit.map Expr.canonical) :=
    .exprClause h.limit (by decide) (by decide)
  have hOffset : Reads (Reader.optionally (lead ["OFFSET"]) (Expr.read query)) (Begins [])
      (plainOf (clause ["OFFSET"] (offset.map Expr.bare))) (offset.map Expr.canonical) :=
    .exprClause h.offset (by decide) (by decide)
  have hFilter : Reads (Reader.optionally (lead ["WHERE"]) (Expr.read query))
      (Begins ["RETURNING", "ORDER", "LIMIT", "OFFSET"])
      (plainOf (clause ["WHERE"] (filter.map Expr.bare))) (filter.map Expr.canonical) :=
    .exprClause h.filter (by decide) (by decide)
  rw [text]
  exact ⟨.bind hFilter afterFilter (.bind hReturning afterReturning (.bind hOrder afterOrder
    (.bind hLimit afterLimit (hOffset.last _)))), afterFilter.exprClause "WHERE" filter⟩

end Tail

/-- The text of an update after its common tables, as a lexer sees it. -/
def Update.afterWith (u : Update) : List Piece :=
  [.fixed "UPDATE"] ++ (clause ["OR"] (u.conflict.map Phrase.pieces) ++ ([.space] ++ (u.table.pieces ++
    (lead ["SET"] ++ (plainOf (assignmentPieces u.assignments) ++
      (clause ["FROM"] (u.source.map fun t => plainOf t.pieces) ++
        plainOf (tailPieces u.filter u.returning u.orderBy u.limit u.offset)))))))

theorem Update.pieces_eq (u : Update) : u.pieces = withPieces u.withClause ++ ([.fixed "UPDATE"] ++
    (clause ["OR"] (u.conflict.map Phrase.pieces) ++ .space :: (u.table.pieces ++
      (clause ["SET"] (some (assignmentPieces u.assignments)) ++
        (clause ["FROM"] (u.source.map FromTree.pieces) ++
          tailPieces u.filter u.returning u.orderBy u.limit u.offset))))) := by
  obtain ⟨withClause, conflict, table, assignments, source, filter, returning, orderBy, limit,
    offset⟩ := u
  rw [Update.pieces]
  simp only [List.append_assoc, List.cons_append]
  rcases conflict with _ | action
  · rfl
  · cases action <;> rfl

theorem Update.text (u : Update) :
    plainOf u.pieces = plainOf (withPieces u.withClause) ++ u.afterWith := by
  have conflict : (u.conflict.map Phrase.pieces).map plainOf = u.conflict.map Phrase.pieces := by
    cases u.conflict <;> simp
  rw [u.pieces_eq, Update.afterWith]
  simp only [plainOf_append, plainOf_fixed, plainOf_space, plainOf_tableRef, plainOf_clause,
    clause_some, Option.map_map, conflict, List.append_assoc, List.cons_append, List.nil_append]
  rfl

theorem Update.reads {u : Update} (h : u.Readable (Select.IsRead query)) :
    Reads (Update.readAfter query (canonicalWith u.withClause)) (Begins []) u.afterWith
      u.canonical := by
  obtain ⟨hTail, afterSource⟩ := reads_tail h.tail
  have source : Reads (Reader.optionally (lead ["FROM"]) (FromTree.read query)) (Begins tailEnds)
      (clause ["FROM"] (u.source.map fun t => plainOf t.pieces)) (u.source.map FromTree.canonical) :=
    .clause (fun t ht => (FromTree.reads (h.source t ht)).weaken fun k hk => hk.mono (by decide))
      (by decide) []
  have afterSet := afterSource.clause "FROM" [] (u.source.map fun t => plainOf t.pieces)
  have assignments : Reads (Reader.listOf (Assignment.read query)) (Begins ("FROM" :: tailEnds))
      (plainOf (assignmentPieces u.assignments)) (u.assignments.map Assignment.canonical) :=
    .assignments h.nonempty h.assignments (by decide) (by decide)
  have conflict : Reads (Reader.optionally (lead ["OR"]) (Reader.choose ConflictAction))
      (fun k => ∃ name rest, k = .space :: .name name :: rest)
      (clause ["OR"] (u.conflict.map Phrase.pieces)) u.conflict := by
    cases u.conflict with
    | none =>
      rintro k ⟨name, rest, rfl⟩
      rfl
    | some action =>
      rw [Option.map_some, clause_some]
      exact .optionally (.choose ConflictAction.distinct _ action) _
  have table : Reads TableRef.read (Begins ["SET"]) u.table.pieces u.table := u.table.reads (by decide)
  rw [Update.canonical, Update.afterWith]
  refine .headed _ (.bind conflict (fun k _ => ?_) (.headed _ (.bind table (fun k _ => ?_)
    (.headed _ (.bind assignments afterSet (.bind source afterSource (hTail.last _)))))))
  · obtain ⟨⟨schema, name⟩, asName, hint⟩ := u.table
    cases schema <;> exact ⟨_, _, rfl⟩
  · exact .word (List.mem_singleton.mpr rfl) _

/-- The text of a deletion after its common tables, as a lexer sees it. -/
def Delete.afterWith (d : Delete) : List Piece :=
  (phrase ["DELETE", "FROM"] ++ [.space]) ++ (d.table.pieces ++
    plainOf (tailPieces d.filter d.returning d.orderBy d.limit d.offset))

theorem Delete.text (d : Delete) :
    plainOf d.pieces = plainOf (withPieces d.withClause) ++ d.afterWith := by
  rw [Delete.pieces, Delete.afterWith]
  simp only [plainOf_append, plainOf_phrase, plainOf_space, plainOf_tableRef, List.append_assoc,
    List.cons_append, List.nil_append]

theorem Delete.reads {d : Delete} (h : d.Readable (Select.IsRead query)) :
    Reads (Delete.readAfter query (canonicalWith d.withClause)) (Begins []) d.afterWith
      d.canonical := by
  obtain ⟨hTail, afterTable⟩ := reads_tail h.tail
  have table : Reads TableRef.read (Begins tailEnds) d.table.pieces d.table :=
    d.table.reads (by decide)
  rw [Delete.canonical, Delete.afterWith]
  exact .headed _ (.bind table afterTable (hTail.last _))

end SqliteSyntax
