import SqliteSyntax.Proofs.Reading.Definitions

/-! # Schema objects are read back

What stands after `CREATE`, and the changes and removals of objects. The arguments of a virtual table are
read by its module alone, so only the head of its definition is read here. -/
namespace SqliteSyntax
set_option autoImplicit false

/-! ## What must hold of an object -/

section Readable
variable (P : Select → Prop)

structure CreateIndex.Readable (i : CreateIndex) : Prop where
  nonempty : i.columns ≠ []
  columns : ∀ c ∈ i.columns, c.Readable P
  filter : ∀ e ∈ i.filter, e.Readable P

def TableChange.Readable : TableChange → Prop
  | .addColumn column => column.Readable P
  | .renameTo _ | .renameColumn .. | .dropColumn _ => True

end Readable

/-! ## Readers -/

/-- The words of an object, and whether one of its name may exist. -/
def Reader.object (words : List String) : Reader Bool := do
  fixed (phrase words ++ [.space])
  flag (phrase ["IF", "NOT", "EXISTS"] ++ [.space])

section Readers
variable (query : Reader Select)

def CreateTable.readAfter (temporary : Bool) : Reader CreateTable := do
  let ifNotExists ← Reader.object ["TABLE"]
  let name ← QualifiedName.read
  let body ← TableBody.read query
  return ⟨temporary, ifNotExists, name, body⟩

def CreateIndex.readAfter : Reader CreateIndex := do
  let unique ← Reader.flag [.fixed "UNIQUE", .space]
  let ifNotExists ← Reader.object ["INDEX"]
  let name ← QualifiedName.read
  Reader.fixed (lead ["ON"])
  let table ← Reader.name
  Reader.fixed [.space]
  let columns ← Reader.indexed query
  let filter ← Reader.optionally (lead ["WHERE"]) (Expr.read query)
  return ⟨unique, ifNotExists, name, table, columns, filter⟩

def CreateView.readAfter (temporary : Bool) : Reader CreateView := do
  let ifNotExists ← Reader.object ["VIEW"]
  let name ← QualifiedName.read
  let columns ← Reader.spacedNames
  Reader.fixed (lead ["AS"])
  let q ← query
  return ⟨temporary, ifNotExists, name, columns, q⟩

/-- An event is told by its first word; an update may name columns after `OF`. -/
def TriggerEvent.read : Reader TriggerEvent := Reader.byWord
  [("DELETE", do
      Reader.fixed [.fixed "DELETE"]
      return .delete),
    ("INSERT", do
      Reader.fixed [.fixed "INSERT"]
      return .insert),
    ("UPDATE", do
      Reader.fixed [.fixed "UPDATE"]
      let columns ← Reader.listAfter ["OF"] Reader.name
      return TriggerEvent.canonical (.updateOf columns))]

def TriggerHeader.readAfter (temporary : Bool) : Reader TriggerHeader := do
  let ifNotExists ← Reader.object ["TRIGGER"]
  let name ← QualifiedName.read
  let timing ← Reader.choice TriggerTiming
  Reader.fixed [.space]
  let event ← TriggerEvent.read
  Reader.fixed (lead ["ON"])
  let table ← Reader.name
  let forEachRow ← Reader.flag (.space :: phrase ["FOR", "EACH", "ROW"])
  let condition ← Reader.optionally (lead ["WHEN"]) (Expr.read query)
  return ⟨temporary, ifNotExists, name, timing, event, table, forEachRow, condition⟩

/-- The definition of a virtual table up to the name of its module. -/
def CreateVirtualTable.readHead : Reader CreateVirtualTable := do
  let ifNotExists ← Reader.object ["VIRTUAL", "TABLE"]
  let name ← QualifiedName.read
  Reader.fixed (lead ["USING"])
  let moduleName ← Reader.name
  return ⟨ifNotExists, name, moduleName, []⟩

def TableChange.read : Reader TableChange := Reader.byWord
  [("RENAME", do
      Reader.fixed [.fixed "RENAME", .space]
      Reader.byWord
        [("TO", do
            Reader.fixed [.fixed "TO", .space]
            let name ← Reader.name
            return .renameTo name),
          ("COLUMN", do
            Reader.fixed [.fixed "COLUMN", .space]
            let column ← Reader.name
            Reader.fixed (lead ["TO"])
            let name ← Reader.name
            return .renameColumn column name)]),
    ("ADD", do
      Reader.fixed (phrase ["ADD", "COLUMN"] ++ [.space])
      let column ← ColumnDef.read query
      return .addColumn column),
    ("DROP", do
      Reader.fixed (phrase ["DROP", "COLUMN"] ++ [.space])
      let column ← Reader.name
      return .dropColumn column)]

def DropObject.read : Reader DropObject := do
  Reader.fixed [.fixed "DROP", .space]
  let kind ← Reader.choose ObjectKind
  let ifExists ← Reader.flag (.space :: phrase ["IF", "EXISTS"])
  Reader.fixed [.space]
  let name ← QualifiedName.read
  return ⟨kind, ifExists, name⟩

end Readers

/-! ## The words of an object -/

/-- The text goes on with a name. -/
def OpensName (k : List Piece) : Prop := ∃ n rest, k = .name n :: rest

theorem QualifiedName.opens (n : QualifiedName) (k : List Piece) : OpensName (n.pieces ++ k) := by
  obtain ⟨schema, name⟩ := n
  cases schema <;> exact ⟨_, _, rfl⟩

/-- The words of an object after `CREATE` and `TEMP`. -/
def objectPieces (words : List String) (ifNotExists : Bool) : List Piece :=
  (phrase words ++ [.space]) ++ onlyIf ifNotExists (phrase ["IF", "NOT", "EXISTS"] ++ [.space])

theorem Reads.object (words : List String) (ifNotExists : Bool) :
    Reads (Reader.object words) OpensName (objectPieces words ifNotExists) ifNotExists := by
  refine .headed _ (Reader.flag_onlyIf (fun k hk => ?_) ifNotExists)
  obtain ⟨n, rest, rfl⟩ := hk
  rfl

theorem phrase_append {a b : List String} (ha : a ≠ []) (hb : b ≠ []) :
    phrase (a ++ b) = phrase a ++ .space :: phrase b := by
  obtain ⟨word, more, rfl⟩ := List.exists_cons_of_ne_nil hb
  induction a with
  | nil => exact absurd rfl ha
  | cons first rest ih =>
    cases rest with
    | nil => rfl
    | cons next rest =>
      have step (words : List String) :
          phrase (first :: next :: words) = .fixed first :: .space :: phrase (next :: words) := rfl
      rw [List.cons_append, List.cons_append, step, step, ← List.cons_append,
        ih (List.cons_ne_nil _ _)]
      rfl

/-- How the text of an object begins. -/
def creating (temporary : Bool) : List Piece :=
  [.fixed "CREATE", .space] ++ onlyIf temporary [.fixed "TEMP", .space]

theorem createPieces_eq (temporary : Bool) {words : List String} (ne : words ≠ [])
    (ifNotExists : Bool) :
    createPieces temporary words ifNotExists = creating temporary ++ objectPieces words ifNotExists := by
  have lenient : phrase (words ++ if ifNotExists then ["IF", "NOT", "EXISTS"] else []) ++ [.space] =
      objectPieces words ifNotExists := by
    cases ifNotExists with
    | false => simp [objectPieces, onlyIf]
    | true =>
      rw [if_pos rfl, phrase_append ne (List.cons_ne_nil _ _)]
      simp [objectPieces, onlyIf]
  have front : phrase ("CREATE" :: (if temporary then ["TEMP"] else [])) ++ [.space] =
      creating temporary := by
    cases temporary <;> rfl
  have some : words ++ (if ifNotExists then ["IF", "NOT", "EXISTS"] else []) ≠ [] := by simp [ne]
  rw [createPieces, List.append_assoc, phrase_append (List.cons_ne_nil _ _) some, ← lenient, ← front]
  simp

theorem plainOf_create (temporary : Bool) {words : List String} (ne : words ≠ [])
    (ifNotExists : Bool) :
    plainOf (createPieces temporary words ifNotExists) =
      creating temporary ++ objectPieces words ifNotExists := by
  rw [← createPieces_eq temporary ne, createPieces, plainOf_append, plainOf_phrase]
  rfl

/-! ## Tables, indexes and views -/

variable {query : Reader Select}

/-- The text of a table after `CREATE` and `TEMP`, as a lexer sees it. -/
def CreateTable.afterCreate (t : CreateTable) : List Piece :=
  objectPieces ["TABLE"] t.ifNotExists ++ (t.name.pieces ++ plainOf t.body.pieces)

theorem CreateTable.text (t : CreateTable) :
    plainOf t.pieces = creating t.temporary ++ t.afterCreate := by
  rw [CreateTable.pieces, afterCreate]
  simp only [plainOf_append, plainOf_create _ (List.cons_ne_nil _ _),
    plainOf_qualifiedName, List.append_assoc]

theorem CreateTable.reads {t : CreateTable} (h : t.body.Readable (Select.IsRead query)) :
    Reads (CreateTable.readAfter query t.temporary) (Begins []) t.afterCreate t.canonical := by
  have name : Reads QualifiedName.read (Begins ["(", "AS"]) t.name.pieces t.name :=
    t.name.reads (by decide)
  refine .bind (.object ["TABLE"] t.ifNotExists) (fun k _ => ?_)
    (.bind name (fun k _ => t.body.begins k) ((TableBody.reads h).last _))
  rw [List.append_assoc]
  exact t.name.opens _

/-- The text of an index after `CREATE`, as a lexer sees it. -/
def CreateIndex.afterCreate (i : CreateIndex) : List Piece :=
  onlyIf i.unique [.fixed "UNIQUE", .space] ++ (objectPieces ["INDEX"] i.ifNotExists ++
    (i.name.pieces ++ (lead ["ON"] ++ ([.name i.table] ++ ([.space] ++
      (plainOf (indexedList i.columns) ++ plainOf (clause ["WHERE"] (i.filter.map Expr.bare))))))))

theorem CreateIndex.text (i : CreateIndex) : plainOf i.pieces = creating false ++ i.afterCreate := by
  have object : objectPieces (if i.unique then ["UNIQUE", "INDEX"] else ["INDEX"]) i.ifNotExists =
      onlyIf i.unique [.fixed "UNIQUE", .space] ++ objectPieces ["INDEX"] i.ifNotExists := by
    cases i.unique <;> rfl
  have ne : (if i.unique then ["UNIQUE", "INDEX"] else ["INDEX"]) ≠ [] := by
    cases i.unique <;> exact List.cons_ne_nil _ _
  rw [CreateIndex.pieces, afterCreate]
  simp only [plainOf_append, plainOf_create _ ne, object, plainOf_qualifiedName,
    plainOf_space, plainOf_fixed, plainOf_name, List.append_assoc, List.cons_append]
  rfl

theorem CreateIndex.reads {i : CreateIndex} (h : i.Readable (Select.IsRead query)) :
    Reads (CreateIndex.readAfter query) (Begins []) i.afterCreate i.canonical := by
  have name : Reads QualifiedName.read (Begins ["ON"]) i.name.pieces i.name := i.name.reads (by decide)
  have filter : Reads (Reader.optionally (lead ["WHERE"]) (Expr.read query)) (Begins [])
      (plainOf (clause ["WHERE"] (i.filter.map Expr.bare))) (i.filter.map Expr.canonical) :=
    .exprClause h.filter (by decide) (by decide)
  have unique : Reads (Reader.flag [.fixed "UNIQUE", .space])
      (fun k => after [.fixed "UNIQUE", .space] k = none)
      (onlyIf i.unique [.fixed "UNIQUE", .space]) i.unique :=
    Reader.flag_onlyIf (fun _ hk => hk) i.unique
  refine .bind unique (fun k _ => rfl) (.bind (.object ["INDEX"] i.ifNotExists) (fun k _ => ?_)
    (.bind name (fun k _ => .word (by decide) _) (.headed _ (.bind (.name i.table fun _ => True)
      (fun _ _ => trivial) (.headed _ (.bind (.indexed h.nonempty h.columns fun _ => True)
        (fun _ _ => trivial) (filter.last _)))))))
  rw [List.append_assoc]
  exact i.name.opens _

/-- The text of a view after `CREATE` and `TEMP`, as a lexer sees it. -/
def CreateView.afterCreate (v : CreateView) : List Piece :=
  objectPieces ["VIEW"] v.ifNotExists ++ (v.name.pieces ++
    ((if v.columns.isEmpty then [] else .space :: nameList v.columns) ++
      (lead ["AS"] ++ plainOf v.query.pieces)))

theorem CreateView.text (v : CreateView) :
    plainOf v.pieces = creating v.temporary ++ v.afterCreate := by
  have names : plainOf (if v.columns.isEmpty then [] else .space :: nameList v.columns) =
      if v.columns.isEmpty then [] else .space :: nameList v.columns := by
    split
    · rfl
    · rw [plainOf_space, plainOf_nameList]
  have query : plainOf (clause ["AS"] (some v.query.pieces)) = lead ["AS"] ++ plainOf v.query.pieces := by
    rw [plainOf_clause, Option.map_some, clause_some]
  rw [CreateView.pieces, afterCreate]
  simp only [plainOf_append, plainOf_create _ (List.cons_ne_nil _ _), names, query,
    plainOf_qualifiedName, List.append_assoc]

theorem CreateView.reads {v : CreateView} (h : v.query.IsRead query) :
    Reads (CreateView.readAfter query v.temporary) (Begins []) v.afterCreate v.canonical := by
  have name : Reads QualifiedName.read (Begins ["(", "AS"]) v.name.pieces v.name :=
    v.name.reads (by decide)
  have columns : Reads Reader.spacedNames (Begins ["AS"])
      (if v.columns.isEmpty then [] else .space :: nameList v.columns) v.columns :=
    .spacedNames (by decide) v.columns
  have inner : Reads query (Begins []) (plainOf v.query.pieces) v.query.canonical :=
    h.reads.weaken fun k hk => hk.mono (List.nil_subset _)
  have afterColumns : Leads (Begins []) ["AS"] (lead ["AS"] ++ plainOf v.query.pieces) :=
    fun k _ => .word (by decide) _
  refine .bind (.object ["VIEW"] v.ifNotExists) (fun k _ => ?_)
    (.bind name (afterColumns.spacedNames v.columns) (.bind columns afterColumns
      (.headed _ (inner.last _))))
  rw [List.append_assoc]
  exact v.name.opens _

/-! ## Triggers -/

theorem TriggerEvent.reads (event : TriggerEvent) :
    Reads TriggerEvent.read (Begins ["ON"]) event.pieces event.canonical := by
  cases event with
  | delete => exact .byWord "DELETE" rfl ⟨_, rfl⟩ ((Reads.fixed [.fixed "DELETE"] _).last _)
  | insert => exact .byWord "INSERT" rfl ⟨_, rfl⟩ ((Reads.fixed [.fixed "INSERT"] _).last _)
  | update =>
    have none : Reads (Reader.listAfter ["OF"] Reader.name) (Begins ["ON"]) [] [] :=
      .listAfter_nil [] (by decide)
    exact .byWord "UPDATE" rfl ⟨_, rfl⟩ (.headed [.fixed "UPDATE"] (none.last _))
  | updateOf columns =>
    have list : Reads (Reader.listAfter ["OF"] Reader.name) (Begins ["ON"])
        (if columns.isEmpty then []
          else clause ["OF"] (some (commaSeparated (columns.map fun c => [.name c]))))
        (columns.map id) :=
      .listAfter [] (fun c _ => .name c _) (by decide) (by decide)
    rw [List.map_id] at list
    have text : (TriggerEvent.updateOf columns).pieces = [.fixed "UPDATE"] ++
        (if columns.isEmpty then []
          else clause ["OF"] (some (commaSeparated (columns.map fun c => [.name c])))) := by
      rw [TriggerEvent.pieces]
      split <;> rfl
    rw [text]
    exact .byWord "UPDATE" rfl ⟨_, rfl⟩ (.headed _ (list.last _))

theorem TriggerEvent.begins (event : TriggerEvent) (k : List Piece) :
    Begins ["DELETE", "INSERT", "UPDATE"] (.space :: event.pieces ++ k) := by
  cases event with
  | updateOf columns =>
    rw [TriggerEvent.pieces]
    split <;> exact .word (by decide) _
  | _ => exact .word (by decide) _

/-- The text of a trigger's header after `CREATE` and `TEMP`, as a lexer sees it. -/
def TriggerHeader.afterCreate (t : TriggerHeader) : List Piece :=
  objectPieces ["TRIGGER"] t.ifNotExists ++ (t.name.pieces ++ (Phrase.optional t.timing ++
    ([.space] ++ (t.event.pieces ++ (lead ["ON"] ++ ([.name t.table] ++
      (onlyIf t.forEachRow (.space :: phrase ["FOR", "EACH", "ROW"]) ++
        plainOf (clause ["WHEN"] (t.condition.map Expr.bare)))))))))

theorem plainOf_triggerEvent (event : TriggerEvent) : plainOf event.pieces = event.pieces := by
  cases event with
  | updateOf columns =>
    rw [TriggerEvent.pieces]
    split
    · rfl
    · rw [plainOf_append, plainOf_phrase, plainOf_space, plainOf_commaSeparated, List.map_map]
      rfl
  | _ => rfl

theorem TriggerHeader.text (t : TriggerHeader) :
    plainOf t.pieces = creating t.temporary ++ t.afterCreate := by
  have rows : plainOf (onlyIf t.forEachRow (.space :: phrase ["FOR", "EACH", "ROW"])) =
      onlyIf t.forEachRow (.space :: phrase ["FOR", "EACH", "ROW"]) := by
    rw [plainOf_onlyIf, plainOf_space, plainOf_phrase]
  rw [TriggerHeader.pieces, afterCreate]
  simp only [plainOf_append, plainOf_create _ (List.cons_ne_nil _ _), rows,
    plainOf_qualifiedName, plainOf_optional, plainOf_triggerEvent, plainOf_space, plainOf_fixed,
    plainOf_name, List.append_assoc, List.cons_append]
  rfl

theorem TriggerHeader.reads {t : TriggerHeader} (h : ∀ e ∈ t.condition, e.Readable (Select.IsRead query)) :
    Reads (TriggerHeader.readAfter query t.temporary) (Begins ["BEGIN"]) t.afterCreate t.canonical := by
  have condition : Reads (Reader.optionally (lead ["WHEN"]) (Expr.read query)) (Begins ["BEGIN"])
      (plainOf (clause ["WHEN"] (t.condition.map Expr.bare))) (t.condition.map Expr.canonical) :=
    .exprClause h (by decide) (by decide)
  have afterRows : Leads (Begins ["BEGIN"]) ["WHEN", "BEGIN"]
      (plainOf (clause ["WHEN"] (t.condition.map Expr.bare))) :=
    fun k hk => hk.exprClause "WHEN" t.condition
  have rows : Reads (Reader.flag (.space :: phrase ["FOR", "EACH", "ROW"])) (Begins ["WHEN", "BEGIN"])
      (onlyIf t.forEachRow (.space :: phrase ["FOR", "EACH", "ROW"])) t.forEachRow :=
    Reader.flag_onlyIf (fun k hk => hk.after_phrase (by decide) _) t.forEachRow
  have timing : Reads (Reader.choice TriggerTiming) (Begins ["DELETE", "INSERT", "UPDATE"])
      (Phrase.optional t.timing) t.timing := .choice TriggerTiming.distinct (by decide) t.timing
  have name : Reads QualifiedName.read
      (Begins (Phrase.starts TriggerTiming ++ ["DELETE", "INSERT", "UPDATE"])) t.name.pieces t.name :=
    t.name.reads (by decide)
  have afterTiming : Leads (Begins ["BEGIN"]) ["DELETE", "INSERT", "UPDATE"]
      ([.space] ++ (t.event.pieces ++ (lead ["ON"] ++ ([.name t.table] ++
        (onlyIf t.forEachRow (.space :: phrase ["FOR", "EACH", "ROW"]) ++
          plainOf (clause ["WHEN"] (t.condition.map Expr.bare))))))) := by
    intro k _
    rw [List.append_assoc, List.append_assoc]
    exact t.event.begins _
  refine .bind (.object ["TRIGGER"] t.ifNotExists) (fun k _ => ?_) (.bind name (fun k hk => ?_)
    (.bind timing afterTiming (.headed _ (.bind t.event.reads (fun k _ => .word (by decide) _)
      (.headed _ (.bind (.name t.table fun _ => True) (fun _ _ => trivial)
        (.bind rows afterRows (condition.last _))))))))
  · rw [List.append_assoc]
    exact t.name.opens _
  · rw [List.append_assoc]
    exact (afterTiming k hk).optional TriggerTiming.distinct.nonempty t.timing

/-! ## Virtual tables -/

/-- The text of a virtual table after `CREATE`, up to the name of its module. -/
def CreateVirtualTable.afterCreate (t : CreateVirtualTable) : List Piece :=
  objectPieces ["VIRTUAL", "TABLE"] t.ifNotExists ++ (t.name.pieces ++ (lead ["USING"] ++
    [.name t.moduleName]))

theorem CreateVirtualTable.text {t : CreateVirtualTable} (h : t.arguments = []) :
    plainOf t.pieces = creating false ++ t.afterCreate := by
  rw [CreateVirtualTable.pieces, afterCreate, h]
  simp only [plainOf_append, plainOf_create _ (List.cons_ne_nil _ _),
    plainOf_qualifiedName, plainOf_space, plainOf_fixed, plainOf_name, List.append_assoc]
  rfl

theorem CreateVirtualTable.reads {t : CreateVirtualTable} (h : t.arguments = [])
    (ok : List Piece → Prop) : Reads CreateVirtualTable.readHead ok t.afterCreate t := by
  have name : Reads QualifiedName.read (Begins ["USING"]) t.name.pieces t.name :=
    t.name.reads (by decide)
  have whole : Reads CreateVirtualTable.readHead ok t.afterCreate
      ⟨t.ifNotExists, t.name, t.moduleName, []⟩ := by
    refine .bind (.object _ t.ifNotExists) (fun k _ => ?_) (.bind name
      (fun k _ => .word (by decide) _) (.headed _ ((Reads.name t.moduleName ok).last _)))
    rw [List.append_assoc]
    exact t.name.opens _
  rwa [← h] at whole

/-! ## Changes and removals of objects -/

theorem TableChange.reads {change : TableChange} (h : change.Readable (Select.IsRead query)) :
    Reads (TableChange.read query) (Begins []) (plainOf change.pieces) change.canonical := by
  cases change with
  | renameTo name =>
    exact .byWord "RENAME" rfl ⟨_, rfl⟩ (.headed [.fixed "RENAME", .space] (.byWord "TO" rfl ⟨_, rfl⟩
      (.headed [.fixed "TO", .space] ((Reads.name name _).last _))))
  | renameColumn column name =>
    exact .byWord "RENAME" rfl ⟨_, rfl⟩ (.headed [.fixed "RENAME", .space]
      (.byWord "COLUMN" rfl ⟨_, rfl⟩ (.headed [.fixed "COLUMN", .space]
        (.bind (.name column fun _ => True) (fun _ _ => trivial) (.headed (lead ["TO"])
          ((Reads.name name _).last _))))))
  | addColumn column =>
    have text : plainOf (TableChange.addColumn column).pieces =
        (phrase ["ADD", "COLUMN"] ++ [.space]) ++ plainOf column.pieces := by
      rw [TableChange.pieces, plainOf_append, plainOf_phrase, plainOf_space]
      rfl
    have inner : Reads (ColumnDef.read query) (Begins []) (plainOf column.pieces) column.canonical :=
      (ColumnDef.reads h).weaken fun k hk => hk.mono (List.nil_subset _)
    rw [text]
    exact .byWord "ADD" rfl ⟨_, rfl⟩ (.headed _ (inner.last _))
  | dropColumn column =>
    exact .byWord "DROP" rfl ⟨_, rfl⟩ (.headed (phrase ["DROP", "COLUMN"] ++ [.space])
      ((Reads.name column _).last _))

theorem DropObject.text (d : DropObject) : d.pieces = [.fixed "DROP", .space] ++ (Phrase.pieces d.kind ++
    (onlyIf d.ifExists (.space :: phrase ["IF", "EXISTS"]) ++ ([.space] ++ d.name.pieces))) := by
  rw [DropObject.pieces]
  simp only [List.append_assoc, List.cons_append, List.nil_append]

theorem DropObject.reads (d : DropObject) : Reads DropObject.read (Begins []) d.pieces d := by
  have lenient : Reads (Reader.flag (.space :: phrase ["IF", "EXISTS"]))
      (fun k => after (.space :: phrase ["IF", "EXISTS"]) k = none)
      (onlyIf d.ifExists (.space :: phrase ["IF", "EXISTS"])) d.ifExists :=
    Reader.flag_onlyIf (fun _ hk => hk) d.ifExists
  have name : Reads QualifiedName.read (Begins []) d.name.pieces d.name := d.name.reads (by decide)
  rw [d.text]
  refine .headed _ (.bind (.choose ObjectKind.distinct (fun _ => True) d.kind) (fun _ _ => trivial)
    (.bind lenient (fun k _ => ?_) (.headed _ (name.last _))))
  obtain ⟨n, rest, heq⟩ := d.name.opens k
  rw [List.append_assoc, heq]
  rfl

end SqliteSyntax
