import SqliteSyntax.Proofs.Reading.Changes

/-! # Definitions of columns and tables are read back

A constraint is told by its first word; only `NOT` begins one constraint and ends another, and there the
second word decides (`AfterRule`). A type stands between the name of a column and its constraints, so it
must be none of the words with which a constraint begins. -/
namespace SqliteSyntax
set_option autoImplicit false

/-! ## What must hold of a definition -/

/-- The words with which a constraint of a column begins. -/
def ruleWords : List String :=
  ["CONSTRAINT", "PRIMARY", "NOT", "NULL", "UNIQUE", "CHECK", "DEFAULT", "COLLATE", "REFERENCES",
    "GENERATED"]

/-- What may follow a constraint of a column. -/
def ruleEnds : List String := "," :: ")" :: ruleWords

section Readable
variable (P : Select → Prop)

def DefaultValue.Readable : DefaultValue → Prop
  | .literal _ => True
  | .expr value => value.Readable P

def ColumnRule.Readable : ColumnRule → Prop
  | .check value | .generated value _ => value.Readable P
  | .default value => value.Readable P
  | .primaryKey .. | .notNull _ | .null | .unique _ | .collate _ | .references _ => True

structure ColumnDef.Readable (c : ColumnDef) : Prop where
  typeName : ∀ t ∈ c.typeName, t ∉ ruleEnds
  rules : ∀ constraint ∈ c.constraints, constraint.rule.Readable P

def TableRule.Readable : TableRule → Prop
  | .primaryKey columns _ | .unique columns _ => columns ≠ [] ∧ ∀ c ∈ columns, c.Readable P
  | .check condition => condition.Readable P
  | .foreignKey columns _ => columns ≠ []

def TableBody.Readable : TableBody → Prop
  | .definitions columns constraints _ _ =>
    columns ≠ [] ∧ (∀ c ∈ columns, c.Readable P) ∧ ∀ c ∈ constraints, c.rule.Readable P
  | .asSelect query => P query

end Readable

/-! ## Readers -/

namespace Reader
variable {α : Type}

/-- The reader that goes with the first word, which it reads too. -/
def byWord (readers : List (String × Reader α)) : Reader α := fun ps =>
  match ps with
  | .fixed word :: _ => (readers.lookup word).bind fun read => read ps
  | _ => none

/-- What a violated constraint does, if that is told. -/
def conflict : Reader (Option ConflictAction) :=
  optionally (lead ["ON", "CONFLICT"]) (choose ConflictAction)

/-- What an event at the parent of a foreign key does, if that is told. -/
def onEvent (word : String) : Reader (Option ForeignKeyAction) :=
  optionally (lead ["ON", word]) (choose ForeignKeyAction)

/-- The name of a constraint and the space after it, if it has one. -/
def constraintName : Reader (Option String) :=
  optionally [.fixed "CONSTRAINT", .space] do
    let n ← name
    fixed [.space]
    return n

/-- The type of a column after a space, if there is one. -/
def typeName : Reader (Option String) := fun ps =>
  match ps with
  | .space :: .fixed word :: rest =>
    if word ∈ ruleEnds then some (none, ps) else some (some word, rest)
  | _ => some (none, ps)

/-- Whether a table goes without row numbers and whether it is strict. -/
def tableOptions : Reader (Bool × Bool) := fun ps =>
  match after (.space :: phrase ["WITHOUT", "ROWID"]) ps with
  | some rest => ((true, ·) <$> flag [.fixed ",", .space, .fixed "STRICT"]) rest
  | none => ((false, ·) <$> flag [.space, .fixed "STRICT"]) ps

end Reader

/-- A literal; of a signed number, the sign comes first. -/
def Literal.read : Reader Literal := fun ps =>
  match ps with
  | .numeral digits :: rest => (Numeral.ofText? digits).map fun d => (.decimal d, rest)
  | .text t :: rest => some (.text t, rest)
  | .blob bytes :: rest => some (.blob bytes, rest)
  | .fixed word :: rest =>
    match constant? word with
    | some value => some (value, rest)
    | none =>
      match rest with
      | .numeral digits :: rest => (Numeral.ofText? (word ++ digits)).map fun d => (.decimal d, rest)
      | _ => none
  | _ => none

def ForeignKey.read : Reader ForeignKey := do
  Reader.fixed [.fixed "REFERENCES", .space]
  let table ← Reader.name
  let columns ← Reader.spacedNames
  let onDelete ← Reader.onEvent "DELETE"
  let onUpdate ← Reader.onEvent "UPDATE"
  let deferrability ← Reader.choice Deferrability
  return ⟨table, columns, onDelete, onUpdate, deferrability⟩

section Readers
variable (query : Reader Select)

def DefaultValue.read : Reader DefaultValue := fun ps =>
  match after [.fixed "("] ps with
  | some _ => (DefaultValue.expr <$> Reader.bracketed (Expr.read query)) ps
  | none => (DefaultValue.literal <$> Literal.read) ps

def ColumnRule.read : Reader ColumnRule := Reader.byWord
  [("PRIMARY", do
      Reader.fixed (phrase ["PRIMARY", "KEY"])
      let order ← Reader.choice SortOrder
      let conflict ← Reader.conflict
      let autoincrement ← Reader.flag [.space, .fixed "AUTOINCREMENT"]
      return .primaryKey order conflict autoincrement),
    ("NOT", do
      Reader.fixed (phrase ["NOT", "NULL"])
      let conflict ← Reader.conflict
      return .notNull conflict),
    ("NULL", do
      Reader.fixed [.fixed "NULL"]
      return .null),
    ("UNIQUE", do
      Reader.fixed [.fixed "UNIQUE"]
      let conflict ← Reader.conflict
      return .unique conflict),
    ("CHECK", do
      Reader.fixed [.fixed "CHECK", .space]
      let condition ← Reader.bracketed (Expr.read query)
      return .check condition),
    ("DEFAULT", do
      Reader.fixed [.fixed "DEFAULT", .space]
      let value ← DefaultValue.read query
      return .default value),
    ("COLLATE", do
      Reader.fixed [.fixed "COLLATE", .space]
      let collation ← Reader.name
      return .collate collation),
    ("REFERENCES", ColumnRule.references <$> ForeignKey.read),
    ("GENERATED", do
      Reader.fixed (phrase ["GENERATED", "ALWAYS", "AS"] ++ [.space])
      let value ← Reader.bracketed (Expr.read query)
      let storage ← Reader.choice GeneratedStorage
      return .generated value storage)]

/-- A constraint of a column and the space before it. -/
def ColumnConstraint.read : Reader ColumnConstraint := do
  Reader.fixed [.space]
  let name ← Reader.constraintName
  let rule ← ColumnRule.read query
  return ⟨name, rule⟩

def ColumnDef.read : Reader ColumnDef := do
  let name ← Reader.name
  let typeName ← Reader.typeName
  let constraints ← Reader.many (ColumnConstraint.read query)
  return ⟨name, typeName, constraints⟩

def TableRule.read : Reader TableRule := Reader.byWord
  [("PRIMARY", do
      Reader.fixed (phrase ["PRIMARY", "KEY"] ++ [.space])
      let columns ← Reader.indexed query
      let conflict ← Reader.conflict
      return .primaryKey columns conflict),
    ("UNIQUE", do
      Reader.fixed [.fixed "UNIQUE", .space]
      let columns ← Reader.indexed query
      let conflict ← Reader.conflict
      return .unique columns conflict),
    ("CHECK", do
      Reader.fixed [.fixed "CHECK", .space]
      let condition ← Reader.bracketed (Expr.read query)
      return .check condition),
    ("FOREIGN", do
      Reader.fixed (phrase ["FOREIGN", "KEY"] ++ [.space])
      let columns ← Reader.names
      Reader.fixed [.space]
      let key ← ForeignKey.read
      return .foreignKey columns key)]

def TableConstraint.read : Reader TableConstraint := do
  let name ← Reader.constraintName
  let rule ← TableRule.read query
  return ⟨name, rule⟩

def TableBody.read : Reader TableBody := fun ps =>
  match after [.space, .fixed "("] ps with
  | some _ => (do
      Reader.fixed [.space, .fixed "("]
      let columns ← Reader.listOf (ColumnDef.read query)
      let constraints ← Reader.many (Reader.listed (TableConstraint.read query))
      Reader.fixed [.fixed ")"]
      let options ← Reader.tableOptions
      return .definitions columns constraints options.1 options.2 : Reader TableBody) ps
  | none => (do
      Reader.fixed (lead ["AS"])
      let q ← query
      return .asSelect q : Reader TableBody) ps

end Readers

/-! ## Parts of constraints -/

theorem Reads.byWord {α : Type} {readers : List (String × Reader α)} {read : Reader α}
    {ok : List Piece → Prop} {ps : List Piece} {a : α} (word : String)
    (found : readers.lookup word = some read) (begins : ∃ rest, ps = .fixed word :: rest)
    (h : Reads read ok ps a) : Reads (Reader.byWord readers) ok ps a := by
  obtain ⟨rest, rfl⟩ := begins
  intro k hk
  show (readers.lookup word).bind _ = _
  rw [found]
  exact h k hk

/-- What follows a constraint; if it begins with `NOT`, then with `NOT NULL`. -/
def AfterRule (k : List Piece) : Prop :=
  Begins (ruleEnds.erase "NOT") k ∨ ∃ rest, k = .space :: phrase ["NOT", "NULL"] ++ rest

theorem AfterRule.begins {k : List Piece} (h : AfterRule k) : Begins ruleEnds k := by
  rcases h with h | ⟨rest, rfl⟩
  · exact h.mono (List.erase_subset ..)
  · exact .word (by decide) _

theorem Reads.conflict {ends : List String} (absent : "ON" ∉ ends) (conflict : Option ConflictAction) :
    Reads Reader.conflict (Begins ends) (conflictPieces conflict) conflict := by
  have h : Reads Reader.conflict (Begins ends) (conflictPieces conflict) (conflict.map id) :=
    .clause (fun a _ => .choose ConflictAction.distinct _ a) absent ["CONFLICT"]
  rwa [Option.map_id] at h

@[simp] theorem plainOf_conflict (conflict : Option ConflictAction) :
    plainOf (conflictPieces conflict) = conflictPieces conflict := by
  cases conflict <;> simp [conflictPieces]

@[simp] theorem plainOf_constraintName (name : Option String) :
    plainOf (constraintName name) = constraintName name := by
  cases name <;> rfl

theorem Reads.constraintName (name : Option String) :
    Reads Reader.constraintName (fun k => after [.fixed "CONSTRAINT", .space] k = none)
      (SqliteSyntax.constraintName name) name := by
  cases name with
  | none => exact fun k hk => Reader.optionally_none hk
  | some n => exact fun k _ => rfl

/-! ## Foreign keys -/

theorem Deferrability.reads (d : Deferrability) :
    Reads (Reader.choose Deferrability) AfterRule (Phrase.pieces d) d := by
  intro k hk
  have longer (more : List String) : after (.space :: phrase ("INITIALLY" :: more)) k = none :=
    hk.begins.after_phrase (by decide) more
  cases d with
  | notDeferrable => rfl
  | deferrable initially =>
    cases initially with
    | some initially => cases initially <;> rfl
    | none =>
      refine findSome?_eq_of_unique (List.mem_reverse.mpr (Phrase.mem_all (.deferrable none))) rfl
        fun c _ found => ?_
      rcases c with _ | (_ | (_ | _))
      · exact absurd rfl found
      · rfl
      · exact absurd (congrArg (Option.map _) (longer ["DEFERRED"])) found
      · exact absurd (congrArg (Option.map _) (longer ["IMMEDIATE"])) found

theorem Reads.deferrability (deferrability : Option Deferrability) :
    Reads (Reader.choice Deferrability) AfterRule (Phrase.optional deferrability) deferrability := by
  refine .choiceOf Deferrability.reads (fun k hk => ?_) deferrability
  rcases hk with hk | ⟨rest, rfl⟩
  · exact Reader.choose_eq_none (by decide) hk (by decide)
  · rfl

theorem Deferrability.after_on (deferrability : Option Deferrability) {k : List Piece}
    (hk : AfterRule k) (more : List String) :
    after (lead ("ON" :: more)) (Phrase.optional deferrability ++ k) = none :=
  (hk.begins.optional (by decide) deferrability).after_lead (by decide) more

theorem Reads.onEvent {ok : List Piece → Prop} {word : String}
    (absent : ∀ k, ok k → after (lead ["ON", word]) k = none) (action : Option ForeignKeyAction) :
    Reads (Reader.onEvent word) ok (SqliteSyntax.clause ["ON", word] (action.map Phrase.pieces)) action := by
  cases action with
  | none => exact fun k hk => Reader.optionally_none (absent k hk)
  | some action =>
    rw [Option.map_some, clause_some]
    exact .optionally (.choose ForeignKeyAction.distinct _ action) _

theorem ForeignKey.reads (key : ForeignKey) : Reads ForeignKey.read AfterRule key.pieces key := by
  obtain ⟨table, columns, onDelete, onUpdate, deferrability⟩ := key
  have text : ForeignKey.pieces ⟨table, columns, onDelete, onUpdate, deferrability⟩ =
      [.fixed "REFERENCES", .space] ++ ([.name table] ++
        ((if columns.isEmpty then [] else .space :: nameList columns) ++
          (clause ["ON", "DELETE"] (onDelete.map Phrase.pieces) ++
            (clause ["ON", "UPDATE"] (onUpdate.map Phrase.pieces) ++
              Phrase.optional deferrability)))) := by
    simp [ForeignKey.pieces]
  have afterUpdate : Leads AfterRule (Phrase.starts Deferrability ++ ruleEnds)
      (Phrase.optional deferrability) := fun k hk => hk.begins.optional (by decide) deferrability
  have afterDelete := afterUpdate.clause "ON" ["UPDATE"] (onUpdate.map Phrase.pieces)
  have afterColumns := afterDelete.clause "ON" ["DELETE"] (onDelete.map Phrase.pieces)
  have columnsRead : Reads Reader.spacedNames
      (Begins ("ON" :: "ON" :: (Phrase.starts Deferrability ++ ruleEnds)))
      (if columns.isEmpty then [] else .space :: nameList columns) columns :=
    .spacedNames (by decide) columns
  have noDelete (k : List Piece) (hk : AfterRule k) : after (lead ["ON", "DELETE"])
      (clause ["ON", "UPDATE"] (onUpdate.map Phrase.pieces) ++ Phrase.optional deferrability ++ k) =
        none := by
    cases onUpdate with
    | none => exact Deferrability.after_on deferrability hk ["DELETE"]
    | some action => rfl
  rw [text]
  exact .headed _ (.bind (.name table fun _ => True) (fun _ _ => trivial) (.bind columnsRead afterColumns
    (.bind (.onEvent (fun _ h => h) onDelete) noDelete (.bind (.onEvent (fun _ h => h) onUpdate)
      (fun k hk => Deferrability.after_on deferrability hk ["UPDATE"])
      ((Reads.deferrability deferrability).last _)))))

@[simp] theorem plainOf_foreignKey (key : ForeignKey) : plainOf key.pieces = key.pieces := by
  obtain ⟨table, columns, onDelete, onUpdate, deferrability⟩ := key
  have names : plainOf (if columns.isEmpty then [] else .space :: nameList columns) =
      if columns.isEmpty then [] else .space :: nameList columns := by
    split
    · rfl
    · rw [plainOf_space, plainOf_nameList]
  have action (words : List String) (a : Option ForeignKeyAction) :
      plainOf (clause words (a.map Phrase.pieces)) = clause words (a.map Phrase.pieces) := by
    cases a <;> simp
  rw [ForeignKey.pieces]
  simp only [plainOf_append, plainOf_fixed, plainOf_space, plainOf_name, names, action,
    plainOf_optional]

/-! ## Default values -/

/-- A number is read as its numeral, sign included. -/
theorem Literal.reads_numeral (d : Numeral) (ok : List Piece → Prop) :
    Reads Literal.read ok (plainNumeral d.text) (.decimal d) := by
  intro k _
  unfold plainNumeral
  split
  · next rest h =>
    have whole : "-" ++ String.ofList rest = d.text := String.toList_inj.mp (by simp [h])
    show (Numeral.ofText? ("-" ++ String.ofList rest)).map _ = _
    rw [whole, d.ofText?_text]
    rfl
  · next rest h =>
    have whole : "+" ++ String.ofList rest = d.text := String.toList_inj.mp (by simp [h])
    show (Numeral.ofText? ("+" ++ String.ofList rest)).map _ = _
    rw [whole, d.ofText?_text]
    rfl
  · show (Numeral.ofText? d.text).map _ = _
    rw [d.ofText?_text]
    rfl

theorem Literal.reads (value : Literal) (ok : List Piece → Prop) :
    Reads Literal.read ok (plainOf value.pieces) value.canonical := by
  have numeral (d : Numeral) : Reads Literal.read ok (plainOf [.numeral d.text]) (.decimal d) := by
    rw [plainOf_cons, plainOf_nil, List.append_nil]
    exact Literal.reads_numeral d ok
  cases value with
  | boolean b => cases b <;> exact fun k _ => rfl
  | integer n => exact numeral ⟨_, _⟩
  | real r => exact numeral ⟨_, _⟩
  | decimal d => exact numeral d
  | _ => exact fun k _ => rfl

/-- No literal begins with a parenthesis. -/
theorem Literal.after_open (value : Literal) (k : List Piece) :
    after [.fixed "("] (plainOf value.pieces ++ k) = none := by
  have numeral (digits : String) : after [.fixed "("] (plainOf [.numeral digits] ++ k) = none := by
    rw [plainOf_cons, plainOf_nil, List.append_nil, Piece.plain, plainNumeral]
    split <;> rfl
  cases value with
  | boolean b => cases b <;> rfl
  | integer n => exact numeral _
  | real r => exact numeral _
  | decimal d => exact numeral _
  | _ => rfl

variable {query : Reader Select}

theorem DefaultValue.reads {value : DefaultValue} (h : value.Readable (Select.IsRead query))
    (ok : List Piece → Prop) :
    Reads (DefaultValue.read query) ok (plainOf value.pieces) value.canonical := by
  cases value with
  | literal value =>
    have inner := (Literal.reads value ok).map DefaultValue.literal
    intro k hk
    have opening := value.after_open k
    show DefaultValue.read query (plainOf value.pieces ++ k) = _
    rw [DefaultValue.read, opening]
    exact inner k hk
  | expr e =>
    have inner : Reads (Reader.bracketed (Expr.read query)) ok (parenthesized (plainOf e.bare))
        e.canonical := (Expr.reads h).bracketed (fun k => .mark (by decide) k) ok
    have text : plainOf (DefaultValue.expr e).pieces = parenthesized (plainOf e.bare) :=
      plainOf_parenthesized e.bare
    rw [text]
    exact inner.map DefaultValue.expr

/-! ## Constraints of columns -/

theorem Reads.check {condition : Expr} (h : condition.Readable (Select.IsRead query))
    (ok : List Piece → Prop) :
    Reads (Reader.bracketed (Expr.read query)) ok (parenthesized (plainOf condition.bare))
      condition.canonical :=
  (Expr.reads h).bracketed (fun k => .mark (by decide) k) ok

/-- The rule of a constraint is told by its first word. -/
theorem ColumnRule.reads {rule : ColumnRule} (h : rule.Readable (Select.IsRead query)) :
    Reads (ColumnRule.read query) AfterRule (plainOf rule.pieces) rule.canonical := by
  have conflictRead (conflict : Option ConflictAction) :
      Reads Reader.conflict AfterRule (conflictPieces conflict) conflict :=
    (Reads.conflict (by decide) conflict).weaken fun k hk => hk.begins
  cases rule with
  | primaryKey order conflict autoincrement =>
    have text : plainOf (ColumnRule.primaryKey order conflict autoincrement).pieces =
        phrase ["PRIMARY", "KEY"] ++ (Phrase.optional order ++ (conflictPieces conflict ++
          onlyIf autoincrement [.space, .fixed "AUTOINCREMENT"])) := by
      rw [ColumnRule.pieces]
      simp only [plainOf_append, plainOf_phrase, plainOf_optional, plainOf_conflict, plainOf_onlyIf,
        List.append_assoc]
      rfl
    have afterConflict : Leads AfterRule ("AUTOINCREMENT" :: ruleEnds)
        (onlyIf autoincrement [.space, .fixed "AUTOINCREMENT"]) := by
      intro k hk
      cases autoincrement with
      | false => exact hk.begins.mono (List.subset_cons_self ..)
      | true => exact .word (List.mem_cons_self ..) _
    have afterOrder := afterConflict.clause "ON" ["CONFLICT"] (conflict.map Phrase.pieces)
    rw [text]
    refine .byWord "PRIMARY" rfl ⟨_, rfl⟩ ?_
    exact .headed _ (.bind (.choice SortOrder.distinct (by decide) order) afterOrder
      (.bind (.conflict (by decide) conflict) afterConflict
        ((Reader.flag_onlyIf (fun k hk => hk.begins.after_word (by decide) []) autoincrement).last _)))
  | notNull conflict =>
    have text : plainOf (ColumnRule.notNull conflict).pieces =
        phrase ["NOT", "NULL"] ++ conflictPieces conflict := by
      rw [ColumnRule.pieces, plainOf_append, plainOf_phrase, plainOf_conflict]
    rw [text]
    exact .byWord "NOT" rfl ⟨_, rfl⟩ (.headed _ ((conflictRead conflict).last _))
  | null => exact .byWord "NULL" rfl ⟨_, rfl⟩ ((Reads.fixed [.fixed "NULL"] _).last _)
  | unique conflict =>
    have text : plainOf (ColumnRule.unique conflict).pieces =
        [.fixed "UNIQUE"] ++ conflictPieces conflict := by
      rw [ColumnRule.pieces, plainOf_fixed, plainOf_conflict]
      rfl
    rw [text]
    exact .byWord "UNIQUE" rfl ⟨_, rfl⟩ (.headed _ ((conflictRead conflict).last _))
  | check condition =>
    have text : plainOf (ColumnRule.check condition).pieces =
        [.fixed "CHECK", .space] ++ parenthesized (plainOf condition.bare) := by
      rw [ColumnRule.pieces, checkPieces, plainOf_fixed, plainOf_space, plainOf_parenthesized]
      rfl
    rw [text]
    exact .byWord "CHECK" rfl ⟨_, rfl⟩ (.headed _ ((Reads.check h _).last _))
  | default value =>
    have text : plainOf (ColumnRule.default value).pieces =
        [.fixed "DEFAULT", .space] ++ plainOf value.pieces := rfl
    rw [text]
    exact .byWord "DEFAULT" rfl ⟨_, rfl⟩ (.headed _ ((DefaultValue.reads h _).last _))
  | collate collation =>
    exact .byWord "COLLATE" rfl ⟨_, rfl⟩
      (.headed [.fixed "COLLATE", .space] ((Reads.name collation _).last _))
  | references key =>
    rw [ColumnRule.pieces, plainOf_foreignKey]
    exact .byWord "REFERENCES" rfl ⟨_, rfl⟩ (key.reads.map _)
  | generated value storage =>
    have text : plainOf (ColumnRule.generated value storage).pieces =
        (phrase ["GENERATED", "ALWAYS", "AS"] ++ [.space]) ++ (parenthesized (plainOf value.bare) ++
          Phrase.optional storage) := by
      rw [ColumnRule.pieces]
      simp only [plainOf_append, plainOf_phrase, plainOf_space, plainOf_parenthesized,
        plainOf_optional, List.append_assoc, List.cons_append, List.nil_append]
    have storageRead : Reads (Reader.choice GeneratedStorage) AfterRule (Phrase.optional storage)
        storage := (Reads.choice GeneratedStorage.distinct (by decide) storage).weaken
      fun k hk => hk.begins
    rw [text]
    exact .byWord "GENERATED" rfl ⟨_, rfl⟩
      (.headed _ (.bind (.check h fun _ => True) (fun _ _ => trivial) (storageRead.last _)))

/-- A rule begins with one of the words of constraints, and not with the one that names constraints. -/
theorem ColumnRule.begins (rule : ColumnRule) (k : List Piece) :
    AfterRule (.space :: plainOf rule.pieces ++ k) ∧
      after [.fixed "CONSTRAINT", .space] (plainOf rule.pieces ++ k) = none := by
  cases rule with
  | notNull conflict =>
    refine ⟨.inr ⟨plainOf (conflictPieces conflict) ++ k, ?_⟩, rfl⟩
    simp only [ColumnRule.pieces, plainOf_append, plainOf_phrase, List.append_assoc, List.cons_append]
  | _ => exact ⟨.inl (.word (by decide) _), rfl⟩

theorem ColumnConstraint.begins (c : ColumnConstraint) (k : List Piece) :
    AfterRule (plainOf (.space :: c.pieces) ++ k) := by
  obtain ⟨name, rule⟩ := c
  cases name with
  | none => exact (rule.begins k).1
  | some n => exact .inl (.word (by decide) _)

theorem ColumnConstraint.reads {c : ColumnConstraint} (h : c.rule.Readable (Select.IsRead query)) :
    Reads (ColumnConstraint.read query) AfterRule (plainOf (.space :: c.pieces)) c.canonical := by
  obtain ⟨name, rule⟩ := c
  have text : plainOf (.space :: ColumnConstraint.pieces ⟨name, rule⟩) =
      [.space] ++ (constraintName name ++ plainOf rule.pieces) := by
    rw [ColumnConstraint.pieces, plainOf_space, plainOf_append, plainOf_constraintName]
    rfl
  rw [text]
  exact .headed _ (.bind (.constraintName name) (fun k _ => (rule.begins k).2)
    ((ColumnRule.reads h).last _))

/-! ## Columns -/

/-- What may follow the definition of a column. -/
def definitionEnds : List String := [",", ")"]

theorem Begins.afterRule {k : List Piece} (h : Begins definitionEnds k) : AfterRule k :=
  .inl (h.mono (by decide))

theorem ColumnConstraint.read_eq_none {k : List Piece} (h : Begins definitionEnds k) :
    ColumnConstraint.read query k = none := by
  cases h with
  | ending => rfl
  | mark _ _ => rfl
  | @word word hw rest =>
    simp only [definitionEnds, List.mem_cons, List.not_mem_nil, or_false] at hw
    rcases hw with rfl | rfl <;> rfl

theorem Reads.typeName {typeName : Option String} (h : ∀ t ∈ typeName, t ∉ ruleEnds) :
    Reads Reader.typeName AfterRule (plainOf (spaced (typeName.map fun t => [.verbatim t])))
      typeName := by
  intro k hk
  cases typeName with
  | some t => exact if_neg (h t rfl)
  | none =>
    cases hk.begins with
    | ending => rfl
    | mark _ _ => rfl
    | word hw _ => exact if_pos hw

theorem ColumnDef.reads {c : ColumnDef} (h : c.Readable (Select.IsRead query)) :
    Reads (ColumnDef.read query) (Begins definitionEnds) (plainOf c.pieces) c.canonical := by
  obtain ⟨name, typeName, constraints⟩ := c
  have text : plainOf (ColumnDef.pieces ⟨name, typeName, constraints⟩) =
      [.name name] ++ (plainOf (spaced (typeName.map fun t => [.verbatim t])) ++
        constraints.flatMap fun c => plainOf (.space :: c.pieces)) := by
    rw [ColumnDef.pieces, columnConstraintPieces]
    simp only [List.cons_append, plainOf_name, plainOf_append, plainOf_flatMap, List.nil_append]
  have constraintsRead : Reads (Reader.many (ColumnConstraint.read query)) (Begins definitionEnds)
      (constraints.flatMap fun c => plainOf (.space :: c.pieces))
      (constraints.map ColumnConstraint.canonical) :=
    .many (fun c hc => ColumnConstraint.reads (h.rules c hc)) (fun _ _ => List.cons_ne_nil _ _)
      (fun c _ => c.begins) (fun _ hk => hk.afterRule) fun _ hk => ColumnConstraint.read_eq_none hk
  rw [text]
  refine .bind (.name name fun _ => True) (fun _ _ => trivial)
    (.bind (.typeName h.typeName) (fun k hk => ?_) (constraintsRead.last _))
  cases constraints with
  | nil => exact hk.afterRule
  | cons c rest =>
    rw [List.flatMap_cons, List.append_assoc]
    exact c.begins _

/-! ## Constraints of tables -/

theorem Reads.definitionConflict (conflict : Option ConflictAction) :
    Reads Reader.conflict (Begins definitionEnds) (conflictPieces conflict) conflict :=
  .conflict (by decide) conflict

theorem TableRule.reads {rule : TableRule} (h : rule.Readable (Select.IsRead query)) :
    Reads (TableRule.read query) (Begins definitionEnds) (plainOf rule.pieces) rule.canonical := by
  cases rule with
  | primaryKey columns conflict =>
    have text : plainOf (TableRule.primaryKey columns conflict).pieces =
        (phrase ["PRIMARY", "KEY"] ++ [.space]) ++ (plainOf (indexedList columns) ++
          conflictPieces conflict) := by
      rw [TableRule.pieces]
      simp only [plainOf_append, plainOf_phrase, plainOf_space, plainOf_conflict, List.append_assoc,
        List.cons_append, List.nil_append]
    rw [text]
    exact .byWord "PRIMARY" rfl ⟨_, rfl⟩ (.headed _ (.bind (.indexed h.1 h.2 fun _ => True)
      (fun _ _ => trivial) ((Reads.definitionConflict conflict).last _)))
  | unique columns conflict =>
    have text : plainOf (TableRule.unique columns conflict).pieces =
        [.fixed "UNIQUE", .space] ++ (plainOf (indexedList columns) ++ conflictPieces conflict) := by
      rw [TableRule.pieces]
      simp only [plainOf_append, plainOf_fixed, plainOf_space, plainOf_conflict, List.cons_append,
        List.nil_append]
    rw [text]
    exact .byWord "UNIQUE" rfl ⟨_, rfl⟩ (.headed _ (.bind (.indexed h.1 h.2 fun _ => True)
      (fun _ _ => trivial) ((Reads.definitionConflict conflict).last _)))
  | check condition =>
    have text : plainOf (TableRule.check condition).pieces =
        [.fixed "CHECK", .space] ++ parenthesized (plainOf condition.bare) := by
      rw [TableRule.pieces, checkPieces, plainOf_fixed, plainOf_space, plainOf_parenthesized]
      rfl
    rw [text]
    exact .byWord "CHECK" rfl ⟨_, rfl⟩ (.headed _ ((Reads.check h _).last _))
  | foreignKey columns key =>
    have text : plainOf (TableRule.foreignKey columns key).pieces =
        (phrase ["FOREIGN", "KEY"] ++ [.space]) ++ (nameList columns ++ ([.space] ++ key.pieces)) := by
      rw [TableRule.pieces]
      simp only [plainOf_append, plainOf_phrase, plainOf_space, plainOf_nameList, plainOf_foreignKey,
        List.append_assoc, List.cons_append, List.nil_append]
    have keyRead : Reads ForeignKey.read (Begins definitionEnds) key.pieces key :=
      key.reads.weaken fun k hk => hk.afterRule
    rw [text]
    exact .byWord "FOREIGN" rfl ⟨_, rfl⟩ (.headed _ (.bind (.names h fun _ => True)
      (fun _ _ => trivial) (.headed _ (keyRead.last _))))

/-- A table constraint begins with a word, and a rule not with the one that names constraints. -/
theorem TableRule.begins (rule : TableRule) (k : List Piece) :
    (∃ word rest, plainOf rule.pieces ++ k = .fixed word :: rest) ∧
      after [.fixed "CONSTRAINT", .space] (plainOf rule.pieces ++ k) = none := by
  cases rule <;> exact ⟨⟨_, _, rfl⟩, rfl⟩

theorem TableConstraint.begins (c : TableConstraint) (k : List Piece) :
    ∃ word rest, plainOf c.pieces ++ k = .fixed word :: rest := by
  obtain ⟨name, rule⟩ := c
  cases name with
  | none => exact (rule.begins k).1
  | some n => exact ⟨_, _, rfl⟩

theorem TableConstraint.reads {c : TableConstraint} (h : c.rule.Readable (Select.IsRead query)) :
    Reads (TableConstraint.read query) (Begins definitionEnds) (plainOf c.pieces) c.canonical := by
  obtain ⟨name, rule⟩ := c
  have text : plainOf (TableConstraint.pieces ⟨name, rule⟩) =
      constraintName name ++ plainOf rule.pieces := by
    rw [TableConstraint.pieces, plainOf_append, plainOf_constraintName]
  rw [text]
  exact .bind (.constraintName name) (fun k _ => (rule.begins k).2) ((TableRule.reads h).last _)

/-! ## Tables -/

/-- No column begins with a word, so the columns end where the constraints begin. -/
theorem ColumnDef.listed_eq_none {k : List Piece} (h : ∃ word rest, k = .fixed word :: rest) :
    Reader.listed (ColumnDef.read query) (.fixed "," :: .space :: k) = none := by
  obtain ⟨word, rest, rfl⟩ := h
  rfl

theorem plainOf_listedConstraints (constraints : List TableConstraint) :
    plainOf (constraints.flatMap fun c => .fixed "," :: .space :: c.pieces) =
      constraints.flatMap fun c => [.fixed ",", .space] ++ plainOf c.pieces := by
  rw [plainOf_flatMap]
  rfl

theorem Reads.columns {columns : List ColumnDef} (ne : columns ≠ [])
    (h : ∀ c ∈ columns, c.Readable (Select.IsRead query)) :
    Reads (Reader.listOf (ColumnDef.read query))
      (fun k => Begins definitionEnds k ∧ Reader.listed (ColumnDef.read query) k = none)
      (plainOf (commaSeparated (columns.map ColumnDef.pieces))) (columns.map ColumnDef.canonical) := by
  rw [plainOf_commaSeparated, List.map_map]
  exact .list ne (fun c hc => ColumnDef.reads (h c hc)) (fun k => .mark (by decide) k)
    (fun _ hk => hk.1) fun _ hk => hk.2

theorem Reads.constraints {constraints : List TableConstraint}
    (h : ∀ c ∈ constraints, c.rule.Readable (Select.IsRead query)) :
    Reads (Reader.many (Reader.listed (TableConstraint.read query))) (Begins [")"])
      (constraints.flatMap fun c => [.fixed ",", .space] ++ plainOf c.pieces)
      (constraints.map TableConstraint.canonical) := by
  have each : ∀ c ∈ constraints, Reads (Reader.listed (TableConstraint.read query))
      (Begins definitionEnds) ([.fixed ",", .space] ++ plainOf c.pieces) c.canonical :=
    fun c hc => (TableConstraint.reads (h c hc)).headed [.fixed ",", .space]
  exact .many each (fun _ _ => List.cons_ne_nil _ _) (fun _ _ _ => .mark (by decide) _)
    (fun _ hk => hk.mono (by decide)) fun _ hk => hk.listed (by decide)

theorem Reads.tableOptions (withoutRowid strict : Bool) :
    Reads Reader.tableOptions (Begins [])
      (if withoutRowid || strict
        then .space :: commaSeparated (tableOptions withoutRowid strict) else [])
      (withoutRowid, strict) := by
  intro k hk
  obtain rfl := hk.eq_nil
  cases withoutRowid <;> cases strict <;> rfl

theorem TableBody.begins (body : TableBody) (k : List Piece) :
    Begins ["(", "AS"] (plainOf body.pieces ++ k) := by
  cases body <;> exact .word (by decide) _

theorem TableBody.reads {body : TableBody} (h : body.Readable (Select.IsRead query)) :
    Reads (TableBody.read query) (Begins []) (plainOf body.pieces) body.canonical := by
  cases body with
  | definitions columns constraints withoutRowid strict =>
    obtain ⟨ne, columnsReadable, rulesReadable⟩ := h
    have options : plainOf (if withoutRowid || strict
        then .space :: commaSeparated (tableOptions withoutRowid strict) else []) =
        if withoutRowid || strict
          then .space :: commaSeparated (tableOptions withoutRowid strict) else [] := by
      cases withoutRowid <;> cases strict <;> rfl
    have text : plainOf (TableBody.definitions columns constraints withoutRowid strict).pieces =
        [.space, .fixed "("] ++ (plainOf (commaSeparated (columns.map ColumnDef.pieces)) ++
          ((constraints.flatMap fun c => [.fixed ",", .space] ++ plainOf c.pieces) ++
            ([.fixed ")"] ++ if withoutRowid || strict
              then .space :: commaSeparated (tableOptions withoutRowid strict) else []))) := by
      rw [TableBody.pieces, plainOf_append, options, plainOf_space, plainOf_parenthesized,
        definitionPieces, plainOf_append, plainOf_listedConstraints, parenthesized]
      simp only [List.append_assoc, List.cons_append, List.nil_append]
    intro k hk
    rw [text]
    refine Reads.headed [.space, .fixed "("] (.bind (.columns ne columnsReadable) (fun k _ => ?_)
      (.bind (.constraints rulesReadable) (fun _ _ => .mark (by decide) _)
        (.headed _ ((Reads.tableOptions withoutRowid strict).last _)))) k hk
    cases constraints with
    | nil => exact ⟨.mark (by decide) _, rfl⟩
    | cons c rest =>
      rw [List.flatMap_cons, List.append_assoc, List.append_assoc]
      exact ⟨.mark (by decide) _, ColumnDef.listed_eq_none (c.begins _)⟩
  | asSelect q =>
    have text : plainOf (TableBody.asSelect q).pieces = lead ["AS"] ++ plainOf q.pieces := by
      rw [TableBody.pieces, plainOf_clause, Option.map_some, clause_some]
    have inner : Reads query (Begins []) (plainOf q.pieces) q.canonical :=
      h.reads.weaken fun k hk => hk.mono (List.nil_subset _)
    intro k hk
    rw [text]
    exact Reads.headed (lead ["AS"]) (inner.last _) k hk

end SqliteSyntax
