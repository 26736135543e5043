import SqliteSyntax.Expr.Render
import SqliteSyntax.Proofs.Reading.Lexing

/-! # Reading names

The names of tables, columns and the like are quoted names with dots between, their path, and the
columns of the rows of a trigger stand behind an unquoted `NEW` or `OLD`. `readQualifiedName` and
`readColumnRef` read what a text begins with and give back the rest. In front of anything but a quote
or a dot they find the name that was written, whatever characters its parts hold. -/
namespace SqliteSyntax
set_option autoImplicit false

/-! ## Readers -/

/-- A quoted name and what follows it. -/
def readQuoted : List Char → Option (String × List Char)
  | '"' :: rest => (unquote '"' rest).map fun token => (String.ofList token.1, token.2)
  | _ => none

/-- Quoted names with dots between, as many as there are and no more than asked for. -/
def readPath : Nat → List Char → Option (List String × List Char)
  | 0, _ => none
  | most + 1, cs => do
    let (name, rest) ← readQuoted cs
    match rest with
    | '.' :: more => do
      let (names, k) ← readPath most more
      return (name :: names, k)
    | _ => return ([name], rest)

def QualifiedName.ofPath? : List String → Option QualifiedName
  | [name] => some ⟨none, name⟩
  | [schema, name] => some ⟨some schema, name⟩
  | _ => none

/-- The last name is the column; what stands before it is a table. -/
def ColumnRef.ofPath? : List String → Option ColumnRef
  | [column] => some ⟨none, column⟩
  | [table, column] => some ⟨some (.table ⟨none, table⟩), column⟩
  | [schema, table, column] => some ⟨some (.table ⟨some schema, table⟩), column⟩
  | _ => none

/-- The object name that a text begins with, and what follows it. -/
def readQualifiedName (cs : List Char) : Option (QualifiedName × List Char) := do
  let (path, k) ← readPath 2 cs
  let name ← QualifiedName.ofPath? path
  return (name, k)

/-- The column that a text begins with, and what follows it. -/
def readColumnRef : List Char → Option (ColumnRef × List Char)
  | 'N' :: 'E' :: 'W' :: '.' :: rest =>
    (readQuoted rest).map fun name => (⟨some .new, name.1⟩, name.2)
  | 'O' :: 'L' :: 'D' :: '.' :: rest =>
    (readQuoted rest).map fun name => (⟨some .old, name.1⟩, name.2)
  | cs => do
    let (path, k) ← readPath 3 cs
    let column ← ColumnRef.ofPath? path
    return (column, k)

/-! ## Paths -/

/-- What follows neither goes on with the name nor with the path. -/
def AfterName (k : List Char) : Prop := ∀ c ∈ k.head?, c ≠ '"' ∧ c ≠ '.'

/-- The pieces of names with dots between. -/
def dotted (names : List String) : List Piece :=
  separated [.fixed "."] (names.map fun n => [.name n])

/-- The schema, if there is one, and the name. -/
def QualifiedName.path (n : QualifiedName) : List String := n.schema.toList ++ [n.name]

theorem QualifiedName.pieces_eq (n : QualifiedName) : n.pieces = dotted n.path := by
  obtain ⟨schema, name⟩ := n
  cases schema <;> rfl

theorem QualifiedName.ofPath?_path (n : QualifiedName) : ofPath? n.path = some n := by
  obtain ⟨schema, name⟩ := n
  cases schema <;> rfl

theorem readQuoted_encode (name : String) {k : List Char} (hk : ∀ c ∈ k.head?, c ≠ '"') :
    readQuoted (Quoted.encode '"' name.toList ++ k) = some (name, k) := by
  have inner := unquote_doubled '"' name.toList hk
  show (unquote '"' (Quoted.doubled '"' name.toList ++ ['"'] ++ k)).map _ = _
  rw [List.append_assoc, List.singleton_append, inner, Option.map_some, String.ofList_toList]

/-- A dot is followed by a further name, anything else ends the path. -/
theorem readPath_dotted {names : List String} {most : Nat} (ne : names ≠ [])
    (few : names.length ≤ most) {k : List Char} (hk : AfterName k) :
    readPath most (charsOf (dotted names) ++ k) = some (names, k) := by
  induction names generalizing most with
  | nil => exact absurd rfl ne
  | cons name rest ih =>
    obtain ⟨most, rfl⟩ : ∃ n, most = n + 1 := Nat.exists_eq_add_of_le' (by
      rw [List.length_cons] at few
      omega)
    cases rest with
    | nil =>
      have quoted := readQuoted_encode name fun c hc => (hk c hc).1
      have text : charsOf (dotted [name]) = Quoted.encode '"' name.toList := List.append_nil _
      rw [text, readPath, quoted]
      cases k with
      | nil => rfl
      | cons c k =>
        have point : c ≠ '.' := (hk c rfl).2
        simp only [Option.bind_eq_bind, Option.bind_some]
        split
        · next h => exact absurd (List.cons.inj h).1 point
        · rfl
    | cons second rest =>
      have quoted := readQuoted_encode name (k := '.' :: (charsOf (dotted (second :: rest)) ++ k))
        (by simp)
      have text : charsOf (dotted (name :: second :: rest)) ++ k =
          Quoted.encode '"' name.toList ++ '.' :: (charsOf (dotted (second :: rest)) ++ k) := by
        simp [dotted, separated, Piece.chars]
      have shorter : (second :: rest).length ≤ most := by simpa using few
      have others := ih (by simp) shorter
      rw [text, readPath, quoted]
      simp only [Option.bind_eq_bind, Option.bind_some, others]
      rfl

/-! ## Names and columns -/

variable {k : List Char}

theorem QualifiedName.read_append (n : QualifiedName) (hk : AfterName k) :
    readQualifiedName (n.sql.toList ++ k) = some (n, k) := by
  have few : n.path.length ≤ 2 := by
    obtain ⟨schema, name⟩ := n
    cases schema <;> simp [QualifiedName.path]
  have path : readPath 2 (charsOf (dotted n.path) ++ k) = some (n.path, k) :=
    readPath_dotted (by simp [path]) few hk
  rw [sql, textOf, String.toList_ofList, pieces_eq, readQualifiedName, path]
  simp only [Option.bind_eq_bind, Option.bind_some, ofPath?_path]
  rfl

/-- The pieces and the text written directly put the same characters one after another. -/
theorem QualifiedName.sql_eq_display (n : QualifiedName) : n.sql = n.display := by
  obtain ⟨schema, name⟩ := n
  apply String.toList_injective
  cases schema with
  | none => simp [sql, textOf, pieces, charsOf, Piece.chars, display, quoteIdentifier]
  | some schema => simp [sql, textOf, pieces, charsOf, Piece.chars, display, quoteIdentifier]

/-- The text of a path begins with a quote, so it is not taken for `NEW` or `OLD`. -/
theorem readColumnRef_dotted (names : List String) {c : ColumnRef} (ne : names ≠ [])
    (column : ColumnRef.ofPath? names = some c) (few : names.length ≤ 3) (hk : AfterName k) :
    readColumnRef (charsOf (dotted names) ++ k) = some (c, k) := by
  have path := readPath_dotted ne few hk
  obtain ⟨rest, quote⟩ : ∃ rest, charsOf (dotted names) ++ k = '"' :: rest := by
    cases names with
    | nil => exact absurd rfl ne
    | cons name rest => cases rest <;> exact ⟨_, rfl⟩
  rw [quote] at path ⊢
  rw [readColumnRef, path]
  · simp only [Option.bind_eq_bind, Option.bind_some, column]
    rfl
  · simp
  · simp

/-- The name behind an unquoted `NEW` or `OLD`. -/
theorem readColumnRef_row (name : String) (hk : AfterName k) :
    readColumnRef ('N' :: 'E' :: 'W' :: '.' :: (Quoted.encode '"' name.toList ++ k)) =
        some (⟨some .new, name⟩, k) ∧
      readColumnRef ('O' :: 'L' :: 'D' :: '.' :: (Quoted.encode '"' name.toList ++ k)) =
        some (⟨some .old, name⟩, k) := by
  have quoted := readQuoted_encode name fun c hc => (hk c hc).1
  constructor <;> rw [readColumnRef, quoted] <;> rfl

theorem ColumnRef.read_append (c : ColumnRef) (hk : AfterName k) :
    readColumnRef ((Expr.column c).sql.toList ++ k) = some (c, k) := by
  rw [Expr.sql, Expr.bare, textOf, String.toList_ofList]
  obtain ⟨qualifier, column⟩ := c
  cases qualifier with
  | none => exact readColumnRef_dotted [column] (by simp) rfl (by simp) hk
  | some qualifier =>
    cases qualifier with
    | table t =>
      obtain ⟨schema, table⟩ := t
      cases schema with
      | none => exact readColumnRef_dotted [table, column] (by simp) rfl (by simp) hk
      | some schema =>
        exact readColumnRef_dotted [schema, table, column] (by simp) rfl (by simp) hk
    | new =>
      have text : charsOf (ColumnRef.pieces ⟨some .new, column⟩) ++ k =
          'N' :: 'E' :: 'W' :: '.' :: (Quoted.encode '"' column.toList ++ k) := by
        simp [ColumnRef.pieces, Piece.chars]
      rw [text]
      exact (readColumnRef_row column hk).1
    | old =>
      have text : charsOf (ColumnRef.pieces ⟨some .old, column⟩) ++ k =
          'O' :: 'L' :: 'D' :: '.' :: (Quoted.encode '"' column.toList ++ k) := by
        simp [ColumnRef.pieces, Piece.chars]
      rw [text]
      exact (readColumnRef_row column hk).2

/-- Two values that a reader finds back in front of nothing have different texts. -/
theorem eq_of_read {α : Type} (sql : α → String) {read : List Char → Option (α × List Char)}
    (back : ∀ a, read ((sql a).toList ++ []) = some (a, [])) {a b : α} (same : sql a = sql b) :
    a = b := by
  have both : some (a, ([] : List Char)) = some (b, []) := by rw [← back a, ← back b, same]
  exact congrArg Prod.fst (Option.some.inj both)

/-- In front of whatever neither goes on with a quoted name nor with a path, the text of a column
is read as that column, with what qualifies it, and the text of a name as that name; exactly the rest
remains. A name has one text, in a statement and by itself, and neither two columns nor two names
share one. -/
theorem read_names (hk : AfterName k) :
    (∀ c : ColumnRef, readColumnRef ((Expr.column c).sql.toList ++ k) = some (c, k)) ∧
      (∀ n : QualifiedName, readQualifiedName (n.sql.toList ++ k) = some (n, k)) ∧
      (∀ n : QualifiedName, n.sql = n.display) ∧
      (∀ a b : ColumnRef, (Expr.column a).sql = (Expr.column b).sql → a = b) ∧
      ∀ a b : QualifiedName, a.sql = b.sql → a = b := by
  have nothing : AfterName [] := fun c hc => nomatch hc
  refine ⟨fun c => c.read_append hk, fun n => n.read_append hk, QualifiedName.sql_eq_display,
    fun a b same => ?_, fun a b same => ?_⟩
  · exact eq_of_read (fun c => (Expr.column c).sql) (fun c => c.read_append nothing) same
  · exact eq_of_read QualifiedName.sql (fun n => n.read_append nothing) same

/-- A schema that looks like the end of a name and the begin of another, in front of a comma. -/
theorem read_names_quoted :
    AfterName [',', ' '] ∧
      readColumnRef ((Expr.column
        ⟨some (.table ⟨some "a\".\"b", "NEW"⟩), "\"\""⟩).sql.toList ++ [',', ' ']) =
        some (⟨some (.table ⟨some "a\".\"b", "NEW"⟩), "\"\""⟩, [',', ' ']) := by
  have after : AfterName [',', ' '] := fun c hc => by
    obtain rfl : ',' = c := Option.some.inj hc
    decide
  exact ⟨after, (read_names after).1 _⟩

end SqliteSyntax
