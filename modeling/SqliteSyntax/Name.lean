import SqliteSyntax.Piece

/-! # Names

Object names with an optional schema, and column references with what qualifies them. -/
namespace SqliteSyntax
set_option autoImplicit false

/-- The name of a table, index, view or trigger, with its schema if one is given. -/
structure QualifiedName where
  schema : Option String
  name : String
deriving DecidableEq

namespace QualifiedName

/-- A name without a schema. -/
def unqualified (name : String) : QualifiedName := ⟨none, name⟩

def isQualified (n : QualifiedName) : Bool := n.schema.isSome

/-- The quoted schema and a dot if there is one, then the quoted name. -/
def pieces (n : QualifiedName) : List Piece :=
  match n.schema with
  | none => [.name n.name]
  | some schema => [.name schema, .fixed ".", .name n.name]

def sql (n : QualifiedName) : String := textOf n.pieces

/-- The name by itself, outside of a statement. -/
def display (n : QualifiedName) : String :=
  match n.schema with
  | none => quoteIdentifier n.name
  | some schema => quoteIdentifier schema ++ "." ++ quoteIdentifier n.name

end QualifiedName

/-- What stands before the dot of a column reference. -/
inductive Qualifier where
  | table (name : QualifiedName)
  /-- The row that a trigger's event writes. -/
  | new
  /-- The row that a trigger's event replaces or removes. -/
  | old
deriving DecidableEq

/-- A column, qualified or not. -/
structure ColumnRef where
  qualifier : Option Qualifier
  column : String
deriving DecidableEq

/-- The words `NEW` and `OLD` are keywords here and stand unquoted; every other part is quoted. -/
def ColumnRef.pieces (c : ColumnRef) : List Piece :=
  match c.qualifier with
  | none => [.name c.column]
  | some (.table t) => t.pieces ++ [.fixed ".", .name c.column]
  | some .new => [.fixed "NEW", .fixed ".", .name c.column]
  | some .old => [.fixed "OLD", .fixed ".", .name c.column]

/-- How a table may be searched. -/
inductive IndexHint where
  | indexedBy (index : String)
  | notIndexed
deriving DecidableEq

/-- A named table with an optional alias and index hint. -/
structure TableRef where
  name : QualifiedName
  asName : Option String
  hint : Option IndexHint
deriving DecidableEq

namespace TableRef

def ofName (name : QualifiedName) : TableRef := ⟨name, none, none⟩

/-- The table under another name. -/
def named (t : TableRef) (asName : String) : TableRef := { t with asName := some asName }

/-- The table with an index prescribed, in place of any earlier hint. -/
def indexedBy (t : TableRef) (index : String) : TableRef :=
  { t with hint := some (.indexedBy index) }

/-- The table with indexes forbidden, in place of any earlier hint. -/
def notIndexed (t : TableRef) : TableRef := { t with hint := some .notIndexed }

/-- What columns of this table are qualified by: its alias, else its full name. -/
def qualifier (t : TableRef) : QualifiedName :=
  match t.asName with
  | some asName => .unqualified asName
  | none => t.name

/-- A column of this table. -/
def column (t : TableRef) (name : String) : ColumnRef := ⟨some (.table t.qualifier), name⟩

/-- What `*` over this table is qualified by: its alias, else its name without the schema. -/
def starName (t : TableRef) : String := t.asName.getD t.name.name

end TableRef

/-- An alias after `AS`, if there is one. -/
def asClause (asName : Option String) : List Piece :=
  clause ["AS"] (asName.map fun n => [.name n])

def IndexHint.pieces : IndexHint → List Piece
  | .indexedBy index => phrase ["INDEXED", "BY"] ++ [.space, .name index]
  | .notIndexed => phrase ["NOT", "INDEXED"]

def TableRef.pieces (t : TableRef) : List Piece :=
  t.name.pieces ++ asClause t.asName ++ spaced (t.hint.map IndexHint.pieces)

end SqliteSyntax
