import SqliteSyntax.Piece

/-! # Keyword choices

Places of the grammar that take one phrase out of a fixed set, such as a sort order or the kind of a
join, with the keywords of each phrase. -/
namespace SqliteSyntax
set_option autoImplicit false

/-- A type of fixed phrases, each with its keywords in order, and the list of them all. -/
class Phrase (α : Type) where
  words : α → List String
  all : List α
  mem_all : ∀ a : α, a ∈ all

namespace Phrase
variable {α : Type} [Phrase α]

def pieces (a : α) : List Piece := phrase (words a)

/-- The keywords with single spaces between. -/
def sql (a : α) : String := textOf (pieces a)

/-- A space and the phrase, if there is one. -/
def optional (a : Option α) : List Piece := spaced (a.map pieces)

end Phrase

/-! ## Queries -/

inductive SortOrder where
  | ascending
  | descending
deriving DecidableEq

instance : Phrase SortOrder where
  words
    | .ascending => ["ASC"]
    | .descending => ["DESC"]
  all := [.ascending, .descending]
  mem_all a := by cases a <;> decide

/-- Where nulls stand among sorted rows. -/
inductive NullPlacement where
  | first
  | last
deriving DecidableEq

instance : Phrase NullPlacement where
  words
    | .first => ["NULLS", "FIRST"]
    | .last => ["NULLS", "LAST"]
  all := [.first, .last]
  mem_all a := by cases a <;> decide

inductive SetOperator where
  | union
  | unionAll
  | intersect
  | except
deriving DecidableEq

instance : Phrase SetOperator where
  words
    | .union => ["UNION"]
    | .unionAll => ["UNION", "ALL"]
    | .intersect => ["INTERSECT"]
    | .except => ["EXCEPT"]
  all := [.union, .unionAll, .intersect, .except]
  mem_all a := by cases a <;> decide

inductive JoinKind where
  | comma
  | plain
  | inner
  | cross
  | left
  | leftOuter
  | right
  | rightOuter
  | full
  | fullOuter
deriving DecidableEq

instance : Phrase JoinKind where
  words
    | .comma => [","]
    | .plain => ["JOIN"]
    | .inner => ["INNER", "JOIN"]
    | .cross => ["CROSS", "JOIN"]
    | .left => ["LEFT", "JOIN"]
    | .leftOuter => ["LEFT", "OUTER", "JOIN"]
    | .right => ["RIGHT", "JOIN"]
    | .rightOuter => ["RIGHT", "OUTER", "JOIN"]
    | .full => ["FULL", "JOIN"]
    | .fullOuter => ["FULL", "OUTER", "JOIN"]
  all := [.comma, .plain, .inner, .cross, .left, .leftOuter, .right, .rightOuter, .full, .fullOuter]
  mem_all a := by cases a <;> decide

/-- A comma join and a cross join cannot be natural. -/
def JoinKind.canBeNatural : JoinKind → Bool
  | .comma => false
  | .cross => false
  | _ => true

/-- The operator between two tables of a join. -/
structure JoinOperator where
  natural : Bool
  kind : JoinKind
deriving DecidableEq

/-! ## Changes to rows -/

/-- What a violated constraint does. -/
inductive ConflictAction where
  | rollback
  | abort
  | fail
  | ignore
  | replace
deriving DecidableEq

instance : Phrase ConflictAction where
  words
    | .rollback => ["ROLLBACK"]
    | .abort => ["ABORT"]
    | .fail => ["FAIL"]
    | .ignore => ["IGNORE"]
    | .replace => ["REPLACE"]
  all := [.rollback, .abort, .fail, .ignore, .replace]
  mem_all a := by cases a <;> decide

/-- How an insertion begins. -/
inductive InsertVerb where
  | insert
  | replace
  | insertOr (action : ConflictAction)
deriving DecidableEq

instance : Phrase InsertVerb where
  words
    | .insert => ["INSERT", "INTO"]
    | .replace => ["REPLACE", "INTO"]
    | .insertOr action => ["INSERT", "OR"] ++ Phrase.words action ++ ["INTO"]
  all := [.insert, .replace] ++ Phrase.all.map .insertOr
  mem_all
    | .insert => .head _
    | .replace => .tail _ (.head _)
    | .insertOr action =>
      List.mem_append_right _ (List.mem_map.2 ⟨action, Phrase.mem_all action, rfl⟩)

/-! ## Schema -/

/-- What happens to child rows when their parent row changes. -/
inductive ForeignKeyAction where
  | setNull
  | setDefault
  | cascade
  | restrict
  | noAction
deriving DecidableEq

instance : Phrase ForeignKeyAction where
  words
    | .setNull => ["SET", "NULL"]
    | .setDefault => ["SET", "DEFAULT"]
    | .cascade => ["CASCADE"]
    | .restrict => ["RESTRICT"]
    | .noAction => ["NO", "ACTION"]
  all := [.setNull, .setDefault, .cascade, .restrict, .noAction]
  mem_all a := by cases a <;> decide

/-- When a deferrable foreign key is checked at first. -/
inductive InitialCheck where
  | deferred
  | immediate
deriving DecidableEq

instance : Phrase InitialCheck where
  words
    | .deferred => ["INITIALLY", "DEFERRED"]
    | .immediate => ["INITIALLY", "IMMEDIATE"]
  all := [.deferred, .immediate]
  mem_all a := by cases a <;> decide

inductive Deferrability where
  | notDeferrable
  | deferrable (initially : Option InitialCheck)
deriving DecidableEq

instance : Phrase Deferrability where
  words
    | .notDeferrable => ["NOT", "DEFERRABLE"]
    | .deferrable none => ["DEFERRABLE"]
    | .deferrable (some initially) => "DEFERRABLE" :: Phrase.words initially
  all := .notDeferrable :: .deferrable none :: Phrase.all.map fun i => .deferrable (some i)
  mem_all
    | .notDeferrable => .head _
    | .deferrable none => .tail _ (.head _)
    | .deferrable (some initially) =>
      .tail _ (.tail _ (List.mem_map.2 ⟨initially, Phrase.mem_all initially, rfl⟩))

/-- Whether a generated column is stored or computed when read. -/
inductive GeneratedStorage where
  | stored
  | virtual
deriving DecidableEq

instance : Phrase GeneratedStorage where
  words
    | .stored => ["STORED"]
    | .virtual => ["VIRTUAL"]
  all := [.stored, .virtual]
  mem_all a := by cases a <;> decide

inductive TriggerTiming where
  | before
  | after
  | insteadOf
deriving DecidableEq

instance : Phrase TriggerTiming where
  words
    | .before => ["BEFORE"]
    | .after => ["AFTER"]
    | .insteadOf => ["INSTEAD", "OF"]
  all := [.before, .after, .insteadOf]
  mem_all a := by cases a <;> decide

/-- The kinds of schema objects that can be dropped. -/
inductive ObjectKind where
  | table
  | index
  | trigger
  | view
deriving DecidableEq

instance : Phrase ObjectKind where
  words
    | .table => ["TABLE"]
    | .index => ["INDEX"]
    | .trigger => ["TRIGGER"]
    | .view => ["VIEW"]
  all := [.table, .index, .trigger, .view]
  mem_all a := by cases a <;> decide

/-! ## Transactions -/

/-- When a transaction takes its locks. -/
inductive TransactionMode where
  | deferred
  | immediate
  | exclusive
deriving DecidableEq

instance : Phrase TransactionMode where
  words
    | .deferred => ["DEFERRED"]
    | .immediate => ["IMMEDIATE"]
    | .exclusive => ["EXCLUSIVE"]
  all := [.deferred, .immediate, .exclusive]
  mem_all a := by cases a <;> decide

/-! ## Statements -/

/-- The kinds of statements, as error messages name them. -/
inductive StatementKind where
  | select
  | insert
  | update
  | delete
  | createTable
  | createIndex
  | createView
  | createTrigger
  | createVirtualTable
  | alterTable
  | drop
  | begin
  | commit
  | rollback
  | savepoint
  | release
  | attach
  | detach
  | vacuum
  | reindex
  | analyze
  | explain
deriving DecidableEq

instance : Phrase StatementKind where
  words
    | .select => ["SELECT"]
    | .insert => ["INSERT"]
    | .update => ["UPDATE"]
    | .delete => ["DELETE"]
    | .createTable => ["CREATE", "TABLE"]
    | .createIndex => ["CREATE", "INDEX"]
    | .createView => ["CREATE", "VIEW"]
    | .createTrigger => ["CREATE", "TRIGGER"]
    | .createVirtualTable => ["CREATE", "VIRTUAL", "TABLE"]
    | .alterTable => ["ALTER", "TABLE"]
    | .drop => ["DROP"]
    | .begin => ["BEGIN"]
    | .commit => ["COMMIT"]
    | .rollback => ["ROLLBACK"]
    | .savepoint => ["SAVEPOINT"]
    | .release => ["RELEASE"]
    | .attach => ["ATTACH"]
    | .detach => ["DETACH"]
    | .vacuum => ["VACUUM"]
    | .reindex => ["REINDEX"]
    | .analyze => ["ANALYZE"]
    | .explain => ["EXPLAIN"]
  all :=
    [.select, .insert, .update, .delete, .createTable, .createIndex, .createView, .createTrigger,
      .createVirtualTable, .alterTable, .drop, .begin, .commit, .rollback, .savepoint, .release,
      .attach, .detach, .vacuum, .reindex, .analyze, .explain]
  mem_all a := by cases a <;> decide

end SqliteSyntax
