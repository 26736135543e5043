import SqliteSyntax.Error
import SqliteSyntax.Text.LetterCase

/-! # Operators

Binding strength (`Precedence`) and the operators of expressions with the tier each belongs to. An
expression needs parentheses in a position exactly when its tier is below the one the position
asks for. -/
namespace SqliteSyntax
set_option autoImplicit false

/-! ## Binding strength -/

/-- The tiers of binding strength, loosest first. -/
inductive Precedence where
  /-- Takes any expression: list items and clause bodies. -/
  | lowest
  | or
  | and
  | not
  /-- Holds `=`, `IS`, `IN`, `LIKE`, `BETWEEN` and the null tests. -/
  | equality
  | comparison
  | bitwise
  | additive
  | multiplicative
  /-- Holds `||`, `->` and `->>`. -/
  | concat
  | collate
  /-- Signs and `~` in front of an operand. -/
  | unary
  /-- Literals, columns, calls and all that brings its own parentheses. -/
  | primary
deriving DecidableEq, Repr

namespace Precedence

/-- Every tier, loosest first. -/
def all : List Precedence :=
  [.lowest, .or, .and, .not, .equality, .comparison, .bitwise, .additive, .multiplicative, .concat,
    .collate, .unary, .primary]

theorem mem_all (p : Precedence) : p ∈ all := by
  cases p <;> decide

/-- The height of a tier, from 0 for the loosest. -/
def rank : Precedence → Nat
  | .lowest => 0
  | .or => 1
  | .and => 2
  | .not => 3
  | .equality => 4
  | .comparison => 5
  | .bitwise => 6
  | .additive => 7
  | .multiplicative => 8
  | .concat => 9
  | .collate => 10
  | .unary => 11
  | .primary => 12

instance : LT Precedence := ⟨fun a b => a.rank < b.rank⟩
instance : LE Precedence := ⟨fun a b => a.rank ≤ b.rank⟩
instance (a b : Precedence) : Decidable (a < b) := inferInstanceAs (Decidable (a.rank < b.rank))
instance (a b : Precedence) : Decidable (a ≤ b) := inferInstanceAs (Decidable (a.rank ≤ b.rank))
instance : Ord Precedence := ⟨fun a b => compare a.rank b.rank⟩

/-- The next tighter tier; the tightest is its own. -/
def tighter : Precedence → Precedence
  | .lowest => .or
  | .or => .and
  | .and => .not
  | .not => .equality
  | .equality => .comparison
  | .comparison => .bitwise
  | .bitwise => .additive
  | .additive => .multiplicative
  | .multiplicative => .concat
  | .concat => .collate
  | .collate => .unary
  | .unary => .primary
  | .primary => .primary

end Precedence

/-- Which way a chain of one operator groups. -/
inductive Associativity where
  | left
  | right
deriving DecidableEq, Repr

/-! ## Binary operators -/

inductive BinaryOp where
  | or
  | and
  | eq
  | notEq
  | is
  | isNot
  | lt
  | ltEq
  | gt
  | gtEq
  | bitAnd
  | bitOr
  | leftShift
  | rightShift
  | add
  | sub
  | mul
  | div
  | mod
  | concat
  /-- The part of a JSON value at a path, as JSON. -/
  | extract
  /-- The part of a JSON value at a path, as a plain value. -/
  | extractText
deriving DecidableEq, Repr

namespace BinaryOp

instance : Phrase BinaryOp where
  words
    | .or => ["OR"]
    | .and => ["AND"]
    | .eq => ["="]
    | .notEq => ["!="]
    | .is => ["IS"]
    | .isNot => ["IS", "NOT"]
    | .lt => ["<"]
    | .ltEq => ["<="]
    | .gt => [">"]
    | .gtEq => [">="]
    | .bitAnd => ["&"]
    | .bitOr => ["|"]
    | .leftShift => ["<<"]
    | .rightShift => [">>"]
    | .add => ["+"]
    | .sub => ["-"]
    | .mul => ["*"]
    | .div => ["/"]
    | .mod => ["%"]
    | .concat => ["||"]
    | .extract => ["->"]
    | .extractText => ["->>"]
  all :=
    [.or, .and, .eq, .notEq, .is, .isNot, .lt, .ltEq, .gt, .gtEq, .bitAnd, .bitOr, .leftShift,
      .rightShift, .add, .sub, .mul, .div, .mod, .concat, .extract, .extractText]
  mem_all a := by cases a <;> decide

def precedence : BinaryOp → Precedence
  | .or => .or
  | .and => .and
  | .eq | .notEq | .is | .isNot => .equality
  | .lt | .ltEq | .gt | .gtEq => .comparison
  | .bitAnd | .bitOr | .leftShift | .rightShift => .bitwise
  | .add | .sub => .additive
  | .mul | .div | .mod => .multiplicative
  | .concat | .extract | .extractText => .concat

/-- Every binary operator groups to the left. -/
def associativity (_ : BinaryOp) : Associativity := .left

/-- The tier that the right operand must reach. -/
def rightTier (op : BinaryOp) : Precedence :=
  match op.associativity with
  | .left => op.precedence.tighter
  | .right => op.precedence

/-- The symbols `==` and `<>` are second spellings of `=` and `!=`. -/
def standardSpelling (symbol : String) : String :=
  if symbol = "==" then "=" else if symbol = "<>" then "!=" else symbol

/-- The operator with this spelling, in letters of any case. -/
def ofSymbol (symbol : String) : Except Error BinaryOp :=
  let spelling := standardSpelling symbol
  match Phrase.all.find? fun op : BinaryOp => sameIgnoringCase (Phrase.sql op) spelling with
  | some op => .ok op
  | none => .error (.unknownOperator spelling)

end BinaryOp

/-! ## Operators with one operand -/

/-- Operators in front of their operand. -/
inductive UnaryOp where
  | neg
  | plus
  | bitNot
  | not
deriving DecidableEq, Repr

instance : Phrase UnaryOp where
  words
    | .neg => ["-"]
    | .plus => ["+"]
    | .bitNot => ["~"]
    | .not => ["NOT"]
  all := [.neg, .plus, .bitNot, .not]
  mem_all a := by cases a <;> decide

namespace UnaryOp

def precedence : UnaryOp → Precedence
  | .not => .not
  | .neg | .plus | .bitNot => .unary

/-- Operators in front of their operand nest to the right. -/
def associativity (_ : UnaryOp) : Associativity := .right

/-- A plus or a minus sign: a second sign directly after it would start a comment or read as
another operator. -/
def isSign : UnaryOp → Bool
  | .neg | .plus => true
  | .bitNot | .not => false

end UnaryOp

/-- Null tests after their operand. -/
inductive NullTest where
  /-- Written `IS NULL`. -/
  | isNull
  /-- Written `IS NOT NULL`. -/
  | isNotNull
  /-- Written `ISNULL`. -/
  | isnull
  /-- Written `NOTNULL`. -/
  | notnull
  /-- Written `NOT NULL`. -/
  | notNull
deriving DecidableEq, Repr

instance : Phrase NullTest where
  words
    | .isNull => ["IS", "NULL"]
    | .isNotNull => ["IS", "NOT", "NULL"]
    | .isnull => ["ISNULL"]
    | .notnull => ["NOTNULL"]
    | .notNull => ["NOT", "NULL"]
  all := [.isNull, .isNotNull, .isnull, .notnull, .notNull]
  mem_all a := by cases a <;> decide

/-- Operators that match a value against a pattern. -/
inductive PatternOp where
  | like
  | glob
  | matches
  | regexp
deriving DecidableEq

instance : Phrase PatternOp where
  words
    | .like => ["LIKE"]
    | .glob => ["GLOB"]
    | .matches => ["MATCH"]
    | .regexp => ["REGEXP"]
  all := [.like, .glob, .matches, .regexp]
  mem_all a := by cases a <;> decide

end SqliteSyntax
