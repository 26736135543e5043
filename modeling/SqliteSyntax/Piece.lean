import SqliteSyntax.Text.Quoted
import SqliteSyntax.Text.Hex

/-! # Pieces of statement text

Statement text is written as a list of pieces: fixed words and marks of the grammar, quoted names
and texts, blobs, numerals, text that the caller supplies as it stands, and single spaces. The text
of a list is the concatenation of its pieces (`text`).

The parentheses that operator precedence asks for are pieces of their own, so they can be told from
the parentheses that belong to a call, a list or a subquery. -/
namespace SqliteSyntax
set_option autoImplicit false

/-- One piece of statement text. -/
inductive Piece where
  /-- A single blank. -/
  | space
  /-- A keyword, operator or punctuation mark of the grammar. -/
  | fixed (token : String)
  /-- A name, written as a quoted identifier. -/
  | name (content : String)
  /-- A text value, written as a quoted string. -/
  | text (content : String)
  /-- A byte string, written as `X'..'`. -/
  | blob (bytes : List UInt8)
  /-- A number, sign included. -/
  | numeral (digits : String)
  /-- Text that stands as the caller gave it. -/
  | verbatim (content : String)
  /-- An opening parenthesis that precedence asks for. -/
  | groupOpen
  /-- The closing partner of `groupOpen`. -/
  | groupClose
deriving DecidableEq

namespace Piece

/-- The characters of a piece. -/
def chars : Piece → List Char
  | .space => [' ']
  | .fixed token => token.toList
  | .name content => Quoted.encode '"' content.toList
  | .text content => Quoted.encode '\'' content.toList
  | .blob bytes => 'X' :: '\'' :: Hex.ofBytes bytes ++ ['\'']
  | .numeral digits => digits.toList
  | .verbatim content => content.toList
  | .groupOpen => ['(']
  | .groupClose => [')']

end Piece

/-- The characters of a list of pieces. -/
def charsOf (ps : List Piece) : List Char :=
  ps.flatMap Piece.chars

@[simp] theorem charsOf_nil : charsOf [] = [] := rfl

@[simp] theorem charsOf_cons (p : Piece) (ps : List Piece) :
    charsOf (p :: ps) = p.chars ++ charsOf ps := rfl

@[simp] theorem charsOf_append (ps qs : List Piece) :
    charsOf (ps ++ qs) = charsOf ps ++ charsOf qs := by
  simp [charsOf]

/-- The text of a list of pieces. -/
def textOf (ps : List Piece) : String :=
  String.ofList (charsOf ps)

/-! ## Putting pieces together -/

/-- A single keyword or mark. -/
def token (t : String) : List Piece := [.fixed t]

/-- Parts with a separator between each two. -/
def separated (separator : List Piece) : List (List Piece) → List Piece
  | [] => []
  | [part] => part
  | part :: rest => part ++ separator ++ separated separator rest

/-- Parts separated by a comma and a space. -/
def commaSeparated (parts : List (List Piece)) : List Piece :=
  separated [.fixed ",", .space] parts

/-- Keywords separated by one space. -/
def phrase (words : List String) : List Piece :=
  separated [.space] (words.map token)

/-- A part between the parentheses of a list, call or subquery. -/
def parenthesized (ps : List Piece) : List Piece :=
  .fixed "(" :: ps ++ [.fixed ")"]

/-- A part between the parentheses of precedence, if they are needed. -/
def groupedIf (needed : Bool) (ps : List Piece) : List Piece :=
  if needed then .groupOpen :: ps ++ [.groupClose] else ps

/-- Quoted names in a parenthesized list. -/
def nameList (names : List String) : List Piece :=
  parenthesized (commaSeparated (names.map fun n => [.name n]))

/-- A part after a space, or nothing. -/
def spaced (part : Option (List Piece)) : List Piece :=
  match part with
  | none => []
  | some ps => .space :: ps

/-- An optional clause: a space, its keywords, a space and its body. -/
def clause (words : List String) (body : Option (List Piece)) : List Piece :=
  spaced (body.map fun ps => phrase words ++ .space :: ps)

/-- The part, or nothing at all when the condition fails. -/
def onlyIf (condition : Bool) (ps : List Piece) : List Piece :=
  if condition then ps else []

/-- The first character of the text is a plus or a minus sign. -/
def leadsWithSign (ps : List Piece) : Bool :=
  match charsOf ps with
  | c :: _ => c == '-' || c == '+'
  | [] => false

end SqliteSyntax
