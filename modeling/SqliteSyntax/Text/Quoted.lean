/-! # Quoted tokens

A quoted token is a delimiter, the content with every delimiter written twice, and the delimiter
again. Names take the double quote, text values the single quote, so no content can end its own
token. -/
namespace SqliteSyntax
set_option autoImplicit false

namespace Quoted

/-- The content of a quoted token: the delimiter is written twice, all else once. -/
def doubled (delimiter : Char) : List Char → List Char
  | [] => []
  | c :: rest =>
    if c = delimiter then c :: c :: doubled delimiter rest else c :: doubled delimiter rest

/-- A quoted token: the doubled content between two delimiters. -/
def encode (delimiter : Char) (content : List Char) : List Char :=
  delimiter :: doubled delimiter content ++ [delimiter]

end Quoted

/-- A name as an identifier in double quotes. -/
def quoteIdentifier (name : String) : String :=
  String.ofList (Quoted.encode '"' name.toList)

/-- A text value as a string literal in single quotes. -/
def quoteText (value : String) : String :=
  String.ofList (Quoted.encode '\'' value.toList)

end SqliteSyntax
