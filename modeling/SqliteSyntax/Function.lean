import SqliteSyntax.Piece
import SqliteSyntax.Text.LetterCase

/-! # Functions

The built-in functions, whose names are keywords here, and functions that an application defines,
whose names are quoted. -/
namespace SqliteSyntax
set_option autoImplicit false

inductive Builtin where
  | abs
  | avg
  | changes
  | coalesce
  | count
  | date
  | datetime
  | groupConcat
  | hex
  | ifnull
  | iif
  | instr
  | json
  | jsonArray
  | jsonExtract
  | jsonObject
  | julianday
  | lastInsertRowid
  | length
  | likely
  | lower
  | ltrim
  | max
  | min
  | nullif
  | printf
  | quote
  | random
  | replace
  | round
  | rtrim
  | strftime
  | substr
  | sum
  | time
  | total
  | trim
  | typeof
  | unicode
  | upper
deriving DecidableEq

def Builtin.sql : Builtin → String
  | .abs => "ABS"
  | .avg => "AVG"
  | .changes => "CHANGES"
  | .coalesce => "COALESCE"
  | .count => "COUNT"
  | .date => "DATE"
  | .datetime => "DATETIME"
  | .groupConcat => "GROUP_CONCAT"
  | .hex => "HEX"
  | .ifnull => "IFNULL"
  | .iif => "IIF"
  | .instr => "INSTR"
  | .json => "JSON"
  | .jsonArray => "JSON_ARRAY"
  | .jsonExtract => "JSON_EXTRACT"
  | .jsonObject => "JSON_OBJECT"
  | .julianday => "JULIANDAY"
  | .lastInsertRowid => "LAST_INSERT_ROWID"
  | .length => "LENGTH"
  | .likely => "LIKELY"
  | .lower => "LOWER"
  | .ltrim => "LTRIM"
  | .max => "MAX"
  | .min => "MIN"
  | .nullif => "NULLIF"
  | .printf => "PRINTF"
  | .quote => "QUOTE"
  | .random => "RANDOM"
  | .replace => "REPLACE"
  | .round => "ROUND"
  | .rtrim => "RTRIM"
  | .strftime => "STRFTIME"
  | .substr => "SUBSTR"
  | .sum => "SUM"
  | .time => "TIME"
  | .total => "TOTAL"
  | .trim => "TRIM"
  | .typeof => "TYPEOF"
  | .unicode => "UNICODE"
  | .upper => "UPPER"

/-- Every built-in function. -/
def Builtin.all : List Builtin :=
  [.abs, .avg, .changes, .coalesce, .count, .date, .datetime, .groupConcat, .hex, .ifnull, .iif,
    .instr, .json, .jsonArray, .jsonExtract, .jsonObject, .julianday, .lastInsertRowid, .length,
    .likely, .lower, .ltrim, .max, .min, .nullif, .printf, .quote, .random, .replace, .round,
    .rtrim, .strftime, .substr, .sum, .time, .total, .trim, .typeof, .unicode, .upper]

theorem Builtin.mem_all (f : Builtin) : f ∈ all := by
  cases f <;> decide

/-- The built-in function of this name, in letters of any case. -/
def Builtin.ofName? (name : String) : Option Builtin :=
  all.find? fun f => sameIgnoringCase f.sql name

/-- The name of a called function. -/
inductive FunctionName where
  | builtin (function : Builtin)
  | defined (name : String)
deriving DecidableEq

/-- A built-in name stands bare, any other is quoted. -/
def FunctionName.pieces : FunctionName → List Piece
  | .builtin f => [.fixed f.sql]
  | .defined name => [.name name]

end SqliteSyntax
