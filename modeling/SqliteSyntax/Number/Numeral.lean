/-! # Decimal numerals

The text of a decimal number: an optional sign, a mantissa of digits with at most one point and at
least one digit, and an optional exponent. The text is kept as given. -/
namespace SqliteSyntax
set_option autoImplicit false

namespace Numeral

/-- The text without its leading sign. -/
def dropSign : List Char → List Char
  | '-' :: rest => rest
  | '+' :: rest => rest
  | cs => cs

def isExponentMark (c : Char) : Bool := c == 'e' || c == 'E'

def allDigits (cs : List Char) : Bool := cs.all Char.isDigit

/-- Digits around at most one point, at least one digit in all. -/
def isMantissa (cs : List Char) : Bool :=
  let whole := cs.takeWhile (· != '.')
  let fraction := (cs.dropWhile (· != '.')).drop 1
  !(whole.isEmpty && fraction.isEmpty) && allDigits whole && allDigits fraction

/-- Digits after an optional sign, at least one. -/
def isExponent (cs : List Char) : Bool :=
  let digits := dropSign cs
  !digits.isEmpty && allDigits digits

/-- A mantissa, then an exponent if an exponent mark follows it. -/
def isWritten (cs : List Char) : Bool :=
  let body := dropSign cs
  let mantissa := body.takeWhile (! isExponentMark ·)
  match body.dropWhile (! isExponentMark ·) with
  | [] => isMantissa mantissa
  | _ :: exponent => isMantissa mantissa && isExponent exponent

end Numeral

/-- The text of a decimal number. -/
structure Numeral where
  text : String
  written : Numeral.isWritten text.toList = true
deriving DecidableEq

namespace Numeral

/-- The numeral with this text, if the text is one. -/
def ofText? (text : String) : Option Numeral :=
  if h : Numeral.isWritten text.toList = true then some ⟨text, h⟩ else none

/-- The text begins with a minus sign. -/
def isNegative (n : Numeral) : Bool := n.text.toList.head? == some '-'

end Numeral
end SqliteSyntax
