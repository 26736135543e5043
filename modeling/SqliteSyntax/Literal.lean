import SqliteSyntax.Error
import SqliteSyntax.Moment
import SqliteSyntax.Number.Numeral
import SqliteSyntax.Number.Shortest

/-! # Literals

Values that stand inline in statement text, and the values that can be made into literals. -/
namespace SqliteSyntax
set_option autoImplicit false

/-- A literal value. -/
inductive Literal where
  | null
  | boolean (value : Bool)
  | integer (value : Int64)
  | real (value : FiniteReal)
  /-- An exact decimal, kept as written. -/
  | decimal (value : Numeral)
  | text (value : String)
  | blob (bytes : List UInt8)
  | currentTime
  | currentDate
  | currentTimestamp
deriving DecidableEq

namespace Literal

def pieces : Literal → List Piece
  | .null => [.fixed "NULL"]
  | .boolean true => [.fixed "TRUE"]
  | .boolean false => [.fixed "FALSE"]
  | .integer value => [.numeral (String.ofList (Decimal.integerText value.toInt))]
  | .real value => [.numeral value.text]
  | .decimal value => [.numeral value.text]
  | .text value => [.text value]
  | .blob bytes => [.blob bytes]
  | .currentTime => [.fixed "CURRENT_TIME"]
  | .currentDate => [.fixed "CURRENT_DATE"]
  | .currentTimestamp => [.fixed "CURRENT_TIMESTAMP"]

def sql (l : Literal) : String := textOf l.pieces

/-- A number whose text begins with a minus sign. -/
def isNegativeNumber : Literal → Bool
  | .integer value => decide (value.toInt < 0)
  | .real value => value.isNegative
  | .decimal value => value.isNegative
  | _ => false

/-- The same literal, real numbers compared as numbers. -/
def same : Literal → Literal → Bool
  | .real a, .real b => a.sameNumber b
  | a, b => decide (a = b)

end Literal

/-! ## Values made into literals -/

/-- A value as JSON text carries it. Integers and reals are told apart. -/
inductive JsonValue where
  | null
  | boolean (value : Bool)
  | integer (value : Int)
  | real (value : FiniteReal)
  | text (value : String)
  | array (items : List JsonValue)
  | object (fields : List (String × JsonValue))

/-- A real given by its bits. JSON has no text for what is not finite, so that becomes null. -/
def JsonValue.ofRealBits (bits : UInt64) : JsonValue :=
  match FiniteReal.ofBits bits with
  | .ok value => .real value
  | .error _ => .null

/-- The numeral with this text, which must be one. -/
def Numeral.ofText (text : String) : Except Error Numeral :=
  match Numeral.ofText? text with
  | some value => .ok value
  | none => .error (.unsupportedValue (.notNumeral text))

namespace Literal

/-- The integer literal of a number in range, else nothing. -/
def ofInt? (n : Int) : Option Literal :=
  if Int64.minValue.toInt ≤ n ∧ n ≤ Int64.maxValue.toInt then some (.integer (.ofInt n)) else none

/-- An unsigned number, if a signed integer of 64 bits holds it. -/
def ofUnsigned (n : Nat) : Except Error Literal :=
  match ofInt? n with
  | some l => .ok l
  | none => .error (.unsupportedValue (.integerTooLarge n))

/-- A real of 64 bits, given by its bits, if it is finite. -/
def ofRealBits (bits : UInt64) : Except Error Literal :=
  match FiniteReal.ofBits bits with
  | .ok value => .ok (.real value)
  | .error value => .error (.unsupportedValue (.nonFinite value))

/-- An exact decimal, if the text is a numeral. -/
def ofDecimalText (text : String) : Except Error Literal :=
  (Numeral.ofText text).map .decimal

/-- A scalar JSON value; integers must fit 64 bits. -/
def ofJson : JsonValue → Except Error Literal
  | .null => .ok .null
  | .boolean value => .ok (.boolean value)
  | .integer n =>
    match ofInt? n with
    | some l => .ok l
    | none => .error (.unsupportedValue (.jsonIntegerOutOfRange n))
  | .real value => .ok (.real value)
  | .text value => .ok (.text value)
  | .array _ => .error (.unsupportedValue .jsonArray)
  | .object _ => .error (.unsupportedValue .jsonObject)

/-- An absent value is null. -/
def ofOption (value : Option Literal) : Literal := value.getD .null

/-! ### Dates and times -/

section Calendar
variable (w : Directives)

def ofDateBy (d : CalendarDate) : Literal := .text (w.dateText d)

def ofTimeBy (t : ClockTime) : Literal := .text (w.timeText t)

def ofMomentBy (m : Moment) : Literal := .text (w.momentText m)

/-- What is shown, without a zone. -/
def ofUtcMomentBy (m : UtcMoment) : Literal := ofMomentBy w m.shown

end Calendar

def ofDate : CalendarDate → Literal := ofDateBy .standard

def ofTime : ClockTime → Literal := ofTimeBy .standard

def ofMoment : Moment → Literal := ofMomentBy .standard

def ofUtcMoment : UtcMoment → Literal := ofUtcMomentBy .standard

end Literal
end SqliteSyntax
