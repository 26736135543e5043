import SqliteSyntax.Number.Real

/-! # Shortest decimal text of a real

A decimal reads back as a binary number when it lies in the interval of reals that round to that
number. The text of a real shows the decimal of that interval that lies on the coarsest decimal grid
`c * 10 ^ e` meeting it, which is the one with the fewest digits; where two neighbours on the grid
lie in the interval the nearer is taken, and the larger when both are equally near.

All comparisons are between natural numbers, so nothing is rounded on the way. -/
namespace SqliteSyntax
set_option autoImplicit false

/-- The decimal number `coefficient * 10 ^ exponent`. -/
structure Decimal where
  coefficient : Nat
  exponent : Int
deriving DecidableEq

namespace Binary64

/-- The four-fold distance from a magnitude to the lower end of its interval, in units of its last
place: the gap below a power of two is half as wide as the gap above, except at the smallest
exponent. -/
def lowerQuarters (bits : UInt64) : Nat :=
  if fractionField bits = 0 ∧ 1 < exponentField bits then 1 else 2

/-- Ties go to the even mantissa, which thus owns both ends of its interval. -/
def ownsEnds (bits : UInt64) : Bool := mantissa bits % 2 == 0

end Binary64

namespace Shortest

/-- What a quarter of the last place counts for when `4 * mantissa * 2 ^ (q - 2)` and `c * 10 ^ e`
are both multiplied with the denominators of their powers. -/
def binaryUnit (q e : Int) : Nat := Nat.pow 2 (q - 2).toNat * Nat.pow 10 (-e).toNat

/-- What one step of the decimal grid counts for on the common scale. -/
def decimalUnit (q e : Int) : Nat := Nat.pow 2 (2 - q).toNat * Nat.pow 10 e.toNat

/-- The point `c` of the decimal grid `10 ^ e` lies in the interval of the magnitude. -/
def reads (bits : UInt64) (e : Int) (c : Nat) : Bool :=
  let q := Binary64.exponent bits
  let quarters := 4 * Binary64.mantissa bits
  let low := (quarters - Binary64.lowerQuarters bits) * binaryUnit q e
  let high := (quarters + 2) * binaryUnit q e
  let point := c * decimalUnit q e
  if Binary64.ownsEnds bits then low ≤ point && point ≤ high else low < point && point < high

/-- The nearer of the magnitude's two neighbours on the grid `10 ^ e`, if it reads back, else the
other one if that does. -/
def onGrid? (bits : UInt64) (e : Int) : Option Decimal :=
  let q := Binary64.exponent bits
  let value := 4 * Binary64.mantissa bits * binaryUnit q e
  let unit := decimalUnit q e
  let below := value / unit
  let (near, far) := if 2 * (value % unit) < unit then (below, below + 1) else (below + 1, below)
  if reads bits e near then some ⟨near, e⟩
  else if reads bits e far then some ⟨far, e⟩
  else none

/-- The first hit on the grids `10 ^ e`, `10 ^ (e - 1)`, … . -/
def search (bits : UInt64) : Nat → Int → Option Decimal
  | 0, _ => none
  | n + 1, e => (onGrid? bits e).or (search bits n (e - 1))

/-- A grid coarser than any that meets the interval: a magnitude below `2 ^ b` is below `10 ^ e` for
`e = b / 3 + 1` and, when `b` is negative, for `e = b / 4 + 1`. -/
def coarsestExponent (bits : UInt64) : Int :=
  let b : Int := Binary64.exponent bits + Nat.log2 (Binary64.mantissa bits) + 2
  if 0 ≤ b then b / 3 + 1 else b / 4 + 1

/-- The exact value as a decimal. -/
def exact (bits : UInt64) : Decimal :=
  let q := Binary64.exponent bits
  ⟨Binary64.mantissa bits * Nat.pow 2 q.toNat * Nat.pow 5 (-q).toNat, min q 0⟩

/-- The shortest decimal that reads back as the magnitude. The search meets a hit long before its
bound, and the exact value stands for the case that it did not. -/
def decimal (bits : UInt64) : Decimal :=
  (search bits 800 (coarsestExponent bits)).getD (exact bits)

end Shortest

/-! ## Layout -/

namespace Decimal

def digits (d : Decimal) : List Char := Nat.toDigits 10 d.coefficient

/-- How many digits stand before the decimal point; zero or less when the number is below one tenth
or one. -/
def pointPosition (d : Decimal) : Int := d.digits.length + d.exponent

/-- Positional text with at least one digit on each side of the point. -/
def positional (d : Decimal) : List Char :=
  let ds := d.digits
  let point := d.pointPosition
  if point ≤ 0 then '0' :: '.' :: List.replicate (-point).toNat '0' ++ ds
  else if point < ds.length then ds.take point.toNat ++ '.' :: ds.drop point.toNat
  else ds ++ List.replicate (point - ds.length).toNat '0' ++ ['.', '0']

/-- The text of an integer with a minus sign if it is negative. -/
def integerText (n : Int) : List Char :=
  if n < 0 then '-' :: Nat.toDigits 10 n.natAbs else Nat.toDigits 10 n.natAbs

/-- Exponent text: one digit, the other digits after a point if there are any, `e`, and the power of
ten of the first digit. -/
def scientific (d : Decimal) : List Char :=
  let fraction := d.digits.drop 1
  d.digits.take 1 ++ (if fraction.isEmpty then [] else '.' :: fraction) ++
    'e' :: integerText (d.pointPosition - 1)

/-- Numbers from `10 ^ -4` up to `10 ^ 16` are written positionally, all others with an exponent. -/
def text (d : Decimal) : List Char :=
  if -3 ≤ d.pointPosition ∧ d.pointPosition ≤ 16 then d.positional else d.scientific

end Decimal

/-- The text of a magnitude; zero is `0.0`. -/
def Binary64.magnitudeText (bits : UInt64) : List Char :=
  if Binary64.mantissa bits = 0 then ['0', '.', '0'] else (Shortest.decimal bits).text

/-- The text of a real: a minus sign if the sign bit is set, also for zero, then its magnitude. -/
def FiniteReal.text (r : FiniteReal) : String :=
  String.ofList (if r.isNegative then '-' :: Binary64.magnitudeText r.bits
    else Binary64.magnitudeText r.bits)

end SqliteSyntax
