/-! # Finite reals

Binary floating-point numbers of 64 bits in the interchange format: a sign bit, eleven exponent bits
and 52 fraction bits. A magnitude is `mantissa * 2 ^ exponent`. -/
namespace SqliteSyntax
set_option autoImplicit false

namespace Binary64

/-- The eleven exponent bits. -/
def exponentField (bits : UInt64) : Nat := bits.toNat / Nat.pow 2 52 % Nat.pow 2 11

/-- The 52 fraction bits. -/
def fractionField (bits : UInt64) : Nat := bits.toNat % Nat.pow 2 52

/-- The sign bit. -/
def isNegative (bits : UInt64) : Bool := bits.toNat / Nat.pow 2 63 == 1

/-- Not an infinity and not a NaN. -/
def isFinite (bits : UInt64) : Bool := exponentField bits != 2047

/-- The whole mantissa: a set exponent field adds the hidden leading one. -/
def mantissa (bits : UInt64) : Nat :=
  if exponentField bits = 0 then fractionField bits else Nat.pow 2 52 + fractionField bits

/-- The power of two that the mantissa counts. -/
def exponent (bits : UInt64) : Int :=
  (max (exponentField bits) 1 : Nat) - 1075

end Binary64

/-- The values without a decimal text. -/
inductive NonFinite where
  | nan
  | positiveInfinity
  | negativeInfinity
deriving DecidableEq

def NonFinite.text : NonFinite → String
  | .nan => "NaN"
  | .positiveInfinity => "inf"
  | .negativeInfinity => "-inf"

/-- The class of a bit pattern whose exponent field is full. -/
def NonFinite.ofBits (bits : UInt64) : NonFinite :=
  if Binary64.fractionField bits = 0 then
    if Binary64.isNegative bits then .negativeInfinity else .positiveInfinity
  else .nan

/-- A finite 64-bit real, told apart by its bits: the two zeros differ. -/
structure FiniteReal where
  bits : UInt64
  isFinite : Binary64.isFinite bits = true
deriving DecidableEq

namespace FiniteReal

/-- The real of a bit pattern, or the class of the pattern if it is not finite. -/
def ofBits (bits : UInt64) : Except NonFinite FiniteReal :=
  if h : Binary64.isFinite bits = true then .ok ⟨bits, h⟩ else .error (.ofBits bits)

def isNegative (r : FiniteReal) : Bool := Binary64.isNegative r.bits

def isZero (r : FiniteReal) : Bool := Binary64.mantissa r.bits == 0

/-- Equality of the numbers: the two zeros are the same number, all other patterns differ. -/
def sameNumber (a b : FiniteReal) : Bool := a.bits == b.bits || a.isZero && b.isZero

end FiniteReal
end SqliteSyntax
