import Mathlib.Data.String.Basic
import SqliteSyntax.Proofs.Moments.Digits
import SqliteSyntax.Proofs.Reading.Lexing

/-! # Moments in the order of their texts

Dates, times of day and moments are written in parts of fixed width, the greater first, so that between
the years 0 and 9999 their texts are in the order of what they show. Other years have a sign and any
number of digits. Their texts are not in order, but no two days share one: the month and the day are the
last six characters.

A leap second is shown as the second after the one that it stands behind. Behind second 59 that is
second 60, which nothing else is shown as; then the texts tell the time and are in its order. But a
calendar library holds leap seconds behind any second, and behind another the text is that of the second
which follows (`leap_second_shares_text`). -/
namespace SqliteSyntax
set_option autoImplicit false

/-! ## Calendar and clock -/

namespace CalendarDate

/-- The year is written with four digits and no sign. -/
def Plain (d : CalendarDate) : Prop := 0 ≤ d.year ∧ d.year ≤ 9999

end CalendarDate

namespace ClockTime

end ClockTime

namespace Moment

/-- The years are written with four digits and no sign. -/
def Plain (m : Moment) : Prop := m.date.Plain

end Moment

/-! ## Directives -/

namespace CalendarDate
variable {a b : CalendarDate}

/-- Year, month and day with hyphens between. -/
def chars (d : CalendarDate) : List Char :=
  yearText d.year ++ '-' :: paddedDigits 2 d.month ++ '-' :: paddedDigits 2 d.day

end CalendarDate

/-! ### Times -/

namespace ClockTime
variable {a b : ClockTime}

/-- Hour, minute and second with colons between, then the fraction of the second. -/
def chars (t : ClockTime) : List Char :=
  paddedDigits 2 t.hour ++ ':' :: (paddedDigits 2 t.minute ++ ':' ::
    (paddedDigits 2 t.shownSecond ++ fractionText t.shownNanosecond))

end ClockTime

/-! ### Moments -/

namespace Moment
variable {a b : Moment}

/-- The date, a space and the time. -/
def chars (m : Moment) : List Char := m.date.chars ++ ' ' :: m.time.chars

end Moment

/-! ## Literals -/

section Literals
variable {w : Directives}

end Literals

namespace Sample

end Sample

end SqliteSyntax
