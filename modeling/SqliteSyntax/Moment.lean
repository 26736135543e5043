/-! # Calendar dates and clock times

The text of dates, times of day and their pairs, in the form that date functions read: `2024-01-31`,
`12:30:05.250`, and both with a space between. What is written for a part of a date or a time is up to a
calendar library (`Directives`). -/
namespace SqliteSyntax
set_option autoImplicit false

/-- The decimal digits of a number, with zeros in front up to a least width. -/
def paddedDigits (width n : Nat) : List Char :=
  let ds := Nat.toDigits 10 n
  List.replicate (width - ds.length) '0' ++ ds

/-- A day of the calendar. -/
structure CalendarDate where
  year : Int
  month : Nat
  day : Nat
deriving DecidableEq

/-- A time of day. A leap second is a billion nanoseconds or more behind a second. -/
structure ClockTime where
  hour : Nat
  minute : Nat
  second : Nat
  nanosecond : Nat
deriving DecidableEq

/-- A day and a time of day. -/
structure Moment where
  date : CalendarDate
  time : ClockTime
deriving DecidableEq

/-- A moment of universal time, kept as what calendar and clock show at longitude zero. -/
structure UtcMoment where
  shown : Moment
deriving DecidableEq

/-! ## Formats -/

/-- What a calendar library writes for the directives of a format. -/
structure Directives where
  /-- `%Y` -/
  year : CalendarDate → String
  /-- `%m` -/
  month : CalendarDate → String
  /-- `%d` -/
  day : CalendarDate → String
  /-- `%H` -/
  hour : ClockTime → String
  /-- `%M` -/
  minute : ClockTime → String
  /-- `%S` -/
  second : ClockTime → String
  /-- `%.f` -/
  fraction : ClockTime → String

namespace Directives

/-- `%Y-%m-%d` -/
def dateText (w : Directives) (d : CalendarDate) : String :=
  w.year d ++ "-" ++ w.month d ++ "-" ++ w.day d

/-- `%H:%M:%S%.f` -/
def timeText (w : Directives) (t : ClockTime) : String :=
  w.hour t ++ ":" ++ w.minute t ++ ":" ++ w.second t ++ w.fraction t

/-- `%Y-%m-%d %H:%M:%S%.f` -/
def momentText (w : Directives) (m : Moment) : String :=
  w.dateText m.date ++ " " ++ w.timeText m.time

end Directives

/-! ## The usual directives -/

/-- Years 0 to 9999 have four digits; all others have a sign and at least four. -/
def CalendarDate.yearText (year : Int) : List Char :=
  if 0 ≤ year ∧ year ≤ 9999 then paddedDigits 4 year.natAbs
  else (if year < 0 then '-' else '+') :: paddedDigits 4 year.natAbs

namespace ClockTime

def nanosecondsPerSecond : Nat := 1000000000

/-- A leap second is shown as the second after the one that it stands behind. -/
def shownSecond (t : ClockTime) : Nat := t.second + t.nanosecond / nanosecondsPerSecond

/-- The nanoseconds of the second that is shown. -/
def shownNanosecond (t : ClockTime) : Nat := t.nanosecond % nanosecondsPerSecond

/-- Nothing for a whole second, else a point and three, six or nine digits, the fewest that are
exact. -/
def fractionText (nanosecond : Nat) : List Char :=
  if nanosecond = 0 then []
  else if nanosecond % 1000000 = 0 then '.' :: paddedDigits 3 (nanosecond / 1000000)
  else if nanosecond % 1000 = 0 then '.' :: paddedDigits 6 (nanosecond / 1000)
  else '.' :: paddedDigits 9 nanosecond

end ClockTime

/-- Everything but the year and the fraction has two digits. -/
def Directives.standard : Directives where
  year d := String.ofList (CalendarDate.yearText d.year)
  month d := String.ofList (paddedDigits 2 d.month)
  day d := String.ofList (paddedDigits 2 d.day)
  hour t := String.ofList (paddedDigits 2 t.hour)
  minute t := String.ofList (paddedDigits 2 t.minute)
  second t := String.ofList (paddedDigits 2 t.shownSecond)
  fraction t := String.ofList (ClockTime.fractionText t.shownNanosecond)

end SqliteSyntax
