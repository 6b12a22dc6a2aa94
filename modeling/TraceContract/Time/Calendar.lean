/-!
# The calendar

Days are counted from 1 January 1970 and named in the Gregorian calendar, which is carried back
without a break to the time before it was used.

- `Date.ofDay` names a day, `Date.toDay` counts a date's days.
- `Date.Valid` says which dates there are.
-/

namespace TraceContract

/-- A date: the year, the month from 1 to 12 and the day of the month from 1. -/
structure Date where
  year : Int
  month : Nat
  day : Nat
  deriving DecidableEq

namespace Date

/-- Every fourth year is a leap year, of the full centuries only every fourth. -/
def isLeap (year : Int) : Bool :=
  year % 4 = 0 && (year % 100 ≠ 0 || year % 400 = 0)

/-- The days of each month of a year. -/
def monthLengths (leap : Bool) : List Nat :=
  [31, if leap then 29 else 28, 31, 30, 31, 30, 31, 31, 30, 31, 30, 31]

/-- The dates that the calendar has. -/
def Valid (d : Date) : Prop :=
  1 ≤ d.month ∧ 1 ≤ d.day ∧
    ∃ length, (monthLengths (isLeap d.year))[d.month - 1]? = some length ∧ d.day ≤ length

/-- How many days lie between 1 January 1970 and 1 January of the year 1. -/
def daysBefore1970 : Int := 719162

/-- The days of the years from the year 1 up to a year. -/
def daysBeforeYear (year : Int) : Int :=
  let past := year - 1
  365 * past + past / 4 - past / 100 + past / 400

/-- The month and the day of the month, both from 1, of a day of the year counted from 0. -/
def locate : (lengths : List Nat) → (month dayOfYear : Nat) → Nat × Nat
  | [], month, dayOfYear => (month, dayOfYear + 1)
  | length :: later, month, dayOfYear =>
    if dayOfYear < length then (month, dayOfYear + 1)
    else locate later (month + 1) (dayOfYear - length)

/-- The name of a day.  A cycle of 400 years has 146097 days; in it every century but the last
has 36524, every four years but those of a short century have 1461, every year but a leap year
has 365. -/
def ofDay (day : Int) : Date :=
  let days := day + daysBefore1970
  let cycle := days / 146097
  let inCycle := (days % 146097).toNat
  let century := min (inCycle / 36524) 3
  let inCentury := inCycle - 36524 * century
  let olympiad := inCentury / 1461
  let inOlympiad := inCentury % 1461
  let single := min (inOlympiad / 365) 3
  let dayOfYear := inOlympiad - 365 * single
  let year : Int := 400 * cycle + 100 * century + 4 * olympiad + single + 1
  let (month, dayOfMonth) := locate (monthLengths (isLeap year)) 1 dayOfYear
  ⟨year, month, dayOfMonth⟩

/-- The days of the months before a month. -/
def daysBeforeMonth (lengths : List Nat) (month : Nat) : Nat :=
  (lengths.take (month - 1)).foldl (· + ·) 0

/-- The day that a date names. -/
def toDay (d : Date) : Int :=
  daysBeforeYear d.year + (daysBeforeMonth (monthLengths (isLeap d.year)) d.month : Int) +
    (d.day : Int) - 1 - daysBefore1970

end Date

end TraceContract
