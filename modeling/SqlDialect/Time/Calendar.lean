set_option autoImplicit false

/-! # Calendar dates

The Gregorian calendar, extended to all years in both directions, with the year before 1 being 0.
Days are counted from 1 January 1970. Years are reckoned from March, so that a leap day is the last
day of its year, and 400 of them always have the same number of days. -/

namespace SqlDialect

/-- A day of the calendar. -/
structure Date where
  year : Int
  month : Nat
  day : Nat
deriving Repr, DecidableEq

namespace Date

/-- How many days 1 January 1970 lies after 1 March of the year 0. -/
def epochOffset : Int := 719468

/-- The days of 400 years. -/
def daysPerEra : Nat := 146097

/-- The date of a day given by its number. -/
def ofDays (days : Int) : Date :=
  let shifted := days + epochOffset
  let era := shifted / daysPerEra
  let inEra := (shifted % daysPerEra).toNat
  let century := min (inEra / 36524) 3
  let inCentury := inEra - century * 36524
  let cycle := inCentury / 1461
  let inCycle := inCentury % 1461
  let rest := min (inCycle / 365) 3
  let inYear := inCycle - rest * 365
  let month := (5 * inYear + 2) / 153
  { year :=
      era * 400 + (century * 100 + cycle * 4 + rest : Nat) + (if month < 10 then 0 else 1)
    month := if month < 10 then month + 3 else month - 9
    day := inYear - (153 * month + 2) / 5 + 1 }

/-- The number of a date's day. -/
def toDays (d : Date) : Int :=
  let year := if d.month < 3 then d.year - 1 else d.year
  let month := if d.month < 3 then d.month + 9 else d.month - 3
  365 * year + year / 4 - year / 100 + year / 400 +
    ((153 * month + 2) / 5 + (d.day - 1) : Nat) - epochOffset

/-- Whether the year has a leap day. -/
def isLeapYear (year : Int) : Bool :=
  year % 4 == 0 && (year % 100 != 0 || year % 400 == 0)

/-- The number of days of a month. -/
def daysInMonth (year : Int) (month : Nat) : Nat :=
  if month = 2 then if isLeapYear year then 29 else 28
  else if [4, 6, 9, 11].contains month then 30
  else 31

/-- Whether the calendar has such a day. -/
def isValid (d : Date) : Bool :=
  1 ≤ d.month && d.month ≤ 12 && 1 ≤ d.day && d.day ≤ daysInMonth d.year d.month

end Date

/-- A time of day. -/
structure TimeOfDay where
  hour : Nat
  minute : Nat
  second : Nat
deriving Repr, DecidableEq

namespace TimeOfDay

/-- The time so many seconds after midnight. -/
def ofSeconds (n : Nat) : TimeOfDay :=
  ⟨n / 3600, n / 60 % 60, n % 60⟩

/-- The seconds since midnight. -/
def toSeconds (t : TimeOfDay) : Nat :=
  t.hour * 3600 + t.minute * 60 + t.second

/-- Whether a day has such a time. -/
def isValid (t : TimeOfDay) : Bool :=
  t.hour < 24 && t.minute < 60 && t.second < 60

end TimeOfDay

end SqlDialect
