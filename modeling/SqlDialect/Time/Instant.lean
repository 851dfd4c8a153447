import SqlDialect.Text.Bytes
import SqlDialect.Time.Calendar

set_option autoImplicit false

/-! # Instants

Points in time to the nanosecond, and their text: `2024-04-10T19:33:45.12Z`, with as many decimals as
are needed. The text has room for four digits of the year, so an instant outside the years 0 to 9999
is written with more but cannot be read back. -/

namespace SqlDialect

/-- A point in time: seconds since 1 January 1970 and nanoseconds beyond them. -/
structure Instant where
  seconds : Int
  nanos : Nat := 0
  nanos_lt : nanos < 1000000000 := by decide
deriving Repr, DecidableEq

/-- A number in decimal, with leading zeros up to the given width. -/
def Bytes.padded (width n : Nat) : Bytes :=
  let digits := Bytes.decimal n
  List.replicate (width - digits.length) 48 ++ digits

namespace Instant

/-- How many seconds 1 January 1970 lies after the first second that can be counted, which begins
1 March of the year -292277022400. -/
def countOffset : Int := 9223372028741760000

/-- Seconds as they are counted, in 64 bits: behind the last second comes the first one again. -/
def counted (seconds : Int) : Int :=
  (seconds + countOffset) % 18446744073709551616 - countOffset

/-- The instant so many seconds and nanoseconds after 1 January 1970; either may be negative. -/
def ofUnix (seconds nanos : Int) : Instant :=
  { seconds := counted (seconds + nanos / 1000000000)
    nanos := (nanos % 1000000000).toNat
    nanos_lt := by omega }

/-- The first moment of the year 1, which stands for a time that was not given. -/
def unset : Instant :=
  { seconds := -62135596800 }

/-- The day of an instant. -/
def date (t : Instant) : Date :=
  Date.ofDays (t.seconds / 86400)

/-- The time of day of an instant. -/
def timeOfDay (t : Instant) : TimeOfDay :=
  TimeOfDay.ofSeconds (t.seconds % 86400).toNat

/-- A year with at least four digits. -/
def yearText (year : Int) : Bytes :=
  if year < 0 then 45 :: Bytes.padded 4 year.natAbs else Bytes.padded 4 year.natAbs

/-- A date as `2024-04-10`. -/
def dateText (d : Date) : Bytes :=
  yearText d.year ++ ascii "-" ++ Bytes.padded 2 d.month ++ ascii "-" ++ Bytes.padded 2 d.day

/-- A time as `19:33:45`. -/
def timeText (t : TimeOfDay) : Bytes :=
  Bytes.padded 2 t.hour ++ ascii ":" ++ Bytes.padded 2 t.minute ++ ascii ":" ++
    Bytes.padded 2 t.second

/-- The decimals of a second with their point; empty if there are none. -/
def fractionText (nanos : Nat) : Bytes :=
  if nanos = 0 then [] else 46 :: Bytes.dropTailWhile (· == 48) (Bytes.padded 9 nanos)

/-- An instant as `2024-04-10T19:33:45.12Z`. -/
def timestamp (t : Instant) : Bytes :=
  dateText t.date ++ ascii "T" ++ timeText t.timeOfDay ++ fractionText t.nanos ++ ascii "Z"

/-- An instant as `2024-04-10 19:33:45`, without its decimals. -/
def shortText (t : Instant) : Bytes :=
  dateText t.date ++ ascii " " ++ timeText t.timeOfDay

/-! ## Reading -/

/-- Reads so many digits. -/
def digits? (count : Nat) (s : Bytes) : Option (Nat × Bytes) :=
  let digits := s.take count
  if digits.length = count ∧ digits.all Bytes.isDigit then
    some (Bytes.digitsValue digits, s.drop count)
  else none

/-- Reads a date with a year of four digits. -/
def date? (s : Bytes) : Option (Date × Bytes) := do
  let (year, s) ← digits? 4 s
  let (month, s) ← digits? 2 (← Bytes.dropLead? (ascii "-") s)
  let (day, s) ← digits? 2 (← Bytes.dropLead? (ascii "-") s)
  let d : Date := ⟨year, month, day⟩
  if d.isValid then some (d, s) else none

/-- Reads a time of day. -/
def time? (s : Bytes) : Option (TimeOfDay × Bytes) := do
  let (hour, s) ← digits? 2 s
  let (minute, s) ← digits? 2 (← Bytes.dropLead? (ascii ":") s)
  let (second, s) ← digits? 2 (← Bytes.dropLead? (ascii ":") s)
  let t : TimeOfDay := ⟨hour, minute, second⟩
  if t.isValid then some (t, s) else none

/-- Reads the decimals of a second; those beyond the ninth do not count. -/
def fraction? : Bytes → Option (Nat × Bytes)
  | 46 :: s =>
    let digits := s.takeWhile Bytes.isDigit
    if digits.isEmpty then none
    else
      let nine := digits.take 9
      some (Bytes.digitsValue nine * Nat.pow 10 (9 - nine.length), s.dropWhile Bytes.isDigit)
  | s => some (0, s)

/-- Reads the text of an instant. -/
def ofTimestamp? (s : Bytes) : Option Instant := do
  let (date, s) ← date? s
  let (time, s) ← time? (← Bytes.dropLead? (ascii "T") s)
  let (nanos, s) ← fraction? s
  if s = ascii "Z" then some (ofUnix (date.toDays * 86400 + time.toSeconds) nanos) else none

end Instant

end SqlDialect
