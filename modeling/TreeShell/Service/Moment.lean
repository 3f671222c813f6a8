/-!
# Moments

A clock shows a moment as seconds since the start of 1970 in UTC together with the offset of the
place where it hangs. The date line is reckoned in the proleptic calendar, in local time. Leap
seconds are carried as a fraction beyond the last second of their minute.

## Main definitions

* `Moment`: An instant, seen from a place.
* `Moment.civil`: Year, month and day of a day's number.
* `Moment.dateLine`: The line that names a moment.
-/

namespace TreeShell

/-- An instant, seen from a place. -/
structure Moment where
  /-- Seconds since the start of 1970, in UTC. -/
  seconds : Int
  /-- The fraction in nanoseconds; a second more of them inside a leap second. -/
  nanos : Nat := 0
  /-- Seconds by which local time is ahead of UTC. -/
  offset : Int := 0
  deriving DecidableEq, Repr

namespace Moment

/-- Year, month and day of the day with a number, counted from the start of 1970. The reckoning
    counts from the first of March of year zero, so that a leap day ends its year. -/
def civil (day : Int) : Int × Nat × Nat :=
  let z := day + 719468
  let era := z / 146097
  let dayOfEra := (z % 146097).toNat
  let yearOfEra := (dayOfEra - dayOfEra / 1460 + dayOfEra / 36524 - dayOfEra / 146096) / 365
  let dayOfYear := dayOfEra - (365 * yearOfEra + yearOfEra / 4 - yearOfEra / 100)
  let shifted := (5 * dayOfYear + 2) / 153
  let dayOfMonth := dayOfYear - (153 * shifted + 2) / 5 + 1
  let month := if shifted < 10 then shifted + 3 else shifted - 9
  let year := yearOfEra + era * 400 + (if month ≤ 2 then 1 else 0)
  (year, month, dayOfMonth)

/-- A number with at least `width` digits. -/
def padded (width n : Nat) : String :=
  let ds := Nat.toDigits 10 n
  String.ofList (List.replicate (width - ds.length) '0' ++ ds)

/-- A year: four digits where they suffice, and a sign where they do not. -/
def yearText (year : Int) : String :=
  if 0 ≤ year ∧ year ≤ 9999 then padded 4 year.toNat
  else (if year < 0 then "-" else "+") ++ padded 4 year.natAbs

/-- The names of the weekdays, from the start of the week. -/
def weekdays : List String := ["Sun", "Mon", "Tue", "Wed", "Thu", "Fri", "Sat"]

/-- The names of the months. -/
def months : List String :=
  ["Jan", "Feb", "Mar", "Apr", "May", "Jun", "Jul", "Aug", "Sep", "Oct", "Nov", "Dec"]

/-- An offset as hours and minutes, its magnitude rounded to the nearest minute. -/
def offsetText (offset : Int) : String :=
  let minutes := (offset.natAbs + 30) / 60
  (if offset < 0 then "-" else "+") ++ padded 2 (minutes / 60) ++ padded 2 (minutes % 60)

/-- The line that names a moment: weekday, month, day, year, time and offset. -/
def dateLine (m : Moment) : String :=
  let here := m.seconds + m.offset
  let day := here / 86400
  let second := (here % 86400).toNat
  let (year, month, dayOfMonth) := civil day
  let weekday := weekdays.getD ((day + 4) % 7).toNat ""
  let time := padded 2 (second / 3600) ++ ":" ++ padded 2 (second / 60 % 60) ++ ":" ++
    padded 2 (second % 60 + m.nanos / 1000000000)
  weekday ++ " " ++ months.getD (month - 1) "" ++ " " ++ padded 2 dayOfMonth ++ " " ++
    yearText year ++ " " ++ time ++ " GMT" ++ offsetText m.offset

end Moment

end TreeShell
