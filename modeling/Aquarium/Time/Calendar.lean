import Aquarium.Time.Week

/-!
# The civil calendar

Dates of the proleptic Gregorian calendar; years may be zero or negative. Three views of a date
are given independently: the number of days since the first of January 1970 (`dayNumber`), the
date of such a number (`ofDayNumber`), and the day of the week by the congruence on year, month
and day (`weekday`). A moment is a date with a clock reading in universal time; shown at an
offset, it falls on a local date and a local second, and thereby on a position in the week.
-/

namespace Aquarium

/-- A date: year, month from one to twelve, day of the month from one. -/
structure Date where
  year : Int
  month : Nat
  day : Nat
  deriving DecidableEq, Repr

namespace Date

/-- Every fourth year is a leap year, but of the centuries only every fourth. -/
def isLeap (year : Int) : Bool :=
  year % 4 == 0 && (year % 100 != 0 || year % 400 == 0)

/-- The days of a year before the first of a month. -/
def daysBeforeMonth (leap : Bool) (month : Nat) : Nat :=
  let common := match month with
    | 0 | 1 => 0
    | 2 => 31
    | 3 => 59
    | 4 => 90
    | 5 => 120
    | 6 => 151
    | 7 => 181
    | 8 => 212
    | 9 => 243
    | 10 => 273
    | 11 => 304
    | _ => 334
  if leap && 2 < month then common + 1 else common

/-- The days from the first of January of year one to the first of January of a year. -/
def daysBeforeYear (year : Int) : Int :=
  let y := year - 1
  365 * y + y / 4 - y / 100 + y / 400

/-- The days from the first of January of year one to the first of January 1970. -/
def epochDays : Int := 719162

/-- The days since the first of January 1970. -/
def dayNumber (d : Date) : Int :=
  daysBeforeYear d.year + daysBeforeMonth (isLeap d.year) d.month + d.day - 1 - epochDays

/-- The year of a day, by its days since the first of January of year one: whole cycles of four
centuries, then centuries, then four years, then years; the last of a cycle takes the leap day. -/
def yearOfDays (n : Int) : Int :=
  let r := n % 146097
  let century := min (r / 36524) 3
  let r := r - century * 36524
  let four := r / 1461
  let r := r % 1461
  let one := min (r / 365) 3
  400 * (n / 146097) + 100 * century + 4 * four + one + 1

/-- The month a day of the year lies in: the number of months that have begun by then. -/
def monthOfDay (leap : Bool) (day : Nat) : Nat :=
  ((List.range 12).filter fun m => daysBeforeMonth leap (m + 1) ≤ day).length

/-- The date that many days after the first of January 1970. -/
def ofDayNumber (n : Int) : Date :=
  let year := yearOfDays (n + epochDays)
  let day := (n + epochDays - daysBeforeYear year).toNat
  let month := monthOfDay (isLeap year) day
  ⟨year, month, day - daysBeforeMonth (isLeap year) month + 1⟩

/-- What a month adds to the day of the week, January and February counting with the year before. -/
def monthShift : Nat → Nat
  | 0 | 1 => 0
  | 2 => 3
  | 3 => 2
  | 4 => 5
  | 5 => 0
  | 6 => 3
  | 7 => 5
  | 8 => 1
  | 9 => 4
  | 10 => 6
  | 11 => 2
  | _ => 4

/-- The days since Monday, by the congruence of the Gregorian calendar. -/
def daysFromMonday (d : Date) : Nat :=
  let y := if d.month < 3 then d.year - 1 else d.year
  ((y + y / 4 - y / 100 + y / 400 + monthShift d.month + d.day + 6) % 7).toNat

/-- The day of the week. -/
def weekday (d : Date) : Day := Day.ofMonday d.daysFromMonday

/-- The last day of a month before December. -/
def lastOfMonth (year : Int) (month : Nat) : Int :=
  daysBeforeYear year + daysBeforeMonth (isLeap year) (month + 1) - 1 - epochDays

/-- The first Sunday on or after a day. -/
def sundayFrom (n : Int) : Int :=
  n + (7 - ((ofDayNumber n).weekday.index : Int)) % 7

/-- The last Sunday on or before a day. -/
def sundayUpTo (n : Int) : Int :=
  n - (ofDayNumber n).weekday.index

end Date

/-- A date and a clock reading. -/
structure DateTime where
  date : Date
  hour : Nat
  minute : Nat
  second : Nat
  deriving DecidableEq, Repr

namespace DateTime

/-- The second of the day. -/
def secondOfDay (t : DateTime) : Nat :=
  t.hour * secondsPerHour + t.minute * secondsPerMinute + t.second

/-- The seconds since the start of 1970. -/
def epochSeconds (t : DateTime) : Int := t.date.dayNumber * secondsPerDay + t.secondOfDay

/-- The reading at that many seconds since the start of 1970. -/
def ofEpochSeconds (s : Int) : DateTime :=
  let second := (s % secondsPerDay).toNat
  ⟨Date.ofDayNumber (s / secondsPerDay), second / secondsPerHour,
    second % secondsPerHour / secondsPerMinute, second % secondsPerMinute⟩

/-- The local reading of a moment, that many seconds east. -/
def shown (t : DateTime) (offset : Int) : DateTime := ofEpochSeconds (t.epochSeconds + offset)

/-- The position of a local reading in the week. -/
def weekTime (t : DateTime) : WeekTime :=
  ⟨t.date.weekday, t.secondOfDay % secondsPerDay⟩

end DateTime

end Aquarium
