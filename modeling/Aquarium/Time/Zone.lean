import Aquarium.Time.Calendar

/-!
# Time zones

A zone has a name and a rule that gives its offset from universal time at a moment. Two rules move
the clock: the European one changes on the last Sundays of March and October at one o'clock
universal time, the American one on the second Sunday of March and the first of November at two
o'clock local time. Neither is laid down for ever: after `lastSummer` the clock stays on winter
time.

Six zones are written out. The many other names of the zone database are left out, so a controller
set to one of them runs on universal time here, as it does with a name that no zone has.
-/

namespace Aquarium

/-- How the offset of a zone, in seconds east, depends on the moment. -/
inductive OffsetRule where
  /-- The same all year. -/
  | fixed (offset : Int)
  /-- One hour more from the last Sunday of March to the last Sunday of October. -/
  | european (winter : Int)
  /-- One hour more from the second Sunday of March to the first Sunday of November. -/
  | american (winter : Int)
  deriving DecidableEq, Repr

/-- A named zone. -/
structure Zone where
  name : String
  rule : OffsetRule
  deriving DecidableEq, Repr

namespace Zone

/-- Universal time. -/
def utc : Zone := ⟨"UTC", .fixed 0⟩

/-- The zones that are written out. -/
def all : List Zone :=
  [utc,
   ⟨"Europe/Berlin", .european 3600⟩,
   ⟨"America/New_York", .american (-18000)⟩,
   ⟨"Asia/Kolkata", .fixed 19800⟩,
   ⟨"Etc/GMT+5", .fixed (-18000)⟩,
   ⟨"Etc/GMT-14", .fixed 50400⟩]

/-- The zone of exactly that name, if it is one of those written out. The other names of the zone
database are not found. -/
def find? (name : String) : Option Zone := all.find? (·.name == name)

/-- The last year whose changes of the clock are laid down. -/
def lastSummer : Int := 2099

/-- An offset that is one hour more from the start of a year's summer up to its end, in the years
that have a summer time. -/
def seasonal (winter year : Int) (start stop epoch : Int) : Int :=
  if year ≤ lastSummer ∧ start ≤ epoch ∧ epoch < stop then winter + secondsPerHour else winter

/-- The offset at a moment, given in seconds since the start of 1970. -/
def offsetAt (zone : Zone) (epoch : Int) : Int :=
  let year := (Date.ofDayNumber (epoch / secondsPerDay)).year
  match zone.rule with
  | .fixed offset => offset
  | .european winter =>
    let start := Date.sundayUpTo (Date.lastOfMonth year 3) * secondsPerDay + secondsPerHour
    let stop := Date.sundayUpTo (Date.lastOfMonth year 10) * secondsPerDay + secondsPerHour
    seasonal winter year start stop epoch
  | .american winter =>
    let change : Int := 2 * secondsPerHour - winter
    let start := (Date.sundayFrom (Date.dayNumber ⟨year, 3, 1⟩) + 7) * secondsPerDay + change
    let stop := Date.sundayFrom (Date.dayNumber ⟨year, 11, 1⟩) * secondsPerDay
      + change - secondsPerHour
    seasonal winter year start stop epoch

/-- A clock that shows an earlier year was never set. -/
def firstSetYear : Int := 2024

/-- The local position in the week at a moment, or nothing while the clock has not been set. -/
def weekTime? (zone : Zone) (epoch : Int) : Option WeekTime :=
  let shown := DateTime.ofEpochSeconds (epoch + zone.offsetAt epoch)
  if firstSetYear ≤ shown.date.year then some shown.weekTime else none

end Zone

end Aquarium
