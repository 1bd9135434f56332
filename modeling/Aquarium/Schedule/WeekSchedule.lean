import Aquarium.Schedule.DaySchedule

/-!
# The schedule of a week

Seven day schedules, and the search for the event in effect on a channel and for the one that
comes next. A search that finds nothing on the day itself walks from day to day round the week,
back for the current event and on for the next one, until it stands on the same day again.

A schedule is kept in files as a flat list of entries, one for each value that a point sets.
`ofEntries` rebuilds a schedule from such a list: entries of one day and time become one point, and
of two values for one channel the later stays.
-/

namespace Aquarium

/-- How far a search may go. -/
inductive DaySearch where
  /-- Not beyond the day itself. -/
  | thisDay
  /-- Round the week. -/
  | allDays
  deriving DecidableEq, Repr

/-- An event of one channel, at a second of the week. -/
structure WeekEvent (V : Type) where
  time : Nat
  value : V
  deriving DecidableEq, Repr

/-- One value of the schedule, as files keep it. -/
structure Entry (V : Type) where
  day : Day
  time : Nat
  channel : Nat
  value : V
  deriving DecidableEq, Repr

/-- The points of every day of the week. -/
structure WeekSchedule (V : Type) (C P : Nat) where
  sunday : DaySchedule V C P
  monday : DaySchedule V C P
  tuesday : DaySchedule V C P
  wednesday : DaySchedule V C P
  thursday : DaySchedule V C P
  friday : DaySchedule V C P
  saturday : DaySchedule V C P
  deriving DecidableEq

namespace WeekSchedule

variable {V : Type} {C P : Nat}

/-- No points on any day. -/
def empty : WeekSchedule V C P := ⟨.empty, .empty, .empty, .empty, .empty, .empty, .empty⟩

instance : Inhabited (WeekSchedule V C P) := ⟨empty⟩

/-- The schedule of one day. -/
def day (s : WeekSchedule V C P) : Day → DaySchedule V C P
  | .sunday => s.sunday
  | .monday => s.monday
  | .tuesday => s.tuesday
  | .wednesday => s.wednesday
  | .thursday => s.thursday
  | .friday => s.friday
  | .saturday => s.saturday

/-- Replaces the schedule of one day. -/
def setDay (s : WeekSchedule V C P) (d : Day) (points : DaySchedule V C P) : WeekSchedule V C P :=
  match d with
  | .sunday => { s with sunday := points }
  | .monday => { s with monday := points }
  | .tuesday => { s with tuesday := points }
  | .wednesday => { s with wednesday := points }
  | .thursday => { s with thursday := points }
  | .friday => { s with friday := points }
  | .saturday => { s with saturday := points }

theorem day_setDay (s : WeekSchedule V C P) (d e : Day) (points : DaySchedule V C P) :
    (s.setDay d points).day e = if e = d then points else s.day e := by
  cases d <;> cases e <;> rfl

@[simp] theorem day_setDay_self (s : WeekSchedule V C P) (d : Day) (points : DaySchedule V C P) :
    (s.setDay d points).day d = points := by cases d <;> rfl

@[simp] theorem day_empty (d : Day) : (empty : WeekSchedule V C P).day d = .empty := by
  cases d <;> rfl

@[ext] theorem ext_day {s t : WeekSchedule V C P} (h : ∀ d, s.day d = t.day d) : s = t := by
  cases s; cases t
  simpa only [day, mk.injEq] using
    ⟨h .sunday, h .monday, h .tuesday, h .wednesday, h .thursday, h .friday, h .saturday⟩

/-- Two schedules hold the same points, as values compare. -/
def agree [BEq V] (s t : WeekSchedule V C P) : Bool :=
  Day.all.all fun d => (s.day d).agree (t.day d)

/-- No day holds a point. -/
def isEmpty (s : WeekSchedule V C P) : Bool := Day.all.all fun d => (s.day d).isEmpty

/-- Takes out every point of every day. -/
def clear (_ : WeekSchedule V C P) : WeekSchedule V C P := empty

/-! ## Changing -/

/-- Does an edit on one day; an error names the day. -/
def edit (s : WeekSchedule V C P) (d : Day)
    (f : DaySchedule V C P → Except Refusal (DaySchedule V C P)) :
    Except ScheduleError (WeekSchedule V C P) :=
  match f (s.day d) with
  | .ok points => .ok (s.setDay d points)
  | .error cause => .error ⟨some d, cause⟩

/-- Adds a point to a day. -/
def insert (s : WeekSchedule V C P) (d : Day) (time : Nat) (channels : Channels V C) :
    Except ScheduleError (WeekSchedule V C P) :=
  s.edit d fun points => points.insert time channels

/-- Takes a point out of a day. -/
def remove (s : WeekSchedule V C P) (d : Day) (time : Nat) :
    Except ScheduleError (WeekSchedule V C P) :=
  s.edit d fun points => points.remove time

/-! ## Searching -/

/-- An event of a day at its second of the week. -/
def atDay (d : Day) (e : DayEvent V) : WeekEvent V := ⟨d.index * secondsPerDay + e.time, e.value⟩

/-- The first event that is seen on a walk from day to day, behind the day it starts from. -/
def walk (step : Day → Day) (see : Day → Option (DayEvent V)) : Nat → Day → Option (WeekEvent V)
  | 0, _ => none
  | steps + 1, d =>
    match see (step d) with
    | some e => some (atDay (step d) e)
    | none => walk step see steps (step d)

/-- The steps of a walk: it comes back to the day it started from, and one step further. -/
def walkLength : Nat := 8

/-- The event in effect on a channel: the latest one at `now` or before it. -/
def current? (s : WeekSchedule V C P) (channel : Nat) (now : WeekTime) (search : DaySearch) :
    Option (WeekEvent V) :=
  if C ≤ channel then none
  else
    match (s.day now.day).current? channel now.time, search with
    | some e, _ => some (atDay now.day e)
    | none, .thisDay => none
    | none, .allDays => walk Day.previous (fun d => (s.day d).last? channel) walkLength now.day

/-- The event that comes next on a channel: the earliest one after `now`. -/
def next? (s : WeekSchedule V C P) (channel : Nat) (now : WeekTime) (search : DaySearch) :
    Option (WeekEvent V) :=
  if C ≤ channel then none
  else
    match (s.day now.day).next? channel now.time, search with
    | some e, _ => some (atDay now.day e)
    | none, .thisDay => none
    | none, .allDays => walk Day.next (fun d => (s.day d).first? channel) walkLength now.day

/-- The current and the next event of every channel. -/
def status (s : WeekSchedule V C P) (now : WeekTime) (search : DaySearch) :
    List (Option (WeekEvent V)) × List (Option (WeekEvent V)) :=
  ((List.range C).map fun c => s.current? c now search,
   (List.range C).map fun c => s.next? c now search)

/-! ## Entries -/

/-- The entries of a point. -/
def pointEntries (d : Day) (p : TimePoint V C) : List (Entry V) :=
  p.channels.indexed.map fun (channel, value) => ⟨d, p.time, channel, value⟩

/-- The entries of a day. -/
def dayEntries (d : Day) (points : DaySchedule V C P) : List (Entry V) :=
  points.toList.flatMap (pointEntries d)

/-- Every value that is set, by day, time and channel. -/
def entries (s : WeekSchedule V C P) : List (Entry V) :=
  Day.all.flatMap fun d => dayEntries d (s.day d)

/-- Takes up an entry. Its channel must exist; it joins the point of its time if there is one. -/
def addEntry (s : WeekSchedule V C P) (e : Entry V) : Except ScheduleError (WeekSchedule V C P) :=
  if C ≤ e.channel then .error ⟨some e.day, .invalidChannel e.channel⟩
  else
    match (s.day e.day).setValue? e.time e.channel (some e.value) with
    | some points => .ok (s.setDay e.day points)
    | none => s.insert e.day e.time (Slots.empty.set e.channel (some e.value))

/-- The schedule of a list of entries. -/
def ofEntries (es : List (Entry V)) : Except ScheduleError (WeekSchedule V C P) :=
  es.foldlM addEntry empty

end WeekSchedule

end Aquarium
