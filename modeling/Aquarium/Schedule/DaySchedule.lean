import Aquarium.Schedule.Error
import Aquarium.Slots

/-!
# The points of one day

A time point sets values on some of `C` channels at a second of the day. A day holds up to `P`
points in a slot table that is sorted after every change, so its points stand in ascending order
in the first slots. The four searches look at one channel and pass over points that do not set it.
-/

namespace Aquarium

/-- What a point does: the value it sets on each channel, if it sets one. -/
abbrev Channels (V : Type) (C : Nat) := Slots V C

/-- One scheduled event. -/
structure TimePoint (V : Type) (C : Nat) where
  time : Nat
  channels : Channels V C
  deriving DecidableEq

/-- Two points have one time and agree on every channel, as values compare. -/
def TimePoint.agree [BEq V] (p q : TimePoint V C) : Bool :=
  p.time == q.time && p.channels.agree (· == ·) q.channels

/-- What one channel sees of a point within its day. -/
structure DayEvent (V : Type) where
  time : Nat
  value : V
  deriving DecidableEq, Repr

/-- What a channel sees of a point, if the point sets it. -/
def TimePoint.event? (channel : Nat) (p : TimePoint V C) : Option (DayEvent V) :=
  (p.channels.get? channel).map fun value => ⟨p.time, value⟩

/-- Up to `P` points of one day. -/
structure DaySchedule (V : Type) (C P : Nat) where
  points : Slots (TimePoint V C) P
  deriving DecidableEq

namespace DaySchedule

variable {V : Type} {C P : Nat}

/-- No points. -/
def empty : DaySchedule V C P := ⟨Slots.empty⟩

instance : Inhabited (DaySchedule V C P) := ⟨empty⟩

/-- The points in order. -/
def toList (d : DaySchedule V C P) : List (TimePoint V C) := d.points.values

/-- The number of points. -/
def size (d : DaySchedule V C P) : Nat := d.points.count

/-- No points are held. -/
def isEmpty (d : DaySchedule V C P) : Bool := d.points.isEmpty

/-- No point can be added. -/
def isFull (d : DaySchedule V C P) : Bool := d.points.isFull

/-- Two days hold the same points, as values compare: what is not a number agrees with nothing. -/
def agree [BEq V] (a b : DaySchedule V C P) : Bool := a.points.agree TimePoint.agree b.points

/-! ## Changing -/

/-- The points sorted by time, empty slots last. -/
def sorted (d : DaySchedule V C P) : DaySchedule V C P :=
  ⟨d.points.sortBy fun p q => p.time ≤ q.time⟩

/-- What the point at a time sets. -/
def find? (d : DaySchedule V C P) (time : Nat) : Option (Channels V C) :=
  (d.toList.find? fun p => p.time == time).map (·.channels)

/-- Adds a point. A time outside of the day, a full day and a time that is taken are refused, in
this order. -/
def insert (d : DaySchedule V C P) (time : Nat) (channels : Channels V C) :
    Except Refusal (DaySchedule V C P) :=
  if secondsPerDay ≤ time then .error (.invalidTime time)
  else if d.isFull then .error .dayFull
  else if (d.find? time).isSome then .error (.duplicateTime time)
  else .ok (sorted ⟨(d.points.append ⟨time, channels⟩).2⟩)

/-- Takes out the point at a time. -/
def remove (d : DaySchedule V C P) (time : Nat) : Except Refusal (DaySchedule V C P) :=
  match d.points.position? fun p => p.time == time with
  | none => .error (.timeNotFound time)
  | some index => .ok (sorted ⟨(d.points.erase index).2⟩)

/-- Sets what the point at a time does to one channel, if there is such a point. -/
def setValue? (d : DaySchedule V C P) (time channel : Nat) (value : Option V) :
    Option (DaySchedule V C P) :=
  match d.points.position? fun p => p.time == time with
  | none => none
  | some index =>
    (d.points.get? index).map fun p =>
      ⟨d.points.set index (some { p with channels := p.channels.set channel value })⟩

/-- Takes out every point. -/
def clear (_ : DaySchedule V C P) : DaySchedule V C P := empty

/-! ## Searching -/

/-- The first event of a channel. -/
def first? (d : DaySchedule V C P) (channel : Nat) : Option (DayEvent V) :=
  d.toList.findSome? (·.event? channel)

/-- The last event of a channel. -/
def last? (d : DaySchedule V C P) (channel : Nat) : Option (DayEvent V) :=
  d.toList.reverse.findSome? (·.event? channel)

/-- The latest event of a channel at a time or before it. -/
def current? (d : DaySchedule V C P) (channel time : Nat) : Option (DayEvent V) :=
  (d.toList.reverse.filter fun p => p.time ≤ time).findSome? (·.event? channel)

/-- The earliest event of a channel after a time. -/
def next? (d : DaySchedule V C P) (channel time : Nat) : Option (DayEvent V) :=
  (d.toList.filter fun p => time < p.time).findSome? (·.event? channel)

end DaySchedule

end Aquarium
