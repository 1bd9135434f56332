import Aquarium.Transition

/-!
# Trackers

A tracker evaluates a schedule for `N` channels. It holds the mode and, for each channel, the
second of the week at which a value was last reported; the schedule is handed to each evaluation,
so it can be edited in between.
-/

namespace Aquarium

/-- The evaluation state of `N` channels. -/
structure Tracker (N : Nat) where
  mode : TransitionMode
  times : Slots Nat N
  deriving DecidableEq

namespace Tracker

variable {V : Type} {C P N : Nat}

/-- A tracker that has reported nothing. -/
def new (mode : TransitionMode) : Tracker N := ⟨mode, Slots.empty⟩

/-- Another mode; the channel times stay. -/
def setMode (t : Tracker N) (mode : TransitionMode) : Tracker N := { t with mode := mode }

/-- What is known of a channel, if an event is in effect on it. -/
def view? (t : Tracker N) (s : WeekSchedule V C P) (channel : Nat) (now : WeekTime) :
    Except Fault (Option (ChannelView V)) :=
  if N ≤ channel then .ok none
  else
    match s.current? channel now .allDays with
    | none => .ok none
    | some current => do
      let second ← now.timeOfWeek
      return some ⟨current, s.next? channel now .allDays, t.times.get? channel, second⟩

/-- The value of a channel. -/
def value [ChannelValue V] (t : Tracker N) (s : WeekSchedule V C P) (channel : Nat)
    (now : WeekTime) : Except Fault (Option V) := do
  return (← t.view? s channel now).bind fun v => v.value t.mode

/-- The values of all channels. -/
def values [ChannelValue V] (t : Tracker N) (s : WeekSchedule V C P) (now : WeekTime) :
    Except Fault (List (Option V)) :=
  (List.range N).mapM fun channel => t.value s channel now

/-- Notes that a channel reports now, and says whether there is such a channel. -/
def stamp (t : Tracker N) (channel : Nat) (now : WeekTime) : Except Fault (Bool × Tracker N) :=
  if channel < N then do
    let second ← now.timeOfWeek
    return (true, { t with times := t.times.set channel (some second) })
  else .ok (false, t)

/-- Notes that every channel reports now. -/
def stampAll (t : Tracker N) (now : WeekTime) : Except Fault (Tracker N) := do
  let second ← now.timeOfWeek
  return { t with times := t.times.mapCells fun _ => some second }

/-- Takes over channel times saved before. Times outside of the week are dropped, and channels that
the list leaves out have none. -/
def restore (t : Tracker N) (times : List (Option Nat)) : Tracker N :=
  { t with
    times :=
      ⟨(List.range N).map fun channel => (times[channel]?).join.filter (· < secondsPerWeek),
        by simp⟩ }

/-- Forgets all reports. -/
def reset (t : Tracker N) : Tracker N := { t with times := Slots.empty }

end Tracker

end Aquarium
