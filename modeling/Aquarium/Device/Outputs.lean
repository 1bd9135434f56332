import Aquarium.Device.Error
import Aquarium.Settings.Basic
import Aquarium.Tracker

/-!
# Scheduled outputs

Four outputs follow a weekly schedule. An update asks the tracker for the values of all channels and
hands them, channel by channel, to a sink. What the sink takes is noted: the value, the second of
the week, and that there is something to save. What it refuses leaves no trace here, so the tracker
will offer it again.
-/

namespace Aquarium

/-- The number of outputs. -/
def outputChannels : Nat := 4

/-- The points that a day of the light schedule holds. -/
def lightPointsPerDay : Nat := 12

/-- The schedule of the lights. -/
abbrev LightSchedule := WeekSchedule Float32 outputChannels lightPointsPerDay

/-- The moment of an update: on the clock of the drivers, and in the local week if that is known. -/
structure Tick where
  time : Int
  localTime : Option WeekTime
  deriving DecidableEq, Repr

/-- Hardware that takes values of channels. It may refuse one, and may change even then. -/
class OutputSink (σ : Type) where
  apply : σ → Nat → Float32 → σ × Option DriverError

/-- Four pulse width outputs; a duty cycle is in percent. -/
structure Pwm where
  duty : Slots Float32 outputChannels
  deriving DecidableEq

namespace Pwm

/-- Outputs that were never set. -/
def idle : Pwm := ⟨Slots.empty⟩

/-- Sets the duty cycle of a channel, within its range. -/
def apply (p : Pwm) (channel : Nat) (value : Float32) : Pwm × Option DriverError :=
  if channel < outputChannels then
    (⟨p.duty.set channel (some (Single.clamp value Single.zero (Single.ofInt 100)))⟩, none)
  else (p, some (.invalidChannel channel))

instance : OutputSink Pwm := ⟨apply⟩

end Pwm

/-- Outputs that follow a schedule. -/
structure ScheduledOutputs (σ : Type) where
  schedule : LightSchedule
  tracker : Tracker outputChannels
  sink : σ
  names : List String
  /-- The value each channel took last. -/
  applied : Slots Float32 outputChannels
  /-- Channel times have changed since they were last taken. -/
  dirty : Bool

namespace ScheduledOutputs

variable {σ : Type}

/-- Outputs that have applied nothing. -/
def new (schedule : LightSchedule) (mode : TransitionMode) (sink : σ) (names : List String) :
    ScheduledOutputs σ :=
  ⟨schedule, .new mode, sink, names, Slots.empty, false⟩

/-- The mode. -/
def mode (o : ScheduledOutputs σ) : TransitionMode := o.tracker.mode

/-- Another mode; the channel times stay. -/
def setMode (o : ScheduledOutputs σ) (mode : TransitionMode) : ScheduledOutputs σ :=
  { o with tracker := o.tracker.setMode mode }

/-- Another schedule; all else stays. -/
def replaceSchedule (o : ScheduledOutputs σ) (schedule : LightSchedule) : ScheduledOutputs σ :=
  { o with schedule := schedule }

/-- Adds a time point to the schedule. -/
def insert (o : ScheduledOutputs σ) (d : Day) (time : Nat)
    (channels : Channels Float32 outputChannels) : Except ScheduleError (ScheduledOutputs σ) :=
  (o.schedule.insert d time channels).map o.replaceSchedule

/-- Takes a time point out of the schedule. -/
def remove (o : ScheduledOutputs σ) (d : Day) (time : Nat) :
    Except ScheduleError (ScheduledOutputs σ) :=
  (o.schedule.remove d time).map o.replaceSchedule

/-- The second of the week at which each channel was last set. -/
def channelTimes (o : ScheduledOutputs σ) : List (Option Nat) := o.tracker.times.cells

/-- Takes over channel times saved before. -/
def restore (o : ScheduledOutputs σ) (times : List (Option Nat)) : ScheduledOutputs σ :=
  { o with tracker := o.tracker.restore times }

/-- The channel times if they have changed since they were last taken. -/
def takeDirty (o : ScheduledOutputs σ) : Option (List (Option Nat)) × ScheduledOutputs σ :=
  (if o.dirty then some o.channelTimes else none, { o with dirty := false })

/-- The name of a channel. -/
def name (o : ScheduledOutputs σ) (channel : Nat) : String :=
  o.names[channel]?.getD (defaultChannelName channel)

variable [OutputSink σ]

/-- Hands a value to the sink and notes that it was taken. -/
def offer (now : WeekTime) (o : ScheduledOutputs σ) (channel : Nat) (value : Float32) :
    Except Fault (ScheduledOutputs σ) :=
  match OutputSink.apply o.sink channel value with
  | (sink, some _) => .ok { o with sink := sink }
  | (sink, none) => do
    let (_, tracker) ← o.tracker.stamp channel now
    return { o with
      sink := sink
      tracker := tracker
      applied := o.applied.set channel (some value)
      dirty := true }

/-- Hands over the values there are, from a channel on. -/
def offerAll (now : WeekTime) :
    Nat → List (Option Float32) → ScheduledOutputs σ → Except Fault (ScheduledOutputs σ)
  | _, [], o => .ok o
  | channel, none :: values, o => offerAll now (channel + 1) values o
  | channel, some value :: values, o => do
    let o ← o.offer now channel value
    offerAll now (channel + 1) values o

/-- Sets every channel for which there is a value now. -/
def update (tick : Tick) (o : ScheduledOutputs σ) : Except UpdateFailure (ScheduledOutputs σ) :=
  match tick.localTime with
  | none => .error (.reported .noClock)
  | some now =>
    match (do offerAll now 0 (← o.tracker.values o.schedule now) o) with
    | .ok o => .ok o
    | .error fault => .error (.abandoned fault)

end ScheduledOutputs

end Aquarium
