import Aquarium.Number.Float
import Aquarium.Schedule.WeekSchedule

/-!
# From events to a channel value

Three modes turn the discrete events of a schedule into a value at a moment: hold the value of the
event in effect, report each event once, or blend from the event in effect to the next one.

Whether an event was already reported is decided from three seconds of the week alone: the event,
the last report of the channel, and now. One of the first two that is later than now must lie in
the week before.
-/

namespace Aquarium

/-- Values between which one can blend. -/
class ChannelValue (V : Type) where
  /-- The value that is `factor` of the way from the first to the second. -/
  interpolate : V → V → Float32 → V

/-- Blends two integers in single precision and rounds to the nearest integer in range. -/
def interpolateInt (lo hi a b : Int) (factor : Float32) : Int :=
  let start := Single.ofInt a
  Single.toIntClamped lo hi (start + (Single.ofInt b - start) * factor)

instance : ChannelValue Float32 where
  interpolate a b factor := a + (b - a) * factor

instance : ChannelValue Float where
  interpolate a b factor := a + (b - a) * Double.ofSingle factor

instance : ChannelValue UInt8 where
  interpolate a b factor := .ofNat (interpolateInt 0 255 a.toNat b.toNat factor).toNat

instance : ChannelValue UInt16 where
  interpolate a b factor := .ofNat (interpolateInt 0 65535 a.toNat b.toNat factor).toNat

instance : ChannelValue UInt32 where
  interpolate a b factor := .ofNat (interpolateInt 0 4294967295 a.toNat b.toNat factor).toNat

instance : ChannelValue Int16 where
  interpolate a b factor := .ofInt (interpolateInt (-32768) 32767 a.toInt b.toInt factor)

instance : ChannelValue Int32 where
  interpolate a b factor := .ofInt (interpolateInt (-2147483648) 2147483647 a.toInt b.toInt factor)

/-- How events become a value. -/
inductive TransitionMode where
  /-- The value of the event in effect. -/
  | hold
  /-- Each event once. -/
  | singleShot
  /-- A blend from the event in effect to the next one. -/
  | interpolation
  deriving DecidableEq, Repr, Inhabited

namespace TransitionMode

/-- The name of a mode in files and answers. -/
def name : TransitionMode → String
  | hold => "hold"
  | singleShot => "single_shot"
  | interpolation => "interpolation"

/-- The older name of a mode, which is read but never written. -/
def olderName : TransitionMode → String
  | hold => "action_hold"
  | singleShot => "action"
  | interpolation => "interpolate"

/-- Every mode once. -/
def all : List TransitionMode := [hold, singleShot, interpolation]

/-- The mode a name stands for. -/
def ofName? (s : String) : Option TransitionMode :=
  all.find? fun m => s == m.name || s == m.olderName

@[simp] theorem ofName?_name (m : TransitionMode) : ofName? m.name = some m := by cases m <;> rfl

end TransitionMode

/-- What is known of a channel at a moment: the event in effect, the next one, the second of the
week of the last report, and the second of the week that it is now. -/
structure ChannelView (V : Type) where
  current : WeekEvent V
  next : Option (WeekEvent V)
  reported : Option Nat
  now : Nat
  deriving DecidableEq, Repr

namespace ChannelView

variable {V : Type}

/-- The event in effect, if it was not reported yet. Without any report an event of the week before
is too old. -/
def once (v : ChannelView V) : Option V :=
  let eventBefore := v.now < v.current.time
  match v.reported with
  | none => if eventBefore then none else some v.current.value
  | some reported =>
    let reportBefore := v.now < reported
    if (reportBefore ↔ eventBefore) ∧ reported < v.current.time then some v.current.value
    else if reportBefore ∧ ¬ eventBefore then some v.current.value
    else none

/-- How far now is on the way from the event in effect to the next one, from zero to one. -/
def factor (elapsed span : Nat) : Float32 :=
  Single.clamp (Single.ofInt elapsed / Single.ofInt span) Single.zero Single.one

/-- The blend of the event in effect and the next one; at the event itself, its own value. -/
def blend [ChannelValue V] (v : ChannelView V) : Option V :=
  match v.next with
  | none => none
  | some next =>
    let elapsed := weekElapsed v.current.time v.now
    if elapsed = 0 then some v.current.value
    else
      some (ChannelValue.interpolate v.current.value next.value
        (factor elapsed (weekSpan v.current.time next.time)))

/-- The value of a channel in a mode. -/
def value [ChannelValue V] (v : ChannelView V) : TransitionMode → Option V
  | .hold => some v.current.value
  | .singleShot => v.once
  | .interpolation => v.blend

end ChannelView

end Aquarium
