import Aquarium.Device.Error
import Aquarium.Device.Waveform

/-!
# Where raw readings come from

A source is a wave or a record of readings that is played back. A record that has come to its end
fails from then on.
-/

namespace Aquarium

/-- Kinds of raw readings that a wave can give. -/
class RawReading (α : Type) where
  ofSingle : Float32 → α

instance : RawReading Float32 where
  ofSingle x := x

/-- Counts are the nearest integers, within their word. -/
instance : RawReading Int32 where
  ofSingle x := .ofInt (Single.toIntClamped (-2147483648) 2147483647 x)

/-- A source of raw readings. -/
inductive Source (α : Type) where
  | wave (w : Waveform)
  | recorded (readings : List (Except DriverError α))

namespace Source

variable {α : Type} [RawReading α]

/-- Takes a reading. -/
def read (now : Int) : Source α → Except DriverError α × Source α
  | .wave w =>
    let (x, w) := w.read now
    (.ok (RawReading.ofSingle x), .wave w)
  | .recorded [] => (.error .noClock, .recorded [])
  | .recorded (r :: rs) => (r, .recorded rs)

end Source

end Aquarium
