import Aquarium.Device.Source
import Aquarium.Sampling.SampleWindow

/-!
# Sensors

A sensor takes readings from a source and offers them to a window of ten samples. A load cell counts
in units of its own, which a calibration turns into grams.
-/

namespace Aquarium

/-- The samples that a sensor keeps. -/
def sensorCapacity : Nat := 10

/-- A source of readings and the samples kept of it. -/
structure Sensor (α : Type) where
  source : Source α
  window : SampleWindow α sensorCapacity

namespace Sensor

variable {α : Type}

/-- A sensor without samples. -/
def new (source : Source α) (settings : FilterSettings) : Sensor α := ⟨source, .new settings⟩

/-- The average of the samples, if there are any. -/
def average? (s : Sensor α) : Option Float32 :=
  if s.window.isEmpty then none else some s.window.statistics.average

/-- Takes a reading and offers it to the window. -/
def update [RawReading α] [Measurement α] (kind : SensorKind) (now : Int) (s : Sensor α) :
    Sensor α × Option UpdateFailure :=
  match s.source.read now with
  | (.error e, source) => ({ s with source := source }, some (.reported e))
  | (.ok value, source) =>
    match s.window.offer value now with
    | .error fault => ({ s with source := source }, some (.abandoned fault))
    | .ok (true, window) => (⟨source, window⟩, none)
    | .ok (false, window) =>
      (⟨source, window⟩, some (.reported (.outlier kind (Measurement.toSingle value))))

end Sensor

/-- How counts of a load cell become grams: less an offset, over a scale. -/
structure Calibration where
  offset : Int32
  scale : Float32
  deriving DecidableEq

namespace Calibration

/-- Counts are grams. -/
def standard : Calibration := ⟨0, Single.one⟩

/-- The grams of a count; none for a scale of zero. -/
def toGrams (c : Calibration) (raw : Float32) : Float32 :=
  if c.scale == Single.zero then Single.zero
  else (raw - Measurement.toSingle c.offset) / c.scale

end Calibration

end Aquarium
