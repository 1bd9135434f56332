import Aquarium.Device.Outputs
import Aquarium.Device.Sensor
import Aquarium.Settings.Format

/-!
# Devices

A device is a sensor or the scheduled outputs. Every device can be updated at a tick and read at any
time, and every reading has a form in answers.
-/

namespace Aquarium

/-- What an output channel shows. -/
structure ChannelOutput where
  name : String
  value : Option Float32
  lastApplied : Option Nat
  deriving DecidableEq

/-- What a device shows. -/
inductive Reading where
  | temperature (celsius : Option Float32) (deviation : Float32) (samples : Nat)
  | weight (grams : Option Float32) (raw : Option Int32) (samples : Nat)
  | outputs (mode : TransitionMode) (channels : List ChannelOutput)
  deriving DecidableEq

/-- A channel in an answer. -/
def ChannelOutput.toJson (c : ChannelOutput) : Json :=
  .record
    [("name", .text c.name),
     ("value", .option .single c.value),
     ("lastApplied", .option .nat c.lastApplied)]

/-- A reading in an answer. -/
def Reading.toJson : Reading → Json
  | .temperature celsius deviation samples =>
    .record
      [("kind", .text "temperature"),
       ("celsius", .option .single celsius),
       ("stdDeviation", .single deviation),
       ("samples", .nat samples)]
  | .weight grams raw samples =>
    .record
      [("kind", .text "weight"),
       ("grams", .option .single grams),
       ("raw", .option (fun n => .int n.toInt) raw),
       ("samples", .nat samples)]
  | .outputs mode channels =>
    .record
      [("kind", .text "outputs"),
       ("mode", mode.toJson),
       ("channels", .list (channels.map ChannelOutput.toJson))]

/-- What the outputs show. -/
def ScheduledOutputs.read {σ : Type} (o : ScheduledOutputs σ) : Reading :=
  .outputs o.mode
    ((List.range outputChannels).map fun channel =>
      ⟨o.name channel, o.applied.get? channel, o.tracker.times.get? channel⟩)

/-- A device; the lights set their values on a sink. -/
inductive Device (σ : Type) where
  | temperature (probe : Sensor Float32)
  | scale (cell : Sensor Int32) (calibration : Calibration)
  | lights (outputs : ScheduledOutputs σ)

namespace Device

variable {σ : Type}

/-- The name of a device. -/
def name : Device σ → String
  | .temperature _ => SensorKind.temperature.name
  | .scale _ _ => SensorKind.scale.name
  | .lights _ => "lights"

/-- The outputs, if the device is that. -/
def outputs? : Device σ → Option (ScheduledOutputs σ)
  | .lights outputs => some outputs
  | _ => none

/-- What the device shows. -/
def read : Device σ → Reading
  | .temperature probe =>
    .temperature probe.average? probe.window.deviation probe.window.size
  | .scale cell calibration =>
    .weight (cell.average?.map calibration.toGrams) (cell.window.last?.map (·.value))
      cell.window.size
  | .lights outputs => outputs.read

/-- Updates the device. Outputs that fail are left as they are; a sensor has used up a reading. -/
def update [OutputSink σ] (tick : Tick) : Device σ → Device σ × Option UpdateFailure
  | .temperature probe =>
    let (probe, failure) := probe.update .temperature tick.time
    (.temperature probe, failure)
  | .scale cell calibration =>
    let (cell, failure) := cell.update .scale tick.time
    (.scale cell calibration, failure)
  | .lights outputs =>
    match outputs.update tick with
    | .ok outputs => (.lights outputs, none)
    | .error failure => (.lights outputs, some failure)

end Device

end Aquarium
