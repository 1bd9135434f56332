import Aquarium.Sampling.FilterSettings
import Aquarium.Text.Blank
import Aquarium.Transition

/-!
# Runtime settings

Four sections: the task pool, two sensors, the light schedule; and the time zone and where HTTP is
served. Each section has standard values, and `sanitize` brings whatever a file held into its
usable range; it would fail if the bounds of a number were not in order. They always are, and
`sanitized` is what it gives.
-/

namespace Aquarium

/-- A number between two bounds; the upper one wins where they cross. -/
def clampNat (n lo hi : Nat) : Nat := min (max n lo) hi

/-- A number between two bounds, which have to be in order. -/
def checkedClamp (n lo hi : Nat) : Except Fault Nat :=
  if lo ≤ hi then .ok (clampNat n lo hi) else .error .crossedBounds

/-- How long the worker of the task pool waits, in milliseconds. -/
structure PoolSettings where
  idleWait : Nat
  maxWait : Nat
  deriving DecidableEq

namespace PoolSettings

/-- Two seconds when idle, five at most. -/
def standard : PoolSettings := ⟨2000, 5000⟩

/-- At most a tenth of a second to a minute, and when idle no longer than that. -/
def sanitized (s : PoolSettings) : PoolSettings :=
  let maxWait := clampNat s.maxWait 100 60000
  ⟨clampNat s.idleWait 10 maxWait, maxWait⟩

/-- The same step by step; the upper bound of the second number is the first one. -/
def sanitize (s : PoolSettings) : Except Fault PoolSettings := do
  let maxWait ← checkedClamp s.maxWait 100 60000
  let idleWait ← checkedClamp s.idleWait 10 maxWait
  return ⟨idleWait, maxWait⟩

end PoolSettings

/-- A sensor: whether it is read, how often in milliseconds, and how its readings are filtered. -/
structure SensorSettings where
  enabled : Bool
  interval : Nat
  filter : FilterSettings
  deriving DecidableEq

/-- The intervals in which drivers run, from a tenth of a second to an hour. -/
def sanitizedInterval (interval : Nat) : Nat := clampNat interval 100 3600000

namespace SensorSettings

/-- Read every five seconds. -/
def standard : SensorSettings := ⟨true, 5000, .standard⟩

/-- The standard scale is read every second, and its readings may change by one unit per second
however flat their history. -/
def standardScale : SensorSettings :=
  ⟨true, 1000, { FilterSettings.standard with minRate := Single.one }⟩

/-- Every setting in its usable range. -/
def sanitized (s : SensorSettings) : SensorSettings :=
  ⟨s.enabled, sanitizedInterval s.interval, s.filter.sanitized⟩

/-- The same step by step. -/
def sanitize (s : SensorSettings) : Except Fault SensorSettings := do
  let interval ← checkedClamp s.interval 100 3600000
  return ⟨s.enabled, interval, s.filter.sanitized⟩

end SensorSettings

/-- The light outputs: how often they are set, in which mode, their names, and how often their
channel times are saved. Times are in milliseconds. -/
structure LightSettings where
  interval : Nat
  transition : TransitionMode
  channelNames : List String
  saveInterval : Nat
  deriving DecidableEq

/-- The name of a channel that was given none. -/
def defaultChannelName (channel : Nat) : String := "channel" ++ toString channel

namespace LightSettings

/-- Blended values for four named channels every five seconds. -/
def standard : LightSettings := ⟨5000, .interpolation, ["white", "blue", "red", "uv"], 60000⟩

/-- Exactly so many names: the first ones given, and default names for the rest. -/
def sanitizedNames (channels : Nat) (names : List String) : List String :=
  names.take channels ++
    (List.range' names.length (channels - names.length)).map defaultChannelName

/-- Every setting in its usable range, for a number of channels. -/
def sanitized (channels : Nat) (s : LightSettings) : LightSettings :=
  ⟨sanitizedInterval s.interval, s.transition, sanitizedNames channels s.channelNames,
    max s.saveInterval 1000⟩

/-- The same step by step. -/
def sanitize (channels : Nat) (s : LightSettings) : Except Fault LightSettings := do
  let interval ← checkedClamp s.interval 100 3600000
  return ⟨interval, s.transition, sanitizedNames channels s.channelNames, max s.saveInterval 1000⟩

end LightSettings

/-- All runtime settings. -/
structure Settings where
  timezone : String
  httpPort : Nat
  pool : PoolSettings
  temperature : SensorSettings
  scale : SensorSettings
  lights : LightSettings
  deriving DecidableEq

namespace Settings

/-- What holds where nothing else is said. -/
def standard : Settings :=
  ⟨"Europe/Berlin", 8080, .standard, .standard, .standardScale, .standard⟩

instance : Inhabited Settings := ⟨standard⟩

/-- The same settings with another mode for the lights. -/
def withMode (s : Settings) (mode : TransitionMode) : Settings :=
  { s with lights := { s.lights with transition := mode } }

/-- Every setting in its usable range, for a number of output channels. A blank `timezone`
and an `httpPort` of zero fall back to the standard. -/
def sanitized (channels : Nat) (s : Settings) : Settings :=
  { timezone := if isBlankText s.timezone then standard.timezone else s.timezone
    httpPort := if s.httpPort = 0 then standard.httpPort else s.httpPort
    pool := s.pool.sanitized
    temperature := s.temperature.sanitized
    scale := s.scale.sanitized
    lights := s.lights.sanitized channels }

/-- The same step by step. -/
def sanitize (channels : Nat) (s : Settings) : Except Fault Settings := do
  let pool ← s.pool.sanitize
  let temperature ← s.temperature.sanitize
  let scale ← s.scale.sanitize
  let lights ← s.lights.sanitize channels
  return {
    timezone := if isBlankText s.timezone then standard.timezone else s.timezone
    httpPort := if s.httpPort = 0 then standard.httpPort else s.httpPort
    pool, temperature, scale, lights }

end Settings

end Aquarium
