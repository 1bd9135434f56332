import Aquarium.Json.Decode
import Aquarium.Settings.Basic

/-!
# The file form of the settings

Each section is a record whose keys may all be left out; what is left out has its standard value.
`timezone` and `http_port` must be given. A scale that is left out is the standard scale, but one
that is given, even without any key, starts from the standard sensor.
-/

namespace Aquarium

namespace FilterSettings

/-- The keys of the filter settings. -/
def fields : List (Json.Field FilterSettings) :=
  [.optional "max_rate_of_change" (Json.asOption Json.asSingle) fun x s => { s with maxRate := x },
   .optional "rate_multiplier" Json.asSingle fun x s => { s with multiplier := x },
   .optional "min_rate_of_change" Json.asSingle fun x s => { s with minRate := x },
   .optional "max_consecutive_rejections" (Json.asNat word32)
     fun x s => { s with maxRejections := x }]

/-- Filter settings from a file. -/
def ofJson : Json → Except ReadError FilterSettings := Json.asRecord fields standard

/-- Filter settings for a file. -/
def toJson (s : FilterSettings) : Json :=
  .record
    [("max_rate_of_change", .option .single s.maxRate),
     ("rate_multiplier", .single s.multiplier),
     ("min_rate_of_change", .single s.minRate),
     ("max_consecutive_rejections", .nat s.maxRejections)]

end FilterSettings

namespace PoolSettings

/-- The keys of the task pool's section. -/
def fields : List (Json.Field PoolSettings) :=
  [.optional "idle_wait_ms" (Json.asNat word64) fun x s => { s with idleWait := x },
   .optional "max_wait_ms" (Json.asNat word64) fun x s => { s with maxWait := x }]

/-- The section from a file. -/
def ofJson : Json → Except ReadError PoolSettings := Json.asRecord fields standard

/-- The section for a file. -/
def toJson (s : PoolSettings) : Json :=
  .record [("idle_wait_ms", .nat s.idleWait), ("max_wait_ms", .nat s.maxWait)]

end PoolSettings

namespace SensorSettings

/-- The keys of a sensor's section. -/
def fields : List (Json.Field SensorSettings) :=
  [.optional "enabled" Json.asBool fun x s => { s with enabled := x },
   .optional "interval_ms" (Json.asNat word64) fun x s => { s with interval := x },
   .optional "sample" FilterSettings.ofJson fun x s => { s with filter := x }]

/-- The section from a file. -/
def ofJson : Json → Except ReadError SensorSettings := Json.asRecord fields standard

/-- The section for a file. -/
def toJson (s : SensorSettings) : Json :=
  .record
    [("enabled", .bool s.enabled), ("interval_ms", .nat s.interval), ("sample", s.filter.toJson)]

end SensorSettings

/-- A mode from a file. -/
def TransitionMode.ofJson : Json → Except ReadError TransitionMode :=
  Json.asChoice TransitionMode.ofName?

/-- A mode for a file. -/
def TransitionMode.toJson (m : TransitionMode) : Json := .text m.name

namespace LightSettings

/-- The keys of the light outputs' section. -/
def fields : List (Json.Field LightSettings) :=
  [.optional "interval_ms" (Json.asNat word64) fun x s => { s with interval := x },
   .optional "transition" TransitionMode.ofJson fun x s => { s with transition := x },
   .optional "channel_names" (Json.asList Json.asText) fun x s => { s with channelNames := x },
   .optional "state_save_interval_ms" (Json.asNat word64) fun x s => { s with saveInterval := x }]

/-- The section from a file. -/
def ofJson : Json → Except ReadError LightSettings := Json.asRecord fields standard

/-- The section for a file. -/
def toJson (s : LightSettings) : Json :=
  .record
    [("interval_ms", .nat s.interval),
     ("transition", s.transition.toJson),
     ("channel_names", .list (s.channelNames.map .text)),
     ("state_save_interval_ms", .nat s.saveInterval)]

end LightSettings

namespace Settings

/-- The keys of the settings. -/
def fields : List (Json.Field Settings) :=
  [.needed "timezone" Json.asText fun x s => { s with timezone := x },
   .needed "http_port" (Json.asNat 65536) fun x s => { s with httpPort := x },
   .optional "task_pool" PoolSettings.ofJson fun x s => { s with pool := x },
   .optional "temperature" SensorSettings.ofJson fun x s => { s with temperature := x },
   .optional "scale" SensorSettings.ofJson fun x s => { s with scale := x },
   .optional "schedule" LightSettings.ofJson fun x s => { s with lights := x }]

/-- Settings from a file. -/
def ofJson : Json → Except ReadError Settings := Json.asRecord fields standard

/-- Settings for a file. -/
def toJson (s : Settings) : Json :=
  .record
    [("timezone", .text s.timezone),
     ("http_port", .nat s.httpPort),
     ("task_pool", s.pool.toJson),
     ("temperature", s.temperature.toJson),
     ("scale", s.scale.toJson),
     ("schedule", s.lights.toJson)]

end Settings

end Aquarium
