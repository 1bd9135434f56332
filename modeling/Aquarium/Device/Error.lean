import Aquarium.Fault
import Aquarium.Number.Numeral

/-!
# Why a driver fails

A driver reports what went wrong with one update and carries on with the next. Apart from that an
update may be abandoned by a fault.
-/

namespace Aquarium

/-- The sensors. -/
inductive SensorKind where
  | temperature
  | scale
  deriving DecidableEq, Repr

/-- The name of a sensor. -/
def SensorKind.name : SensorKind → String
  | .temperature => "temperature"
  | .scale => "scale"

/-- Why an update did not succeed. -/
inductive DriverError where
  /-- The filter of a sensor took the reading for an outlier. -/
  | outlier (sensor : SensorKind) (value : Float32)
  /-- The local time is needed and not known yet. -/
  | noClock
  /-- There is no such output channel. -/
  | invalidChannel (channel : Nat)
  deriving DecidableEq

/-- The text of an error. -/
def DriverError.message : DriverError → String
  | .outlier sensor value => sensor.name ++ " rejected outlier reading " ++ Single.text value
  | .noClock => "local time is not available yet"
  | .invalidChannel channel => "output channel " ++ toString channel ++ " does not exist"

/-- How an update ends without success. -/
inductive UpdateFailure where
  /-- The driver reports an error. -/
  | reported (error : DriverError)
  /-- The update is abandoned. -/
  | abandoned (fault : Fault)
  deriving DecidableEq

end Aquarium
