import Aquarium.Number.Float

/-!
# Settings of the outlier filter

A reading is accepted while it changes no faster than a bound, in units per second. The bound is
either given or learned: a multiple of the mean rate of the samples in store, but never below a
floor, so that a flat history does not reject every later change.
-/

namespace Aquarium

/-- The tuning of the filter. -/
structure FilterSettings where
  /-- The bound, if it is given. -/
  maxRate : Option Float32
  /-- The multiple of the mean rate that a learned bound allows. -/
  multiplier : Float32
  /-- The floor of a learned bound. -/
  minRate : Float32
  /-- The consecutive rejections after which the next sample is taken as a new start; zero for
  never. -/
  maxRejections : Nat
  deriving DecidableEq

namespace FilterSettings

/-- A learned bound of twice the mean rate and at least a tenth, and ten rejections. -/
def standard : FilterSettings :=
  ⟨none, Single.ofInt 2, Single.ofDouble (Double.ofInt 1 / Double.ofInt 10), 10⟩

instance : Inhabited FilterSettings := ⟨standard⟩

/-- A given bound. -/
def fixed (bound : Float32) : FilterSettings := { standard with maxRate := some bound }

/-- Brings every setting into its usable range: a given bound is finite and not negative or else
left out, the multiplier is at least one, the floor at least zero. -/
def sanitized (s : FilterSettings) : FilterSettings :=
  { s with
    maxRate := s.maxRate.filter fun bound => bound.isFinite && Single.zero ≤ bound
    multiplier :=
      if !s.multiplier.isFinite || s.multiplier < Single.one then Single.one else s.multiplier
    minRate :=
      if !s.minRate.isFinite || s.minRate < Single.zero then Single.zero else s.minRate }

end FilterSettings

end Aquarium
