import Aquarium.Fault
import Aquarium.Number.Sine
import Aquarium.Time.Duration

/-!
# Waves

A sine wave that stands for a sensor: a base, an amplitude and a period. Every so many readings one
is higher by a spike, so that outliers occur.
-/

namespace Aquarium

/-- The radians of a whole turn. -/
def Single.tau : Float32 := Single.ofDouble (Double.ofScaled 0xc90fdb (-21))

/-- A wave. -/
structure Waveform where
  base : Float32
  amplitude : Float32
  /-- In nanoseconds; a wave without a period stands still. -/
  period : Nat
  /-- Which readings are spikes: every so many. -/
  spikeEvery : Option Nat
  spike : Float32
  /-- The moment at which the wave starts. -/
  started : Int
  /-- The readings taken, in 32 bits. -/
  reads : Nat
  deriving DecidableEq

namespace Waveform

/-- A wave without spikes. -/
def new (base amplitude : Float32) (period : Nat) (started : Int) : Waveform :=
  ⟨base, amplitude, period, none, Single.zero, started, 0⟩

/-- The same wave with spikes; zero stands for none. -/
def withSpikes (w : Waveform) (every : Nat) (spike : Float32) : Waveform :=
  { w with spikeEvery := if every = 0 then none else some every, spike := spike }

/-- How many periods have gone by since the start; before it, none. -/
def phase (w : Waveform) (now : Int) : Float32 :=
  let period := Single.ofNanoseconds w.period
  if Single.zero < period then Single.ofNanoseconds (timeSince now w.started) / period
  else Single.zero

/-- The height of the wave, spikes apart. -/
def height (w : Waveform) (now : Int) : Float32 :=
  w.base + w.amplitude * Single.sine (Single.tau * w.phase now)

/-- Takes a reading. -/
def read (w : Waveform) (now : Int) : Float32 × Waveform :=
  let reads := (w.reads + 1) % word32
  let isSpike := w.spikeEvery.any fun every => reads % every == 0
  (if isSpike then w.height now + w.spike else w.height now, { w with reads := reads })

end Waveform

end Aquarium
