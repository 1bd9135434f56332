import Aquarium.Fault
import Aquarium.Sampling.FilterSettings

/-!
# Windows of samples

A window holds the last `capacity` accepted samples with their statistics. A sample that changes
too fast against the newest one is rejected, unless too many were rejected in a row: then the
window starts anew with it. The first few samples are accepted whatever they are.

Statistics are computed anew from the stored samples after each acceptance, from the oldest to the
newest.
-/

namespace Aquarium

/-- Readings that have a value in single precision. -/
class Measurement (α : Type) where
  toSingle : α → Float32

instance : Measurement Float32 where
  toSingle x := x

instance : Measurement Float where
  toSingle := Single.ofDouble

instance : Measurement Int16 where
  toSingle n := Single.ofInt n.toInt

instance : Measurement Int32 where
  toSingle n := Single.ofInt n.toInt

instance : Measurement UInt16 where
  toSingle n := Single.ofInt n.toNat

instance : Measurement UInt32 where
  toSingle n := Single.ofInt n.toNat

/-- A reading and the moment it was taken at, in nanoseconds. -/
structure Sample (α : Type) where
  value : α
  time : Int
  deriving DecidableEq

/-- The time between two moments in seconds, at least one. -/
def secondsBetween (a b : Int) : Float32 :=
  Single.maximum (Single.ofNanoseconds (a - b).natAbs) Single.one

/-- How fast the value changes from one sample to another, per second. -/
def changeRate [Measurement α] (new old : Sample α) : Float32 :=
  (Measurement.toSingle new.value - Measurement.toSingle old.value).abs
    / secondsBetween new.time old.time

/-- What is computed from the stored samples. -/
structure Statistics where
  average : Float32
  variance : Float32
  meanRate : Float32
  deriving DecidableEq

namespace Statistics

/-- The statistics of no samples. -/
def none : Statistics := ⟨Single.zero, Single.zero, Single.zero⟩

/-- A sum, from the first number to the last; the empty sum is negative zero. -/
def sum (xs : List Float32) : Float32 := xs.foldl (· + ·) (-Single.zero)

/-- The rates of change between neighbours, the older sample first. -/
def rates [Measurement α] : List (Sample α) → List Float32
  | old :: new :: rest => changeRate new old :: rates (new :: rest)
  | _ => []

/-- Average, variance (over one less than their number) and mean rate of change of samples; the
last two are zero for a single one. -/
def of [Measurement α] (samples : List (Sample α)) : Statistics :=
  let values := samples.map fun s => Measurement.toSingle s.value
  let n := samples.length
  if n = 0 then none
  else
    let average := sum values / Single.ofInt n
    if n < 2 then ⟨average, Single.zero, Single.zero⟩
    else
      let squares := values.map fun x => (x - average) * (x - average)
      ⟨average, sum squares / Single.ofInt (n - 1 : Nat),
        (rates samples).foldl (· + ·) Single.zero / Single.ofInt (n - 1 : Nat)⟩

end Statistics

/-- The last accepted samples, the oldest first, and what is known from them. -/
structure SampleWindow (α : Type) (capacity : Nat) where
  settings : FilterSettings
  samples : List (Sample α)
  statistics : Statistics
  /-- The finite samples rejected since the last acceptance. -/
  rejections : Nat
  deriving DecidableEq

namespace SampleWindow

variable {α : Type} {capacity : Nat}

/-- An empty window; its settings are brought into range. -/
def new (settings : FilterSettings) : SampleWindow α capacity :=
  ⟨settings.sanitized, [], .none, 0⟩

/-- The newest sample. -/
def last? (w : SampleWindow α capacity) : Option (Sample α) := w.samples.getLast?

/-- The number of samples. -/
def size (w : SampleWindow α capacity) : Nat := w.samples.length

/-- No samples are held. -/
def isEmpty (w : SampleWindow α capacity) : Bool := w.samples.isEmpty

/-- The standard deviation. -/
def deviation (w : SampleWindow α capacity) : Float32 := w.statistics.variance.sqrt

/-- The fastest change the next sample may show. -/
def maxRate (w : SampleWindow α capacity) : Float32 :=
  w.settings.maxRate.getD
    (Single.maximum (w.statistics.meanRate * w.settings.multiplier) w.settings.minRate)

/-- The number of samples that are accepted whatever they are. -/
def warmUp (capacity : Nat) : Nat := max (capacity / 2) 2

variable [Measurement α]

/-- The window takes a sample for no outlier. -/
def accepts (w : SampleWindow α capacity) (s : Sample α) : Bool :=
  if w.samples.length < warmUp capacity then true
  else
    match w.last? with
    | none => true
    | some last => changeRate s last ≤ w.maxRate

/-- Adds a sample, the oldest leaving a full window, and computes the statistics. -/
def push (w : SampleWindow α capacity) (s : Sample α) : SampleWindow α capacity :=
  let kept := if w.samples.length = capacity then w.samples.drop 1 else w.samples
  let samples := if kept.length < capacity then kept ++ [s] else kept
  { w with samples := samples, statistics := .of samples, rejections := 0 }

/-- So many were rejected in a row that the next is taken as a new start. -/
def mustRestart (w : SampleWindow α capacity) : Bool :=
  0 < w.settings.maxRejections && w.settings.maxRejections ≤ w.rejections

/-- Offers a reading, and says whether it was accepted. What is not finite is passed over; a
rejection is counted in 32 bits. -/
def offer (w : SampleWindow α capacity) (value : α) (time : Int) :
    Except Fault (Bool × SampleWindow α capacity) :=
  if !(Measurement.toSingle value).isFinite then .ok (false, w)
  else if w.accepts ⟨value, time⟩ then .ok (true, w.push ⟨value, time⟩)
  else if w.mustRestart then .ok (true, { w with samples := [] }.push ⟨value, time⟩)
  else do
    let rejections ← checkedAdd w.rejections 1
    return (false, { w with rejections := rejections })

end SampleWindow

end Aquarium
