import Aquarium.Number.Float

/-!
# The fewest digits that read back

A positive single stands for an interval of reals, all those that round to it. Its decimal form is
taken from the coarsest power of ten whose multiples meet that interval; of the two multiples next
to the value the nearer is taken, and of two equally near the even one.

All arithmetic is exact. The value is first written as a whole number of units
`unit · 10 ^ place` with `unit` a power of two or of five, so its ends, which lie half a step above
and half or a quarter of a step below, become whole numbers after a factor of four.
-/

namespace Aquarium

open Float.Model (UnpackedFloat Format)

/-- A decimal number `digits · 10 ^ exponent`. -/
structure Decimal where
  digits : Nat
  exponent : Int
  deriving DecidableEq, Repr

namespace Decimal

/-- The number of decimal digits; zero has none. -/
def digitCount (n : Nat) : Nat := if n = 0 then 0 else (Nat.toDigits 10 n).length

/-- The exponent of the leading digit. -/
def leading (d : Decimal) : Int := d.exponent + digitCount d.digits - 1

/-- The same number without zeros at the end, up to a number of steps. -/
def trimmed : Nat → Decimal → Decimal
  | 0, d => d
  | steps + 1, d =>
    if d.digits ≠ 0 ∧ d.digits % 10 = 0 then trimmed steps ⟨d.digits / 10, d.exponent + 1⟩ else d

end Decimal

/-- The numbers between two ends, which belong to it if it is closed. -/
structure Interval where
  lower : Nat
  upper : Nat
  closed : Bool
  deriving DecidableEq, Repr

/-- Membership in an interval. -/
def Interval.has (i : Interval) (x : Nat) : Bool :=
  if i.closed then i.lower ≤ x && x ≤ i.upper else i.lower < x && x < i.upper

/-- The multiple of a step next to a value that lies in an interval, as its factor: the nearer of
two, the even of two equally near. -/
def Interval.multiple? (i : Interval) (value step : Nat) : Option Nat :=
  let below := value / step
  let above := below + 1
  match i.has (below * step), i.has (above * step) with
  | false, false => none
  | true, false => some below
  | false, true => some above
  | true, true =>
    if value - below * step < above * step - value then some below
    else if above * step - value < value - below * step then some above
    else if below % 2 = 0 then some below else some above

/-- The coarsest grid that meets an interval, from `10 ^ places` down to the units: the factor of
the multiple found, and the places left out. -/
def Interval.coarsest (i : Interval) (value scale : Nat) : Nat → Nat × Nat
  | 0 => ((i.multiple? value scale).getD (value / scale), 0)
  | places + 1 =>
    match i.multiple? value (scale * Nat.pow 10 (places + 1)) with
    | some factor => (factor, places + 1)
    | none => i.coarsest value scale places

/-- The decimal form of `mantissa · 2 ^ exponent`. The numbers below are only half as far apart
when the mantissa is the least of its exponent, which `narrow` says. -/
def shortestOf (mantissa : Nat) (exponent : Int) (narrow : Bool) : Decimal :=
  let unit := if 0 ≤ exponent then Nat.pow 2 exponent.toNat else Nat.pow 5 (-exponent).toNat
  let place := if 0 ≤ exponent then 0 else exponent
  let value := 4 * mantissa * unit
  let interval : Interval :=
    ⟨value - (if narrow then 1 else 2) * unit, value + 2 * unit, mantissa % 2 == 0⟩
  let (factor, omitted) :=
    interval.coarsest value 4 (Decimal.digitCount (mantissa * unit))
  Decimal.trimmed (Decimal.digitCount factor) ⟨factor, place + omitted⟩

/-- The sign and the decimal form of a finite single; nothing for the others. Zero has no digits. -/
def Single.shortest? (x : Float32) : Option (Bool × Decimal) :=
  match x.toModel.unpack with
  | .notANumber => none
  | .infinity _ => none
  | .zero sign => some (sign == .negative, ⟨0, 0⟩)
  | .finite sign mantissa exponent _ =>
    let narrow := mantissa == Nat.pow 2 23 && Format.binary32.minExponent < exponent
    some (sign == .negative, shortestOf mantissa exponent narrow)

end Aquarium
