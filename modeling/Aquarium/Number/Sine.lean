import Aquarium.Number.Float

/-!
# The sine

The sine of a single, from an angle in radians. The angle is taken down to the nearest multiple of a
quarter turn; on what remains, which is at most an eighth of a turn, sine and cosine are polynomials
in double precision, and their value is rounded once to the result.

What remains is exact up to its last rounding. Where few quarter turns are taken off it is a
difference of two doubles; where there are many, the angle is first counted in quarter turns, as a
whole number of units of `2 ^ -62`.
-/

namespace Aquarium

open Float.Model (UnpackedFloat)

namespace Sine

/-- Two over pi, in units of `2 ^ -200`: the quarter turns of a radian. -/
def quartersPerRadian : Nat := 0xa2f9836e4e441529fc2757d1f534ddc0db6295993c439041fe

/-- Half of pi, in units of `2 ^ -52`: the radians of a quarter turn. -/
def radiansPerQuarter : Nat := 0x1921fb54442d18

/-- The places behind the point when quarter turns are counted. -/
def quarterPlaces : Nat := 62

/-- An angle `mantissa · 2 ^ exponent` in quarter turns. -/
def quarters (mantissa : Nat) (exponent : Int) : Nat :=
  mantissa * quartersPerRadian / Nat.pow 2 (200 - quarterPlaces - exponent).toNat

/-- The nearest whole number of quarter turns. -/
def wholeQuarters (quarters : Nat) : Nat :=
  (quarters + Nat.pow 2 (quarterPlaces - 1)) / Nat.pow 2 quarterPlaces

/-- The angle from which on the remainder is taken from the count of quarter turns. -/
def manyRadians : Nat := 120

/-- What remains of an angle besides a number of quarter turns, in radians. -/
def remainder (mantissa : Nat) (exponent : Int) (whole : Nat) : Float :=
  if mantissa * Nat.pow 2 exponent.toNat < manyRadians * Nat.pow 2 (-exponent).toNat then
    let places := min exponent (-52)
    Double.ofScaled
      ((mantissa * Nat.pow 2 (exponent - places).toNat : Nat)
        - (whole * radiansPerQuarter * Nat.pow 2 (-52 - places).toNat : Nat)) places
  else
    Double.ofScaled ((quarters mantissa exponent : Int) - (whole * Nat.pow 2 quarterPlaces : Nat)) 0
      * Double.ofScaled radiansPerQuarter (-52 - quarterPlaces)

/-- The sine of a small angle. -/
def smallSine (x : Float) : Float :=
  let x2 := x * x
  let x3 := x * x2
  let high :=
    Double.ofScaled 0x11107605230bc4 (-59) + x2 * Double.ofScaled (-0x1994eb3774cf24) (-65)
  x + x3 * Double.ofScaled (-0x1555545995a603) (-55) + x3 * x2 * high

/-- The cosine of a small angle. -/
def smallCosine (x : Float) : Float :=
  let x2 := x * x
  let x4 := x2 * x2
  let high :=
    Double.ofScaled (-0x16c087e89a359d) (-62) + x2 * Double.ofScaled 0x199343027bf8c3 (-68)
  let low := Double.ofInt 1 + x2 * Double.ofScaled (-0x1ffffffd0c621c) (-54)
  low + x4 * Double.ofScaled 0x155553e1068f19 (-57) + x4 * x2 * high

/-- The sine of a small angle and a number of quarter turns. -/
def atQuarter (whole : Nat) (x : Float) : Float :=
  match whole % 4 with
  | 0 => smallSine x
  | 1 => smallCosine x
  | 2 => -smallSine x
  | _ => -smallCosine x

/-- The sine of a positive angle. An angle below three quarters is not reduced, and one below
`2 ^ -12` is its own sine. -/
def ofParts (mantissa : Nat) (exponent : Int) : Float :=
  let up := Nat.pow 2 exponent.toNat
  let down := Nat.pow 2 (-exponent).toNat
  if 4096 * mantissa * up < down then Double.ofScaled mantissa exponent
  else if 4 * mantissa * up < 3 * down then smallSine (Double.ofScaled mantissa exponent)
  else
    let whole := wholeQuarters (quarters mantissa exponent)
    atQuarter whole (remainder mantissa exponent whole)

end Sine

/-- The sine of an angle in radians; there is none of what is not finite. -/
def Single.sine (x : Float32) : Float32 :=
  match x.toModel.unpack with
  | .notANumber | .infinity _ => .ofModel (.pack .notANumber)
  | .zero _ => x
  | .finite sign mantissa exponent _ =>
    let y := Single.ofDouble (Sine.ofParts mantissa exponent)
    match sign with
    | .positive => y
    | .negative => -y

end Aquarium
