/-!
# Floating point numbers: conversions and comparisons

Readings and channel values are single precision numbers, and text is read through double
precision. Everything here is given by the exact value of a number, so that a proof can look
inside: conversions round that value to the nearest number of the target format, a tie going to
the even neighbour, and the conversion to integers rounds a half away from zero and then clamps.
-/

namespace Aquarium

open Float.Model (UnpackedFloat Format)

/-- The same value in another format: the nearest number, a tie going to the even neighbour, and
infinity past the largest. -/
def inFormat (format : Format) : UnpackedFloat → UnpackedFloat
  | .finite sign mantissa exponent _ => UnpackedFloat.round format sign mantissa exponent
  | .infinity sign => .infinity sign
  | .zero sign => .zero sign
  | .notANumber => .notANumber

namespace Double

/-- The double nearest to an integer. -/
def ofInt (n : Int) : Float := .ofModel (.ofInt n)

/-- The double nearest to a power of ten. -/
def tenPow (n : Nat) : Float := .ofModel (.ofScientific 1 n)

/-- The double nearest to `n · 2 ^ exponent`. -/
def ofScaled (n : Int) (exponent : Int) : Float :=
  .ofModel (.pack (
    if n = 0 then .zero .positive
    else UnpackedFloat.round .binary64 (if n < 0 then .negative else .positive) n.natAbs exponent))

/-- The same value in double precision, which is exact. -/
def ofSingle (x : Float32) : Float :=
  .ofModel (.pack (inFormat .binary64 x.toModel.unpack))

end Double

namespace Single

/-- The single nearest to an integer. -/
def ofInt (n : Int) : Float32 := .ofModel (.ofInt n)

/-- The single nearest to a double; infinity past the largest single. -/
def ofDouble (x : Float) : Float32 :=
  .ofModel (.pack (inFormat .binary32 x.toModel.unpack))

/-- Zero. -/
def zero : Float32 := ofInt 0

/-- One. -/
def one : Float32 := ofInt 1

/-- The nearest integer to a value given by sign, mantissa and exponent, a half going away from
zero. -/
def roundHalfAway (sign : UnpackedFloat.Sign) (mantissa : Nat) (exponent : Int) : Int :=
  let size : Nat :=
    if 0 ≤ exponent then mantissa * Nat.pow 2 exponent.toNat
    else (2 * mantissa + Nat.pow 2 (-exponent).toNat) / Nat.pow 2 ((-exponent).toNat + 1)
  match sign with
  | .positive => size
  | .negative => -size

/-- The nearest integer, a half going away from zero, clamped between two bounds; a number that
is not a number counts as zero. -/
def toIntClamped (lo hi : Int) (x : Float32) : Int :=
  match x.toModel.unpack with
  | .notANumber => 0
  | .infinity .positive => hi
  | .infinity .negative => lo
  | .zero _ => 0
  | .finite sign mantissa exponent _ => max lo (min hi (roundHalfAway sign mantissa exponent))

/-- Between two bounds; what is not a number stays as it is, and so does the sign of zero. -/
def clamp (x lo hi : Float32) : Float32 :=
  let y := if x < lo then lo else x
  if hi < y then hi else y

/-- The larger of two numbers, the second of two equal ones, which matters for zeros of unlike sign;
of a number and what is not a number, the number. -/
def maximum (x y : Float32) : Float32 :=
  if y.isNaN then x else if y < x then x else y

/-- A length of time in seconds, from nanoseconds: the whole seconds and the rest are converted
apart and then added. -/
def ofNanoseconds (n : Nat) : Float32 :=
  ofInt (n / 1000000000 : Nat) + ofInt (n % 1000000000 : Nat) / ofInt 1000000000

end Single

end Aquarium
