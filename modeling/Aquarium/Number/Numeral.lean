import Aquarium.Fault
import Aquarium.Number.Shortest

/-!
# Numerals

A numeral is a number as a text spells it: a sign, a whole part, the digits of a fraction, an
exponent. What it stands for is decided here, apart from any text.

A numeral with neither fraction nor exponent that fits a 64-bit word is that integer. Any other
stands for a double, found in two steps: its digits are taken up into a 64-bit significand as long
as they fit, and the significand is then multiplied or divided by a power of ten. The result is
not always the nearest double, and a numeral past the largest double stands for nothing.

A single is written with the fewest digits that read back, positional when its leading digit is
worth between a millionth and a trillion and with an exponent otherwise.
-/

namespace Aquarium

/-- A number as it is spelled. The fraction is the list of its digits. -/
structure Numeral where
  negative : Bool
  whole : Nat
  fraction : List Nat
  exponent : Option Int
  deriving DecidableEq, Repr

/-- What a numeral stands for. -/
inductive Number where
  | integer (n : Int)
  | real (x : Float)

namespace Numeral

/-! ## Digits -/

/-- The decimal digits of a number, the leading one first. -/
def digitsOf (n : Nat) : List Nat := (Nat.toDigits 10 n).map fun c => c.toNat - '0'.toNat

/-- The number a list of digits spells. -/
def ofDigits (ds : List Nat) : Nat := ds.foldl (fun n d => n * 10 + d) 0

/-! ## Reading -/

/-- The significand takes up digits of the whole part as long as they fit 64 bits; from the first
one that does not, they are only counted. -/
def takeWhole : Nat → List Nat → Nat × Nat
  | s, [] => (s, 0)
  | s, d :: ds => if s * 10 + d < word64 then takeWhole (s * 10 + d) ds else (s, ds.length + 1)

/-- The significand takes up digits of the fraction as long as they fit 64 bits, and counts those
it took; the rest is dropped. -/
def takeFraction : Nat → List Nat → Nat × Nat
  | s, [] => (s, 0)
  | s, d :: ds =>
    if s * 10 + d < word64 then
      let (r, taken) := takeFraction (s * 10 + d) ds
      (r, taken + 1)
    else (s, 0)

/-- A double times a power of ten, by one multiplication or division where the power is a double,
and after divisions by the largest such power otherwise. Nothing comes of a product that is not
finite. -/
def scale (x : Float) (exponent : Int) : Option Float :=
  if exponent.natAbs ≤ 308 then
    if 0 ≤ exponent then
      let y := x * Double.tenPow exponent.natAbs
      if y.isInf then none else some y
    else some (x / Double.tenPow exponent.natAbs)
  else if x == Double.ofInt 0 then some x
  else if 0 ≤ exponent then none
  else scale (x / Double.tenPow 308) (exponent + 308)
termination_by exponent.natAbs
decreasing_by omega

/-- The double a numeral stands for, if it is not too large. -/
def toDouble? (n : Numeral) : Option Float :=
  let (s, counted) := takeWhole 0 (digitsOf n.whole)
  let (s, taken) := takeFraction s n.fraction
  let exponent := (counted : Int) - taken + n.exponent.getD 0
  (scale (Double.ofInt s) exponent).map fun x => if n.negative then -x else x

/-- What a numeral stands for: an integer if it is spelled as one and fits a word (there is no
negative zero among them), else a double. -/
def value? (n : Numeral) : Option Number :=
  if n.fraction = [] ∧ n.exponent = none ∧
      (if n.negative then n.whole ≠ 0 ∧ 2 * n.whole ≤ word64 else n.whole < word64) then
    some (.integer (if n.negative then -n.whole else n.whole))
  else n.toDouble?.map .real

/-! ## Writing -/

/-- The numeral of an integer. -/
def ofInt (n : Int) : Numeral := ⟨n < 0, n.natAbs, [], none⟩

/-- The numeral of a natural number. -/
def ofNat (n : Nat) : Numeral := ⟨false, n, [], none⟩

/-- The exponents of a leading digit that are written without an exponent. -/
def positional (leading : Int) : Bool := -6 ≤ leading && leading < 13

/-- The digits before and behind the point of a decimal number. -/
def positionalParts (d : Decimal) : Nat × List Nat :=
  if 0 ≤ d.exponent then (d.digits * Nat.pow 10 d.exponent.toNat, [])
  else
    let ds := digitsOf d.digits
    let places := (-d.exponent).toNat
    let padded := List.replicate (places + 1 - ds.length) 0 ++ ds
    (ofDigits (padded.take (padded.length - places)), padded.drop (padded.length - places))

/-- The numeral of a decimal number that is written out in full. -/
def inFull (negative : Bool) (d : Decimal) : Numeral :=
  let (whole, fraction) := positionalParts d
  ⟨negative, whole, fraction, none⟩

/-- The numeral of a decimal number: with a fraction of at least one digit where it is positional,
else one digit before the point and no point without digits after it. -/
def ofDecimal (negative : Bool) (d : Decimal) : Numeral :=
  if d.digits = 0 then ⟨negative, 0, [0], none⟩
  else if positional d.leading then
    match positionalParts d with
    | (whole, []) => ⟨negative, whole, [0], none⟩
    | (whole, fraction) => ⟨negative, whole, fraction, none⟩
  else
    let ds := digitsOf d.digits
    ⟨negative, ds.headD 0, ds.tail, some d.leading⟩

/-- The numeral of a single, if it is a number and finite. -/
def ofSingle? (x : Float32) : Option Numeral :=
  (Single.shortest? x).map fun (negative, d) => ofDecimal negative d

/-! ## Spelling -/

/-- The text of a numeral; an exponent always has a sign. -/
def text (n : Numeral) : List Char :=
  let digits (ds : List Nat) := ds.map Nat.digitChar
  (if n.negative then ['-'] else []) ++ digits (digitsOf n.whole)
    ++ (if n.fraction = [] then [] else '.' :: digits n.fraction)
    ++ (match n.exponent with
      | none => []
      | some e => 'e' :: (if e < 0 then '-' else '+') :: digits (digitsOf e.natAbs))

end Numeral

/-- The text of a single in a message: its digits in full, with no point where it is whole. -/
def Single.text (x : Float32) : String :=
  match Single.shortest? x with
  | some (negative, d) => String.ofList (Numeral.inFull negative d).text
  | none => if x.isNaN then "NaN" else if x < Single.zero then "-inf" else "inf"

end Aquarium
