/-!
# Lengths of time

Intervals and moments are counted in nanoseconds: a length is a natural number, a moment an integer
on a clock of its own. A length is shown in the largest unit that it fills, with as many digits
behind the point as it takes to be exact.
-/

namespace Aquarium

/-- The nanoseconds of a microsecond. -/
def microsecond : Nat := 1000

/-- The nanoseconds of a millisecond. -/
def millisecond : Nat := 1000000

/-- The nanoseconds of a second. -/
def second : Nat := 1000000000

/-- The digits of a part of a unit, without zeros at the end; `digits` is the number of digits
that the largest part takes. -/
def fractionDigits (digits part : Nat) : List Char :=
  let ds := Nat.toDigits 10 part
  ((List.replicate (digits - ds.length) '0' ++ ds).reverse.dropWhile (· == '0')).reverse

/-- A length in a unit of ten to the power `digits` nanoseconds. -/
def lengthIn (digits : Nat) (name : String) (n : Nat) : String :=
  let fraction := fractionDigits digits (n % Nat.pow 10 digits)
  toString (n / Nat.pow 10 digits)
    ++ (if fraction.isEmpty then "" else "." ++ String.ofList fraction) ++ name

/-- The text of a length of time. -/
def durationText (n : Nat) : String :=
  if second ≤ n then lengthIn 9 "s" n
  else if millisecond ≤ n then lengthIn 6 "ms" n
  else if microsecond ≤ n then lengthIn 3 "µs" n
  else toString n ++ "ns"

/-- The time from one moment to a later one; nothing if it is not later. -/
def timeSince (now earlier : Int) : Nat := (now - earlier).toNat

end Aquarium
