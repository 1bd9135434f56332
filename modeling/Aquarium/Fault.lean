/-!
# Faults

Times and counters are 32-bit words and their arithmetic is checked: a sum or product that leaves
the word ends the computation. This module names every cause for which a computation is abandoned,
and the checked operations that raise the arithmetic ones.
-/

namespace Aquarium

/-- Why a computation was abandoned. -/
inductive Fault where
  /-- A sum left its word. -/
  | addOverflow
  /-- A product left its word. -/
  | mulOverflow
  /-- A time of day that no day has. -/
  | timeOutsideDay (time : Nat)
  /-- A task's callback did not return. -/
  | callbackFailed (label : String)
  /-- A number was to be brought between bounds that are not in order. -/
  | crossedBounds
  deriving DecidableEq, Repr

/-- The text a fault is reported with. -/
def Fault.message : Fault → String
  | .addOverflow => "attempt to add with overflow"
  | .mulOverflow => "attempt to multiply with overflow"
  | .timeOutsideDay time => "time of day " ++ toString time ++ "s is outside of a day"
  | .callbackFailed label => "callback " ++ label ++ " failed"
  | .crossedBounds => "assertion failed: min <= max"

/-- The number of values of a 32-bit word. -/
def word32 : Nat := 4294967296

/-- The number of values of a 64-bit word. -/
def word64 : Nat := 18446744073709551616

/-- A sum within 32 bits. -/
def checkedAdd (a b : Nat) : Except Fault Nat :=
  if a + b < word32 then .ok (a + b) else .error .addOverflow

/-- A product within 32 bits. -/
def checkedMul (a b : Nat) : Except Fault Nat :=
  if a * b < word32 then .ok (a * b) else .error .mulOverflow

theorem checkedAdd_eq_ok {a b : Nat} (h : a + b < word32) : checkedAdd a b = .ok (a + b) :=
  if_pos h

theorem checkedAdd_eq_error {a b : Nat} (h : word32 ≤ a + b) :
    checkedAdd a b = .error .addOverflow :=
  if_neg (Nat.not_lt.mpr h)

theorem checkedMul_eq_ok {a b : Nat} (h : a * b < word32) : checkedMul a b = .ok (a * b) :=
  if_pos h

end Aquarium
