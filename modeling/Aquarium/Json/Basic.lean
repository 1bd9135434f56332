import Aquarium.Number.Numeral

/-!
# JSON values

A value as a text gives it: the members of an object keep their order and may repeat a key, a
number keeps its spelling, and a string is either text or, when an escape names half of a
surrogate pair, no text at all (`none`).

A text may break off in the middle. Its value is then kept up to that place: the value under way
is `cut`, and the arrays and objects around it end in `Ending.cut`. Whoever reads such a value
meets the break only where the text has it, after all that comes before.
-/

namespace Aquarium

/-- How the text ends an array or an object. -/
inductive Ending where
  /-- By its closing bracket. -/
  | closed
  /-- The text breaks off, or goes on with what cannot stand there. -/
  | cut
  deriving DecidableEq, Repr

/-- A JSON value. -/
inductive Json where
  | null
  | bool (b : Bool)
  | number (n : Numeral)
  | string (s : Option String)
  | array (items : List Json) (ending : Ending)
  | object (members : List (Option String × Json)) (ending : Ending)
  | cut
  deriving Inhabited

namespace Json

/-- A string value. -/
def text (s : String) : Json := .string (some s)

/-- An integer value. -/
def int (n : Int) : Json := .number (.ofInt n)

/-- A natural number value. -/
def nat (n : Nat) : Json := .number (.ofNat n)

/-- A single as a value; what is not a finite number is null. -/
def single (x : Float32) : Json :=
  match Numeral.ofSingle? x with
  | some n => .number n
  | none => .null

/-- An array. -/
def list (items : List Json) : Json := .array items .closed

/-- An object with members in this order. -/
def record (members : List (String × Json)) : Json :=
  .object (members.map fun (key, value) => (some key, value)) .closed

/-- A value or null. -/
def option (f : α → Json) : Option α → Json
  | some a => f a
  | none => .null

mutual

/-- The text of the value does not break off. -/
def intact : Json → Bool
  | .array items ending => ending == .closed && intactItems items
  | .object members ending => ending == .closed && intactMembers members
  | .cut => false
  | _ => true

/-- See `intact`. -/
def intactItems : List Json → Bool
  | [] => true
  | v :: vs => v.intact && intactItems vs

/-- See `intact`. -/
def intactMembers : List (Option String × Json) → Bool
  | [] => true
  | (_, v) :: vs => v.intact && intactMembers vs

end

end Json

end Aquarium
