import Aquarium.Json.Parser

/-!
# Reading typed data out of JSON

Two things can be wrong with a text: it is not JSON (`malformed`), or it is JSON of another shape
(`mismatch`). Values are looked at in the order of the text, so of two faults the first counts.

A record is read over a starting value: each key that occurs sets its field and each that does not
leaves the field as it was, unless it is required. Unknown keys are passed over, and what they
hold need only be bracketed and spelled well. A record may also be given as an array of its fields
in order.
-/

namespace Aquarium

/-- What is wrong with a text. -/
inductive ReadError where
  | malformed
  | mismatch
  deriving DecidableEq, Repr

/-- The single a number is nearest to; an integer is not read through a double. -/
def Number.toSingle : Number → Float32
  | .integer n => Single.ofInt n
  | .real x => Single.ofDouble x

/-- The double a number is nearest to. -/
def Number.toDouble : Number → Float
  | .integer n => Double.ofInt n
  | .real x => x

namespace Json

/-- What is wrong with a value in whose place one of another kind was due. -/
def refusal : Json → ReadError
  | .cut => .malformed
  | .string none => .malformed
  | .number n => if n.value?.isSome then .mismatch else .malformed
  | _ => .mismatch

/-! ## Single values -/

/-- A truth value. -/
def asBool : Json → Except ReadError Bool
  | .bool b => .ok b
  | v => .error v.refusal

/-- A text. -/
def asText : Json → Except ReadError String
  | .string (some s) => .ok s
  | v => .error v.refusal

/-- A number of any kind. -/
def asNumber : Json → Except ReadError Number
  | .number n =>
    match n.value? with
    | some x => .ok x
    | none => .error .malformed
  | v => .error v.refusal

/-- An integer between two bounds, the upper one excluded. A number that is spelled with a
fraction or an exponent is none. -/
def asInt (lo hi : Int) (v : Json) : Except ReadError Int := do
  match ← v.asNumber with
  | .integer n => if lo ≤ n ∧ n < hi then .ok n else .error .mismatch
  | .real _ => .error .mismatch

/-- A natural number below a bound. -/
def asNat (bound : Nat) (v : Json) : Except ReadError Nat := do
  return (← v.asInt 0 bound).toNat

/-- A single. -/
def asSingle (v : Json) : Except ReadError Float32 := do
  return (← v.asNumber).toSingle

/-- A value that may be null. -/
def asOption (read : Json → Except ReadError α) : Json → Except ReadError (Option α)
  | .null => .ok none
  | v => do return some (← read v)

/-- A choice between names. The name is a text, or the only key of an object in which it stands for
null. Anything but a text or an object with a key is taken for a break in the text. -/
def asChoice (ofName? : String → Option α) : Json → Except ReadError α
  | .string (some s) =>
    match ofName? s with
    | some a => .ok a
    | none => .error .mismatch
  | .object ((some s, v) :: rest) ending =>
    match ofName? s, v with
    | none, _ => .error .mismatch
    | some a, .null => if rest.isEmpty && ending == .closed then .ok a else .error .malformed
    | some _, v => .error v.refusal
  | _ => .error .malformed

/-! ## Lists -/

/-- The items of an array, in order. -/
def readItems (read : Json → Except ReadError α) : List Json → Except ReadError (List α)
  | [] => .ok []
  | v :: vs => do
    let a ← read v
    let as ← readItems read vs
    return a :: as

/-- A list of values of one kind. -/
def asList (read : Json → Except ReadError α) : Json → Except ReadError (List α)
  | .array items ending => do
    let as ← readItems read items
    if ending = .closed then .ok as else .error .malformed
  | v => .error v.refusal

/-! ## Records -/

/-- A field of a record: its key, whether it must be given, and how a value sets it. -/
structure Field (α : Type) where
  key : String
  required : Bool
  read : Json → α → Except ReadError α

/-- A field that need not be given. -/
def Field.optional (key : String) (read : Json → Except ReadError β) (set : β → α → α) : Field α :=
  ⟨key, false, fun v a => do return set (← read v) a⟩

/-- A field that must be given. -/
def Field.needed (key : String) (read : Json → Except ReadError β) (set : β → α → α) : Field α :=
  ⟨key, true, fun v a => do return set (← read v) a⟩

/-- Sets fields from the members of an object, in order; `seen` holds the keys that were set. -/
def setMembers (fields : List (Field α)) :
    List (Option String × Json) → List String → α → Except ReadError (List String × α)
  | [], seen, a => .ok (seen, a)
  | (none, _) :: _, _, _ => .error .malformed
  | (some key, v) :: rest, seen, a =>
    match fields.find? (·.key == key) with
    | none => if v.intact then setMembers fields rest seen a else .error .malformed
    | some field =>
      if seen.contains key then .error .mismatch
      else do
        let a ← field.read v a
        setMembers fields rest (key :: seen) a

/-- Sets fields from the items of an array, in the order of the fields. -/
def setItems (ending : Ending) : List (Field α) → List Json → α → Except ReadError α
  | [], [], a => if ending = .closed then .ok a else .error .malformed
  | [], _ :: _, _ => .error .malformed
  | field :: fields, [], a =>
    if ending ≠ .closed then .error .malformed
    else if field.required then .error .mismatch
    else setItems ending fields [] a
  | field :: fields, v :: rest, a => do
    let a ← field.read v a
    setItems ending fields rest a

/-- A record over a starting value. -/
def asRecord (fields : List (Field α)) (start : α) : Json → Except ReadError α
  | .object members ending => do
    let (seen, a) ← setMembers fields members [] start
    if ending ≠ .closed then .error .malformed
    else if fields.all fun f => !f.required || seen.contains f.key then .ok a
    else .error .mismatch
  | .array items ending => setItems ending fields items start
  | v => .error v.refusal

/-- Reads a whole text, behind which only blanks may follow. -/
def readText (read : Json → Except ReadError α) (s : String) : Except ReadError α := do
  let (v, more) := Json.read s
  let a ← read v
  if more then .error .malformed else .ok a

end Json

end Aquarium
