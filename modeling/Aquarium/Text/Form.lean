/-!
# Form text

A query is a list of named values, joined by ampersands, each with an equals sign behind its name.
A plus sign stands for a blank, and a percent sign with two hexadecimal digits for a byte; any
other percent sign stands for itself. A number sign ends the query.
-/

namespace Aquarium

namespace Form

/-- The pieces of a text between occurrences of a character; there is always one more piece than
there are occurrences. -/
def split (separator : Char) : List Char → List (List Char)
  | [] => [[]]
  | c :: cs =>
    match split separator cs with
    | [] => [[]]
    | piece :: pieces => if c = separator then [] :: piece :: pieces else (c :: piece) :: pieces

/-- The value of a hexadecimal digit. -/
def hexValue? (b : UInt8) : Option Nat :=
  let n := b.toNat
  if 48 ≤ n ∧ n ≤ 57 then some (n - 48)
  else if 65 ≤ n ∧ n ≤ 70 then some (n - 55)
  else if 97 ≤ n ∧ n ≤ 102 then some (n - 87)
  else none

/-- The bytes that encoded bytes stand for. -/
def decodeBytes : List UInt8 → List UInt8
  | [] => []
  | b :: high :: low :: rest =>
    if b = 37 then
      match hexValue? high, hexValue? low with
      | some h, some l => .ofNat (16 * h + l) :: decodeBytes rest
      | _, _ => b :: decodeBytes (high :: low :: rest)
    else (if b = 43 then 32 else b) :: decodeBytes (high :: low :: rest)
  | b :: rest => (if b = 43 then 32 else b) :: decodeBytes rest

/-- The text that encoded characters stand for, if its bytes spell one. -/
def decode (cs : List Char) : Option String :=
  String.fromUTF8? ⟨(decodeBytes (String.ofList cs).toUTF8.toList).toArray⟩

/-- The name and the value of a piece; a piece without an equals sign has an empty value. -/
def pair (piece : List Char) : Option String × Option String :=
  (decode (piece.takeWhile (· ≠ '=')), decode ((piece.dropWhile (· ≠ '=')).drop 1))

/-- The named values of a query, in order. -/
def read (query : String) : List (Option String × Option String) :=
  let cs := query.toList.takeWhile (· ≠ '#')
  ((split '&' cs).filter fun piece => !piece.isEmpty).map pair

/-- The values of a name. -/
def valuesOf (name : String) (pairs : List (Option String × Option String)) :
    List (Option String) :=
  (pairs.filter fun p => p.1 == some name).map (·.2)

/-- The value of a name that is given exactly once. -/
def value? (name : String) (pairs : List (Option String × Option String)) : Option String :=
  match valuesOf name pairs with
  | [v] => v
  | _ => none

/-- A number below a bound: decimal digits, maybe with zeros or one plus sign before them. -/
def natural? (bound : Nat) (s : String) : Option Nat :=
  let digits := match s.toList with
    | '+' :: cs => cs
    | cs => cs
  if digits.isEmpty || !digits.all Char.isDigit then none
  else
    let n := digits.foldl (fun n c => 10 * n + (c.toNat - '0'.toNat)) 0
    if n < bound then some n else none

end Form

end Aquarium
