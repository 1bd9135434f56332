import Aquarium.Json.Basic

/-!
# Tokens of JSON text

A text is a list of tokens with blanks between them. `Token.read` splits a text into its tokens;
it ends in `unreadable` where no token can be found. `Token.text` spells one.
-/

namespace Aquarium

/-- A token. A string token has no content when an escape names half of a surrogate pair. -/
inductive Token where
  | openArray | closeArray | openObject | closeObject | comma | colon
  | null
  | bool (b : Bool)
  | number (n : Numeral)
  | string (s : Option String)
  | unreadable
  deriving DecidableEq, Repr

namespace Token

/-! ## Strings -/

/-- The value of a hexadecimal digit. -/
def hexValue? (c : Char) : Option Nat :=
  if '0' ≤ c ∧ c ≤ '9' then some (c.toNat - '0'.toNat)
  else if 'a' ≤ c ∧ c ≤ 'f' then some (c.toNat - 'a'.toNat + 10)
  else if 'A' ≤ c ∧ c ≤ 'F' then some (c.toNat - 'A'.toNat + 10)
  else none

/-- The number that four hexadecimal digits spell. -/
def hexValues? (a b c d : Char) : Option Nat := do
  let a ← hexValue? a
  let b ← hexValue? b
  let c ← hexValue? c
  let d ← hexValue? d
  return ((a * 16 + b) * 16 + c) * 16 + d

/-- What an escape of one letter stands for. -/
def unescape? : Char → Option Char
  | '"' => some '"'
  | '\\' => some '\\'
  | '/' => some '/'
  | 'b' => some '\x08'
  | 'f' => some '\x0c'
  | 'n' => some '\n'
  | 'r' => some '\r'
  | 't' => some '\t'
  | _ => none

/-- Half of a surrogate pair, the first or the second. -/
def isFirstHalf (n : Nat) : Bool := 0xD800 ≤ n && n < 0xDC00

/-- See `isFirstHalf`. -/
def isSecondHalf (n : Nat) : Bool := 0xDC00 ≤ n && n < 0xE000

/-- The character of a surrogate pair. -/
def joinHalves (first second : Nat) : Char :=
  Char.ofNat (0x10000 + (first - 0xD800) * 0x400 + (second - 0xDC00))

/-- What has been read of a string: its characters, the last first, or `none` once half of a pair
stood alone; and a first half that waits for its second. -/
structure Reading where
  content : Option (List Char)
  waiting : Option Nat

namespace Reading

/-- Nothing yet. -/
def start : Reading := ⟨some [], none⟩

/-- Takes up a character; a half that waits stands alone then. -/
def push (r : Reading) (c : Char) : Reading :=
  ⟨if r.waiting.isSome then none else r.content.map (c :: ·), none⟩

/-- Takes up the number of an escape. -/
def pushNumber (r : Reading) (n : Nat) : Reading :=
  match r.waiting with
  | some first => ⟨if isSecondHalf n then r.content.map (joinHalves first n :: ·) else none, none⟩
  | none =>
    if isFirstHalf n then ⟨r.content, some n⟩
    else if isSecondHalf n then ⟨none, none⟩
    else r.push (Char.ofNat n)

/-- The text read, if it is one. -/
def result (r : Reading) : Option String :=
  if r.waiting.isSome then none else r.content.map fun l => String.ofList l.reverse

end Reading

/-- The content of a string from behind its opening quote, and what follows its closing quote.
Control characters and unknown escapes are refused. -/
def readString (r : Reading) : List Char → Option (Option String × List Char)
  | [] => none
  | '"' :: cs => some (r.result, cs)
  | '\\' :: 'u' :: a :: b :: c :: d :: cs =>
    match hexValues? a b c d with
    | some n => readString (r.pushNumber n) cs
    | none => none
  | '\\' :: c :: cs =>
    match unescape? c with
    | some c => readString (r.push c) cs
    | none => none
  | c :: cs => if c < ' ' then none else readString (r.push c) cs

/-- How a character is written inside of a string. -/
def escaped (c : Char) : List Char :=
  match c with
  | '"' => ['\\', '"']
  | '\\' => ['\\', '\\']
  | '\x08' => ['\\', 'b']
  | '\x0c' => ['\\', 'f']
  | '\n' => ['\\', 'n']
  | '\r' => ['\\', 'r']
  | '\t' => ['\\', 't']
  | c =>
    if c < ' ' then
      ['\\', 'u', '0', '0', Nat.digitChar (c.toNat / 16), Nat.digitChar (c.toNat % 16)]
    else [c]

/-! ## Numbers -/

/-- The value of a decimal digit. -/
def digitValue (c : Char) : Nat := c.toNat - '0'.toNat

/-- The digits that a text starts with, and the rest. -/
def readDigits (cs : List Char) : List Nat × List Char :=
  ((cs.takeWhile Char.isDigit).map digitValue, cs.dropWhile Char.isDigit)

/-- A whole part: zero alone, or digits of which the first is not zero. -/
def readWhole? (cs : List Char) : Option (Nat × List Char) :=
  match readDigits cs with
  | ([], _) => none
  | (0 :: _ :: _, _) => none
  | (ds, rest) => some (Numeral.ofDigits ds, rest)

/-- A fraction, if the text goes on with one: a point and at least one digit. -/
def readFraction? : List Char → Option (List Nat × List Char)
  | '.' :: cs =>
    match readDigits cs with
    | ([], _) => none
    | (ds, rest) => some (ds, rest)
  | cs => some ([], cs)

/-- An exponent, if the text goes on with one: a letter, a sign that may be missing and at least
one digit. -/
def readExponent? (cs : List Char) : Option (Option Int × List Char) :=
  match cs with
  | c :: cs' =>
    if c = 'e' ∨ c = 'E' then
      let (negative, cs'') := match cs' with
        | '-' :: r => (true, r)
        | '+' :: r => (false, r)
        | r => (false, r)
      match readDigits cs'' with
      | ([], _) => none
      | (ds, rest) =>
        let e : Int := Numeral.ofDigits ds
        some (some (if negative then -e else e), rest)
    else some (none, cs)
  | [] => some (none, [])

/-- A number and the rest of the text. -/
def readNumber? (cs : List Char) : Option (Numeral × List Char) := do
  let (negative, cs) := match cs with
    | '-' :: r => (true, r)
    | r => (false, r)
  let (whole, cs) ← readWhole? cs
  let (fraction, cs) ← readFraction? cs
  let (exponent, cs) ← readExponent? cs
  return (⟨negative, whole, fraction, exponent⟩, cs)

/-! ## Texts -/

/-- The blanks of JSON text. -/
def isBlank (c : Char) : Bool := c = ' ' || c = '\n' || c = '\t' || c = '\r'

/-- The token a text starts with, and the rest; the text is not empty and starts with no blank. -/
def readOne? : List Char → Option (Token × List Char)
  | '[' :: cs => some (openArray, cs)
  | ']' :: cs => some (closeArray, cs)
  | '{' :: cs => some (openObject, cs)
  | '}' :: cs => some (closeObject, cs)
  | ',' :: cs => some (comma, cs)
  | ':' :: cs => some (colon, cs)
  | 'n' :: 'u' :: 'l' :: 'l' :: cs => some (null, cs)
  | 't' :: 'r' :: 'u' :: 'e' :: cs => some (bool true, cs)
  | 'f' :: 'a' :: 'l' :: 's' :: 'e' :: cs => some (bool false, cs)
  | '"' :: cs => (readString .start cs).map fun (s, rest) => (string s, rest)
  | cs => (readNumber? cs).map fun (n, rest) => (number n, rest)

/-- The tokens of a text, with a bound on their number. -/
def readUpTo : Nat → List Char → List Token
  | 0, _ => []
  | bound + 1, cs =>
    match cs.dropWhile isBlank with
    | [] => []
    | c :: cs =>
      match readOne? (c :: cs) with
      | some (t, rest) => t :: readUpTo bound rest
      | none => [unreadable]

/-- The tokens of a text. Each takes at least one character, so their number is bounded. -/
def read (cs : List Char) : List Token := readUpTo cs.length cs

/-! ## Spelling -/

/-- The text of a token. A string without content and what is unreadable have none. -/
def text : Token → List Char
  | openArray => ['[']
  | closeArray => [']']
  | openObject => ['{']
  | closeObject => ['}']
  | comma => [',']
  | colon => [':']
  | null => "null".toList
  | bool true => "true".toList
  | bool false => "false".toList
  | number n => n.text
  | string s => '"' :: ((s.getD "").toList.flatMap escaped ++ ['"'])
  | unreadable => []

end Token

end Aquarium
