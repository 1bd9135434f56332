import Aquarium.Json.Token

/-!
# From a value to text

A value is first spelled as its tokens. The compact text sets them side by side; the file layout
puts every item and member on a line of its own, two blanks further in than what it belongs to,
and leaves an empty array or object closed up.
-/

namespace Aquarium

namespace Json

mutual

/-- The tokens of a value. -/
def tokens : Json → List Token
  | .null => [.null]
  | .bool b => [.bool b]
  | .number n => [.number n]
  | .string s => [.string s]
  | .array items _ => .openArray :: (itemTokens items ++ [.closeArray])
  | .object members _ => .openObject :: (memberTokens members ++ [.closeObject])
  | .cut => []

/-- The tokens of items, with commas between them. -/
def itemTokens : List Json → List Token
  | [] => []
  | [v] => v.tokens
  | v :: w :: vs => v.tokens ++ .comma :: itemTokens (w :: vs)

/-- The tokens of members, with commas between them. -/
def memberTokens : List (Option String × Json) → List Token
  | [] => []
  | [(k, v)] => .string k :: .colon :: v.tokens
  | (k, v) :: m :: ms => .string k :: .colon :: (v.tokens ++ .comma :: memberTokens (m :: ms))

end

/-- A line break and the blanks of a depth. -/
def lineBreak (depth : Nat) : List Char := '\n' :: List.replicate (2 * depth) ' '

/-- Tokens in the file layout, at a depth. -/
def layOut : Nat → List Token → List Char
  | _, [] => []
  | depth, .openArray :: .closeArray :: ts => '[' :: ']' :: layOut depth ts
  | depth, .openObject :: .closeObject :: ts => '{' :: '}' :: layOut depth ts
  | depth, .openArray :: ts => '[' :: (lineBreak (depth + 1) ++ layOut (depth + 1) ts)
  | depth, .openObject :: ts => '{' :: (lineBreak (depth + 1) ++ layOut (depth + 1) ts)
  | depth, .closeArray :: ts => lineBreak (depth - 1) ++ ']' :: layOut (depth - 1) ts
  | depth, .closeObject :: ts => lineBreak (depth - 1) ++ '}' :: layOut (depth - 1) ts
  | depth, .comma :: ts => ',' :: (lineBreak depth ++ layOut depth ts)
  | depth, .colon :: ts => ':' :: ' ' :: layOut depth ts
  | depth, t :: ts => t.text ++ layOut depth ts

/-- The compact text of a value. -/
def compact (v : Json) : String := String.ofList (v.tokens.flatMap Token.text)

/-- The text of a value in the file layout. -/
def pretty (v : Json) : String := String.ofList (layOut 0 v.tokens)

end Json

end Aquarium
