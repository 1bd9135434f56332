/-!
# Blank characters

The characters that Unicode counts as white space. The zero-width space is not among them.
-/

namespace Aquarium

/-- A character of Unicode's property `White_Space`. -/
def isBlank (c : Char) : Bool :=
  let n := c.toNat
  (0x09 ≤ n && n ≤ 0x0D) || n == 0x20 || n == 0x85 || n == 0xA0 || n == 0x1680
    || (0x2000 ≤ n && n ≤ 0x200A) || n == 0x2028 || n == 0x2029 || n == 0x202F || n == 0x205F
    || n == 0x3000

/-- Nothing but white space. -/
def isBlankText (s : String) : Bool := s.toList.all isBlank

example : isBlank '\u0085' = true ∧ isBlank '\u3000' = true ∧ isBlank '\u200b' = false := by decide

end Aquarium
