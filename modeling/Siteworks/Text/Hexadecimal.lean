/-!
# Hexadecimal digits
-/

namespace Siteworks.Text

/-- The value of an ASCII hexadecimal digit, in either case. -/
def hexValue? (c : Char) : Option Nat :=
  if c.isDigit then some (c.toNat - '0'.toNat)
  else if 'a' ≤ c ∧ c ≤ 'f' then some (c.toNat - 'a'.toNat + 10)
  else if 'A' ≤ c ∧ c ≤ 'F' then some (c.toNat - 'A'.toNat + 10)
  else none

/-- The byte that hexadecimal digits write, with or without a plus sign in front of them. -/
def hexByte? (text : List Char) : Option Nat :=
  let digits := if text.head? = some '+' then text.tail else text
  if digits.isEmpty then none
  else ((digits.mapM hexValue?).map fun values => values.foldl (16 * · + ·) 0).filter (· < 256)

end Siteworks.Text
