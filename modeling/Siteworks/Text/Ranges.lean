/-!
# Sets of characters as ranges of code points
-/

namespace Siteworks.Text

/-- The code point of the character lies in one of the closed ranges. -/
def inRanges (ranges : List (Nat × Nat)) (c : Char) : Bool :=
  ranges.any fun range => range.1 ≤ c.toNat && c.toNat ≤ range.2

end Siteworks.Text
