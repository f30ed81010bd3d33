/-!
# Classes of characters

A class is a list of ranges of code points.
-/

namespace Conform.Text

/-- Whether one of the ranges, ends included, holds the character. -/
def inRanges (ranges : List (Nat × Nat)) (c : Char) : Bool :=
  ranges.any fun r => r.1 ≤ c.toNat && c.toNat ≤ r.2

end Conform.Text
