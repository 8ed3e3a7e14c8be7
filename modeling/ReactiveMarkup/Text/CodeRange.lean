-- SUMMARY: Properties of characters as lists of ranges of code points.
/-!
# Ranges of code points

Properties of characters are given as lists of closed ranges of code points, ascending and apart.
-/

namespace ReactiveMarkup.Text

/-- The first and the last code point of a range. -/
abbrev CodeRange := Nat × Nat

/-- Whether the character lies in one of the ranges. -/
def inRanges (ranges : List CodeRange) (c : Char) : Bool :=
  ranges.any fun r => r.1 ≤ c.toNat && c.toNat ≤ r.2

end ReactiveMarkup.Text
