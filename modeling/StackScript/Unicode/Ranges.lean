/-!
# Sets of Characters by Range

A property of characters is given by the Unicode standard as a list of ranges
of code points. The tables of this library all have that shape, so the test
for membership is written once, here.

## Main definitions

* `CodeRanges`: A set of characters, as inclusive ranges of code points.
* `CodeRanges.contains`: A character lies in one of the ranges.
-/

namespace StackScript

namespace Unicode

/-- A set of characters, as inclusive ranges of code points. -/
abbrev CodeRanges := List (Nat × Nat)

/-- The character's code point lies in one of the ranges. -/
def CodeRanges.contains (ranges : CodeRanges) (c : Char) : Bool :=
  ranges.any fun range => range.1 ≤ c.toNat && c.toNat ≤ range.2

/-- Membership is being between the ends of some range. -/
theorem CodeRanges.contains_iff (ranges : CodeRanges) (c : Char) :
    ranges.contains c = true ↔ ∃ range ∈ ranges, range.1 ≤ c.toNat ∧ c.toNat ≤ range.2 := by
  simp [contains, List.any_eq_true]

end Unicode

end StackScript
