/-!
# Cutting to a Width

A line that has to fit a given number of columns loses its tail to three dots.

## Main definitions

* `truncate`: A text cut to a width.
-/

namespace StackScript

namespace Text

/-- The mark for what was cut off. -/
def ellipsis : List Char := ['.', '.', '.']

/-- The text itself if it has at most `width` characters, else as much of its
    front as leaves room for the mark, and the mark. The mark is never
    shortened. -/
def truncateChars (width : Nat) (cs : List Char) : List Char :=
  if cs.length ≤ width then cs else cs.take (width - ellipsis.length) ++ ellipsis

/-- A text cut to a width. -/
def truncate (text : String) (width : Nat) : String :=
  String.ofList (truncateChars width text.toList)

end Text

end StackScript
