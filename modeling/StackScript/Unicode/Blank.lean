import StackScript.Unicode.Ranges

/-!
# Blank Characters

The characters with the Unicode property `White_Space`. Names, labels and
comment texts are trimmed of them; the tokenizer has a smaller set of its own,
because a no-break space between two words is an error in a script and not a
separator.

## Main definitions

* `blankRanges`: The `White_Space` table.
* `isBlank`: A character is blank.
-/

namespace StackScript

namespace Unicode

/-- The `White_Space` table. -/
def blankRanges : CodeRanges :=
  [(0x9, 0xD), (0x20, 0x20), (0x85, 0x85), (0xA0, 0xA0), (0x1680, 0x1680), (0x2000, 0x200A),
   (0x2028, 0x2029), (0x202F, 0x202F), (0x205F, 0x205F), (0x3000, 0x3000)]

/-- The character separates words for a reader of the text. -/
def isBlank (c : Char) : Bool :=
  blankRanges.contains c

end Unicode

end StackScript
