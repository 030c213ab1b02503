import StackScript.Text.Trim
import StackScript.Unicode.Identifier
import StackScript.Unicode.LowerCase

/-!
# Keys of Names

People write one name in several ways: `ValidateToken`, `validate_token`,
`Validate Token`. The key of a name is what all of these share, the letters
and digits in lower case, and two names are taken for the same if their keys
agree.

The small letters are chosen one by one, so that a key never depends on where
in a name a letter stands.

## Main definitions

* `keyChars`: The key of a name.
* `nameKey`: The same for a `String`.
* `keySegments`: The keys of the segments of a path.
-/

namespace StackScript

namespace Text

/-- The characters that a key keeps: word characters other than the
    underscore. -/
def isKeyChar (c : Char) : Bool :=
  Unicode.isWordChar c && c ≠ '_'

/-- The key of a name: its letters and digits in lower case. -/
def keyChars (cs : List Char) : List Char :=
  (cs.filter isKeyChar).flatMap Unicode.lowerChar

/-- The key of a name. -/
def nameKey (name : String) : String :=
  onChars keyChars name

/-- The keys of the segments of a path, without the segments that have none. -/
def keySegments (path : String) : List String :=
  ((path.toList.splitOn '/').map fun segment => String.ofList (keyChars segment)).filter (· ≠ "")

end Text

end StackScript
