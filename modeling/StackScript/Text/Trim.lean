import StackScript.Unicode.Blank

/-!
# Trimming Texts

Taking characters of a class off the ends of a text. Everything works on lists
of characters; a text that is stored stays a `String`, and `onChars` carries a
rule over.

## Main definitions

* `onChars`: A rule on characters as a rule on texts.
* `trimBy`, `trim`: A text without some characters, or without blanks, at its ends.
-/

namespace StackScript

namespace Text

/-- A rule on characters as a rule on texts. -/
def onChars (rule : List Char → List Char) (text : String) : String :=
  String.ofList (rule text.toList)

/-- The text without the characters of a class at its end. -/
def trimEndBy (p : Char → Bool) (cs : List Char) : List Char :=
  (cs.reverse.dropWhile p).reverse

/-- The text without the characters of a class at its ends. -/
def trimBy (p : Char → Bool) (cs : List Char) : List Char :=
  trimEndBy p (cs.dropWhile p)

/-- The text without blanks at its ends. -/
def trim (cs : List Char) : List Char :=
  trimBy Unicode.isBlank cs

end Text

end StackScript
