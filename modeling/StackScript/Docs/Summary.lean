import StackScript.Text.Ellipsis
import StackScript.Text.Trim

/-!
# Summaries

The summary of a documentation text in Markdown is its first line of prose:
code between fences, headings and blank lines do not count.

## Main definitions

* `firstProse`: The first line of prose.
* `summarize`: That line, cut to a width.
-/

namespace StackScript

namespace Docs

/-- The line begins or ends fenced code. -/
def isFence (line : List Char) : Bool :=
  ['`', '`', '`'].isPrefixOf line

/-- The line is no prose: it is blank or a heading. -/
def isSilent (line : List Char) : Bool :=
  line.isEmpty || line.head? = some '#'

/-- The first line of prose among lines without outer blanks, where `inCode`
    says whether the lines before have left a fence open. -/
def firstProse (inCode : Bool) : List (List Char) → Option (List Char)
  | [] => none
  | line :: lines =>
      if isFence line then
        firstProse (!inCode) lines
      else if inCode || isSilent line then
        firstProse inCode lines
      else
        some line

/-- The first line of prose of a text, cut to a width. -/
def summarize (body : String) (width : Nat) : Option String :=
  let lines := (body.toList.splitOn '\n').map Text.trim
  (firstProse false lines).map fun line => String.ofList (Text.truncateChars width line)

end Docs

end StackScript
