import StackScript.Text.Trim

/-!
# Quoted Texts

The text that a literal stands for. A backslash takes the character after it
literally, except that `n`, `t` and `r` stand for a line feed, a tab and a
carriage return. A literal that lacks its closing quote stands for all that
follows the opening one, and a word without quotes stands for itself.

## Main definitions

* `unescape`: A text with its escapes resolved.
* `unquoteChars`, `unquote`: The text that a literal stands for.
-/

namespace StackScript

namespace Text

/-- What a backslash makes of the character after it. -/
def escaped : Char → Char
  | 'n' => '\n'
  | 't' => '\t'
  | 'r' => '\r'
  | c => c

/-- The text with its escapes resolved; a backslash at the end stays. -/
def unescape : List Char → List Char
  | [] => []
  | ['\\'] => ['\\']
  | '\\' :: c :: cs => escaped c :: unescape cs
  | c :: cs => c :: unescape cs

/-- The text ends in an odd run of backslashes, so that the next character
    would be escaped. The characters come last first. -/
def escapesNext (backwards : List Char) : Bool :=
  (backwards.takeWhile (· = '\\')).length % 2 = 1

/-- The text behind an opening quote without its closing quote, if it has
    one. -/
def dropClosing (quote : Char) (body : List Char) : List Char :=
  match body.reverse with
  | [] => body
  | c :: before => if c = quote && !escapesNext before then before.reverse else body

/-- The text that a literal stands for. -/
def unquoteChars : List Char → List Char
  | [] => []
  | c :: body => if c = '"' || c = '\'' then unescape (dropClosing c body) else c :: body

/-- The text that a literal stands for. -/
def unquote (literal : String) : String :=
  onChars unquoteChars literal

end Text

end StackScript
