import StackScript.Text.Trim
import StackScript.Token.Basic

/-!
# Tokens in Their Place

A token together with all tokens before it. Whoever holds an occurrence can
look back, to the comments above a declaration for instance, and knows the
index of the token, so passes over a script need no array and no counter.

## Main definitions

* `Occurrence`: A token with the tokens before it.
* `occurrences`: The tokens of a script in their places.
* `significant`: The occurrences that are no comments.
* `nextSignificant`, `prevSignificant`: The neighbours of an index among them.
* `commentsAbove`, `Occurrence.description`: What the comments above a token say.

## Theorems

* `occurrencesAfter_map_token`: Putting tokens in their places changes none.
-/

namespace StackScript

/-- A token with the tokens before it. -/
structure Occurrence where
  /-- The tokens before, the nearest first. -/
  before : List Token
  /-- The token itself. -/
  token : Token
  deriving DecidableEq

namespace Occurrence

/-- The index of the token in its script. -/
def index (occurrence : Occurrence) : Nat :=
  occurrence.before.length

/-- The token is not a comment. -/
def isSignificant (occurrence : Occurrence) : Bool :=
  occurrence.token.isSignificant

end Occurrence

/-- The tokens in their places, behind those of `before` (nearest first). -/
def occurrencesAfter (before : List Token) : List Token → List Occurrence
  | [] => []
  | token :: tokens => ⟨before, token⟩ :: occurrencesAfter (token :: before) tokens

/-- The tokens of a script in their places. -/
def occurrences (tokens : List Token) : List Occurrence :=
  occurrencesAfter [] tokens

/-- Putting tokens in their places changes none of them. -/
@[simp]
theorem occurrencesAfter_map_token (before tokens : List Token) :
    (occurrencesAfter before tokens).map Occurrence.token = tokens := by
  induction tokens generalizing before with
  | nil => rfl
  | cons token tokens ih => simp [occurrencesAfter, ih]

/-- The occurrences that are no comments. -/
def significant (places : List Occurrence) : List Occurrence :=
  places.filter Occurrence.isSignificant

/-- The index of the first token from `start` on that is no comment, below
    `stop`. -/
def nextSignificant (tokens : List Token) (start stop : Nat) : Option Nat :=
  (((tokens.take stop).drop start).findIdx? Token.isSignificant).map (start + ·)

/-- The index of the last token before `stop` that is no comment. -/
def prevSignificant (tokens : List Token) (stop : Nat) : Option Nat :=
  let before := (tokens.take stop).reverse
  (before.findIdx? Token.isSignificant).map (before.length - 1 - ·)

/-- The run of comments that ends on the line above `line`, on consecutive
    lines, among the tokens before it (nearest first). A comment behind other
    words of its line describes those and ends the run. -/
def commentsAbove (line : Nat) : List Token → List Token
  | [] => []
  | comment :: before =>
      let alone := before.head?.all fun other => other.position.line ≠ comment.position.line
      if comment.kind = .comment && comment.position.line + 1 = line && alone then
        comment :: commentsAbove comment.position.line before
      else
        []

/-- What a comment says: its text without slashes in front and without blanks
    around it. -/
def Token.remark (comment : Token) : List Char :=
  Text.trim (comment.text.toList.dropWhile (· = '/'))

/-- The description of a token: what the comments above it say, joined by
    spaces, if they say anything. -/
def Occurrence.description (occurrence : Occurrence) : Option String :=
  let comments := commentsAbove occurrence.token.position.line occurrence.before
  match (comments.reverse.map Token.remark).filter (· ≠ []) with
  | [] => none
  | remarks => some (String.ofList (List.intercalate [' '] remarks))

end StackScript
