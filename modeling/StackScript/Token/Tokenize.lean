import StackScript.Token.Lexeme

/-!
# Reading a Text into Tokens

The tokens of a text, in order, each with its place. Between two words only
spaces are passed over, so the words and the spaces together are the text.

## Main definitions

* `Place`: A position together with its byte offset.
* `tokenizeAt`: The tokens of the rest of a text from a place on.
* `tokenize`: The tokens of a text.
-/

namespace StackScript

/-- A position together with its byte offset. -/
structure Place where
  /-- The line and column. -/
  position : Position
  /-- The byte offset. -/
  offset : Nat
  deriving DecidableEq, Repr

namespace Place

/-- The beginning of a text. -/
def start : Place := ⟨Position.start, 0⟩

/-- The place behind the characters `cs`. -/
def after (place : Place) (cs : List Char) : Place :=
  ⟨place.position.after cs, place.offset + byteLength cs⟩

end Place

/-- The tokens of `cs`, whose first character is at `place`. -/
def tokenizeAt (place : Place) (cs : List Char) : List Token :=
  match cs with
  | [] => []
  | c :: rest =>
      if Lexeme.isSpace c then
        tokenizeAt (place.after [c]) rest
      else
        let word := lexeme c rest
        let taken := c :: rest.take (word.2 - 1)
        ⟨word.1, String.ofList taken, place.position, place.offset⟩ ::
          tokenizeAt (place.after taken) (rest.drop (word.2 - 1))
termination_by cs.length
decreasing_by
  · simp
  · simp only [List.length_drop, List.length_cons]
    omega

/-- The tokens of a text. -/
def tokenize (text : String) : List Token :=
  tokenizeAt Place.start text.toList

end StackScript
