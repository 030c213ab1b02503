import StackScript.Source.Position

/-!
# Positions by Line Table

Converts byte offsets into positions through a table of the places where lines
begin, built once for a text. A lookup finds the last line that begins at or
before the offset and counts characters from there.

An offset inside a character has no character count; the position is then the
first column of its line.

## Main definitions

* `LineIndex`: The line table of a text.
* `LineIndex.position`: The position of a byte offset.

## Theorems

* `LineIndex.ofChars_reached_ne_nil`: The search for a line always finds one.
-/

namespace StackScript

/-- The beginning of a line. -/
structure LineStart where
  /-- The byte offset at which the line begins. -/
  offset : Nat
  /-- The text from there to its end. -/
  text : List Char

/-- The line table of a text. -/
structure LineIndex where
  /-- The length of the text in bytes. -/
  size : Nat
  /-- The beginnings of the lines, in order. -/
  starts : List LineStart

/-- The number of characters that fill exactly `n` bytes of the text, if the
    `n` bytes end between two characters. -/
def charsInBytes : Nat → List Char → Option Nat
  | 0, _ => some 0
  | _ + 1, [] => none
  | n + 1, c :: cs =>
      if c.utf8Size ≤ n + 1 then
        (charsInBytes (n + 1 - c.utf8Size) cs).map (· + 1)
      else
        none

/-- The beginnings of the lines behind the first one, for a text that starts
    at `offset`. -/
def laterLineStarts (offset : Nat) : List Char → List LineStart
  | [] => []
  | c :: cs =>
      if c = '\n' then
        ⟨offset + 1, cs⟩ :: laterLineStarts (offset + 1) cs
      else
        laterLineStarts (offset + c.utf8Size) cs

namespace LineIndex

/-- The line table of the characters of a text. -/
def ofChars (cs : List Char) : LineIndex where
  size := byteLength cs
  starts := ⟨0, cs⟩ :: laterLineStarts 0 cs

/-- The line table of a text. -/
def ofText (text : String) : LineIndex :=
  ofChars text.toList

/-- The number of lines; an empty text has one. -/
def lineCount (index : LineIndex) : Nat :=
  index.starts.length

/-- The position of the byte at `offset`, counted to the end of the text at
    most. -/
def position (index : LineIndex) (offset : Nat) : Position :=
  let target := min offset index.size
  -- the line of the offset is the last that begins at or before it
  let reached := index.starts.takeWhile (·.offset ≤ target)
  match reached.getLast? with
  | some line =>
      ⟨reached.length, (charsInBytes (target - line.offset) line.text).getD 0 + 1⟩
  | none => Position.start

/-- The first line begins before every offset, so the search for a line always
    finds one. -/
theorem ofChars_reached_ne_nil (cs : List Char) (target : Nat) :
    (ofChars cs).starts.takeWhile (·.offset ≤ target) ≠ [] := by
  simp [ofChars]

end LineIndex

end StackScript
