import StackScript.Source.Position

/-!
# Positions by Running Cursor

Converts byte offsets into positions by walking the bytes of a text. Offsets
asked for in rising order cost one walk over the text in all; an offset behind
the cursor starts the walk again.

A character is counted when its first byte is passed. In UTF-8 every later
byte of a character has `10` as its two highest bits, which no first byte has.

## Main definitions

* `LineCursor`: A text with the place reached in it.
* `LineCursor.advanceTo`: The cursor at a byte offset.
-/

namespace StackScript

/-- The position behind a byte: a line feed ends the line, the first byte of a
    character moves one column on, and its later bytes move nothing. -/
def Position.afterByte (p : Position) (byte : UInt8) : Position :=
  if byte = 0x0A then
    ⟨p.line + 1, 1⟩
  else if byte &&& 0xC0 ≠ 0x80 then
    ⟨p.line, p.column + 1⟩
  else
    p

/-- A text with the place reached in it. -/
structure LineCursor where
  /-- The bytes of the text. -/
  bytes : List UInt8
  /-- The byte offset reached. -/
  offset : Nat
  /-- The position of that offset. -/
  position : Position

namespace LineCursor

/-- The cursor at the beginning of a text. -/
def ofText (text : String) : LineCursor where
  bytes := text.toList.flatMap String.utf8EncodeChar
  offset := 0
  position := Position.start

/-- The cursor put back to the beginning. -/
def rewind (cursor : LineCursor) : LineCursor :=
  { cursor with offset := 0, position := Position.start }

/-- The cursor at `offset`, counted to the end of the text at most. -/
def advanceTo (cursor : LineCursor) (offset : Nat) : LineCursor :=
  let target := min offset cursor.bytes.length
  let origin := if target < cursor.offset then cursor.rewind else cursor
  let passed := (origin.bytes.drop origin.offset).take (target - origin.offset)
  { origin with
    offset := target
    position := passed.foldl Position.afterByte origin.position }

/-- The positions of the offsets, asked for one after another. -/
def positions (cursor : LineCursor) : List Nat → List Position
  | [] => []
  | offset :: offsets =>
      let reached := cursor.advanceTo offset
      reached.position :: reached.positions offsets

end LineCursor

end StackScript
