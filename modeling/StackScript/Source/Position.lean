/-!
# Positions in a Source Text

Where a character of a text is, as editors show it: lines and columns count
from one, and a column counts characters and not bytes.

`Position.after` is the one rule behind every position in this library: a line
feed starts the next line, any other character moves one column on. The two
converters from byte offsets, `LineIndex` and `LineCursor`, are measured
against it.

## Main definitions

* `Position`: A line and a column.
* `Position.after`: Where the text goes on behind some characters.
* `byteLength`: The length of some characters in UTF-8 bytes.
-/

namespace StackScript

/-- A line and a column, both counted from one. -/
structure Position where
  /-- The line, from one. -/
  line : Nat
  /-- The column in characters, from one. -/
  column : Nat
  deriving DecidableEq, Repr

namespace Position

/-- The position of the first character of any text. -/
def start : Position := ⟨1, 1⟩

/-- The position behind the character `c`. -/
def afterChar (p : Position) (c : Char) : Position :=
  if c = '\n' then ⟨p.line + 1, 1⟩ else ⟨p.line, p.column + 1⟩

/-- The position behind the characters `cs`. -/
def after (p : Position) (cs : List Char) : Position :=
  cs.foldl afterChar p

@[simp]
theorem after_nil (p : Position) : p.after [] = p := rfl

@[simp]
theorem after_cons (p : Position) (c : Char) (cs : List Char) :
    p.after (c :: cs) = (p.afterChar c).after cs := rfl

/-- Text read in two pieces ends where the whole does. -/
theorem after_append (p : Position) (cs ds : List Char) :
    p.after (cs ++ ds) = (p.after cs).after ds :=
  List.foldl_append

end Position

/-- The length of the characters in UTF-8 bytes. -/
def byteLength : List Char → Nat
  | [] => 0
  | c :: cs => c.utf8Size + byteLength cs

@[simp]
theorem byteLength_nil : byteLength [] = 0 := rfl

@[simp]
theorem byteLength_cons (c : Char) (cs : List Char) :
    byteLength (c :: cs) = c.utf8Size + byteLength cs := rfl

/-- Offsets add up over two pieces of text. -/
theorem byteLength_append (cs ds : List Char) :
    byteLength (cs ++ ds) = byteLength cs + byteLength ds := by
  induction cs with
  | nil => simp
  | cons c cs ih => simp [ih, Nat.add_assoc]

end StackScript
