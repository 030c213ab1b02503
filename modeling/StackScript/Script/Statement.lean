import StackScript.Script.Brace

/-!
# Statements

A block is a row of statements. A statement ends with its line, but a line is
not over as long as a block, a bracket or a parenthesis opened on it is not,
and what follows a closing brace on the line of that brace still belongs to the
statement, as in `} as $result`. A semicolon ends a statement earlier.

The comments between two statements belong to neither; they are kept with the
second, whose description may be among them.

## Main definitions

* `Statement`: The tokens of a statement and the comments in front of it.
* `Extent`: How far the reading of a statement has come.
* `restOfStatement`: The tokens that a statement takes, and those it leaves.
* `statements`: The statements of a block.

## Theorems

* `restOfStatement_append`: A statement takes its tokens from the front and
  loses none.
-/

namespace StackScript

/-- The tokens of a statement and the comments in front of it. -/
structure Statement where
  /-- The comments between the statement before and this one. -/
  comments : List Occurrence
  /-- The first token, which is no comment. -/
  first : Occurrence
  /-- The other tokens, comments among them. -/
  others : List Occurrence

namespace Statement

/-- The tokens of the statement. -/
def places (statement : Statement) : List Occurrence :=
  statement.first :: statement.others

/-- The index of the first token. -/
def start (statement : Statement) : Nat :=
  statement.first.index

/-- The index behind the last token. -/
def stop (statement : Statement) : Nat :=
  statement.start + statement.places.length

/-- The tokens of the statement that are no comments. -/
def significant (statement : Statement) : List Occurrence :=
  StackScript.significant statement.places

end Statement

/-- How far the reading of a statement has come. -/
structure Extent where
  /-- The line that the statement has reached. -/
  line : Nat
  /-- The brackets and parentheses open in it. -/
  nesting : Nat
  /-- The blocks open in it. -/
  depth : Nat

namespace Extent

/-- The statement takes a token. Inside a block only braces count; the brace
    that closes the block sets the line. -/
def take (extent : Extent) (token : Token) : Extent :=
  let reached := { extent with line := token.position.line }
  match extent.depth, token.kind with
  -- on the level of the statement itself
  | 0, .lBrace => { reached with depth := 1 }
  | 0, .lBracket => { reached with nesting := extent.nesting + 1 }
  | 0, .lParen => { reached with nesting := extent.nesting + 1 }
  | 0, .rBracket => { reached with nesting := extent.nesting - 1 }
  | 0, .rParen => { reached with nesting := extent.nesting - 1 }
  | 0, _ => reached
  -- inside a block
  | depth + 1, .lBrace => { extent with depth := depth + 2 }
  | depth + 1, .rBrace => { reached with depth := depth }
  | _ + 1, _ => extent

/-- The extent of a statement that has its first token only. -/
def ofFirst (token : Token) : Extent :=
  Extent.take ⟨token.position.line, 0, 0⟩ token

/-- No block and no bracket is open. -/
def isLevel (extent : Extent) : Bool :=
  extent.depth = 0 && extent.nesting = 0

/-- The statement ends before the token: the line is over, or an outer block
    is. -/
def endsBefore (extent : Extent) (token : Token) : Bool :=
  extent.isLevel && extent.line < token.position.line ||
    extent.depth = 0 && token.kind = .rBrace

/-- The statement ends with the token. -/
def endsWith (extent : Extent) (token : Token) : Bool :=
  extent.isLevel && token.kind = .semicolon

end Extent

/-- What a statement that has come to `extent` takes of the following tokens,
    and what it leaves. -/
def restOfStatement (extent : Extent) : List Occurrence → List Occurrence × List Occurrence
  | [] => ([], [])
  | place :: places =>
      if extent.endsBefore place.token then
        ([], place :: places)
      else if extent.endsWith place.token then
        ([place], places)
      else
        let others := restOfStatement (extent.take place.token) places
        (place :: others.1, others.2)

/-- A statement takes its tokens from the front and loses none. -/
theorem restOfStatement_append (extent : Extent) (places : List Occurrence) :
    (restOfStatement extent places).1 ++ (restOfStatement extent places).2 = places := by
  fun_induction restOfStatement extent places with
  | case1 => rfl
  | case2 => rfl
  | case3 => rfl
  | case4 extent place places _ _ others ih => exact congrArg (place :: ·) ih

/-- What a statement leaves is not longer than what it was offered. -/
theorem restOfStatement_length_le (extent : Extent) (places : List Occurrence) :
    (restOfStatement extent places).2.length ≤ places.length := by
  have h := congrArg List.length (restOfStatement_append extent places)
  simp only [List.length_append] at h
  omega

/-- The statements of a block, where `comments` have been read in front of the
    first. -/
def statementsAfter (comments places : List Occurrence) : List Statement :=
  match places with
  | [] => []
  | place :: rest =>
      if !place.isSignificant then
        statementsAfter (comments ++ [place]) rest
      else if place.token.kind = .semicolon then
        statementsAfter comments rest
      else
        let others := restOfStatement (Extent.ofFirst place.token) rest
        ⟨comments, place, others.1⟩ :: statementsAfter [] others.2
termination_by places.length
decreasing_by
  · simp
  · simp
  · have := restOfStatement_length_le (Extent.ofFirst place.token) rest
    simp only [List.length_cons]
    omega

/-- The statements of a block. -/
def statements (places : List Occurrence) : List Statement :=
  statementsAfter [] places

end StackScript
