import StackScript.Token.Basic

/-!
# Lexemes

Where the next word of a script ends. Each kind of word has a function that
counts the characters it takes from the front of the text; `lexeme` picks the
kind by the first characters and is never at a loss, because a character that
begins no word is an error token of its own.

No count depends on anything behind the next line feed, and no word contains
one. A line can therefore be read without the others.

## Main definitions

* `nameLength`: The characters of a name, dots included.
* `numberLength`: The characters of a number.
* `Quoted`, `quotedLength`: The characters of a quoted text, and whether it is closed.
* `lexeme`: The kind and the length of the next word.

## Theorems

* `lexeme_pos`: A word has at least one character.
-/

namespace StackScript

namespace Lexeme

/-- The characters that separate words: space, tab, carriage return, line feed
    and form feed. -/
def isSpace (c : Char) : Bool :=
  c = ' ' || c = '\t' || c = '\r' || c = '\n' || c = '\x0c'

/-- A name begins with an ASCII letter or an underscore. -/
def isNameStart (c : Char) : Bool :=
  c.isAlpha || c = '_'

/-- A name goes on with ASCII letters, digits and underscores. -/
def isNameChar (c : Char) : Bool :=
  c.isAlphanum || c = '_'

/-- How many characters from the front satisfy `p`. -/
def countWhile (p : Char → Bool) (cs : List Char) : Nat :=
  (cs.takeWhile p).length

/-- How far the reading of a name has come. -/
inductive NameState where
  /-- One character has been read. -/
  | opened
  /-- The last of several characters belongs to a segment. -/
  | segment
  /-- A dot has been read that a second one may follow. -/
  | dot
  /-- A dot has been read that only a segment may follow. -/
  | lastDot

/-- Reading on by one character. A name keeps a dot at its end that no segment
    follows, and keeps two of them if it had more than one character before. -/
def NameState.step (state : NameState) (c : Char) : Option NameState :=
  match state with
  | .opened => if isNameChar c then some .segment else if c = '.' then some .lastDot else none
  | .segment => if isNameChar c then some .segment else if c = '.' then some .dot else none
  | .dot => if isNameStart c then some .segment else if c = '.' then some .lastDot else none
  | .lastDot => if isNameStart c then some .segment else none

/-- How many characters a name takes that has been read up to `state`. -/
def nameTailLength (state : NameState) : List Char → Nat
  | [] => 0
  | c :: cs =>
      match state.step c with
      | some next => nameTailLength next cs + 1
      | none => 0

/-- The length of a name, whose first character is already known to start one. -/
def nameLength (tail : List Char) : Nat :=
  nameTailLength .opened tail + 1

/-- The length of a variable name behind its dollar sign; variables have no dots. -/
def variableLength (cs : List Char) : Nat :=
  countWhile isNameChar cs

/-- The length of the fraction of a number: a point with digits, or nothing. -/
def fractionLength : List Char → Nat
  | '.' :: cs =>
      match countWhile Char.isDigit cs with
      | 0 => 0
      | n + 1 => n + 2
  | _ => 0

/-- The length of the sign of an exponent. -/
def signLength : List Char → Nat
  | c :: _ => if c = '+' || c = '-' then 1 else 0
  | [] => 0

/-- The length of the exponent of a number: a mark, perhaps a sign, and digits,
    or nothing. -/
def exponentLength : List Char → Nat
  | [] => 0
  | c :: cs =>
      if c = 'e' || c = 'E' then
        match countWhile Char.isDigit (cs.drop (signLength cs)) with
        | 0 => 0
        | n + 1 => 1 + signLength cs + (n + 1)
      else
        0

/-- The length of the number at the front: digits, a fraction and an exponent. -/
def numberLength (cs : List Char) : Nat :=
  let whole := countWhile Char.isDigit cs
  let fraction := fractionLength (cs.drop whole)
  whole + fraction + exponentLength (cs.drop (whole + fraction))

/-- The end of a quoted text behind its opening quote. -/
structure Quoted where
  /-- The closing quote was found. -/
  closed : Bool
  /-- The characters taken, with the closing quote. -/
  length : Nat
  deriving DecidableEq, Repr

/-- The same end, `n` characters further on. -/
def Quoted.shift (n : Nat) (q : Quoted) : Quoted :=
  ⟨q.closed, q.length + n⟩

/-- Reading a text quoted by `quote`. A backslash takes the character after it
    with it; no text goes on behind a line feed, and a backslash before one is
    no part of the text. -/
def quotedLength (quote : Char) : List Char → Quoted
  | [] => ⟨false, 0⟩
  | '\\' :: c :: cs =>
      if c = '\n' then ⟨false, 0⟩ else (quotedLength quote cs).shift 2
  | c :: cs =>
      if c = '\n' || c = '\\' then ⟨false, 0⟩
      else if c = quote then ⟨true, 1⟩
      else (quotedLength quote cs).shift 1

/-- The punctuation of a single character that has a kind of its own. -/
def punctuation : Char → Option TokenKind
  | '{' => some .lBrace
  | '}' => some .rBrace
  | '[' => some .lBracket
  | ']' => some .rBracket
  | '(' => some .lParen
  | ')' => some .rParen
  | '.' => some .dot
  | ',' => some .comma
  | ':' => some .colon
  | ';' => some .semicolon
  | '=' => some .eq
  | '?' => some .question
  | '|' => some .pipe
  | _ => none

/-- The operators of two characters. -/
def longOperators : List (Char × Char) :=
  [('=', '='), ('!', '='), ('<', '='), ('>', '='), ('&', '&'), ('|', '|'), ('?', '?'),
   ('=', '>'), ('-', '>'), ('+', '='), ('-', '='), ('*', '='), ('/', '=')]

/-- The operators of one character. -/
def shortOperators : List Char :=
  ['+', '-', '*', '/', '%', '<', '>', '!', '~', '^', '&', '@', '#']

/-- The two characters at the front are one operator. -/
def startsLongOperator (c : Char) : List Char → Bool
  | d :: _ => longOperators.contains (c, d)
  | [] => false

/-- The kind of a single sign that is no part of a longer word. -/
def signKind (c : Char) : TokenKind :=
  (punctuation c).getD (if shortOperators.contains c then .operator else .error)

end Lexeme

open Lexeme in
/-- The kind and the length of the word that begins with `c` and goes on in
    `cs`. -/
def lexeme (c : Char) (cs : List Char) : TokenKind × Nat :=
  -- comments and names come before the signs that they begin with or contain
  if c = '/' && cs.head? = some '/' then
    (.comment, countWhile (· ≠ '\n') cs + 1)
  else if isNameStart c then
    (.ident, nameLength cs)
  else if c.isDigit then
    (.number, numberLength (c :: cs))
  else if c = '$' && cs.head?.any isNameStart then
    (.variable, variableLength cs + 1)
  else if c = '"' || c = '\'' then
    let quoted := quotedLength c cs
    (if quoted.closed then .string else .error, quoted.length + 1)
  else if startsLongOperator c cs then
    (.operator, 2)
  else
    (signKind c, 1)

/-- A word has at least one character, so reading words makes progress. -/
theorem lexeme_pos (c : Char) (cs : List Char) : 0 < (lexeme c cs).2 := by
  unfold lexeme
  split
  · simp
  split
  · simp [Lexeme.nameLength]
  split
  · next digit =>
    -- The digit that begins a number is one of its digits.
    have whole : 0 < Lexeme.countWhile Char.isDigit (c :: cs) := by
      simp [Lexeme.countWhile, digit]
    simp only [Lexeme.numberLength]
    omega
  split
  · simp
  split
  · simp
  split <;> simp

end StackScript
