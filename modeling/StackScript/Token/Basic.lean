import StackScript.Source.Position

/-!
# Tokens

The words of a script. A script is read into a flat list of tokens: braces
carry no nesting of their own, comments are kept because declarations take
their descriptions from them, and text that fits nothing becomes an error
token, so that reading never fails.

## Main definitions

* `TokenKind`: What kind of word a token is.
* `Token`: A word with its place in the text.
* `Token.isSignificant`: The token is not a comment.
-/

namespace StackScript

/-- What kind of word a token is. -/
inductive TokenKind where
  /-- From `//` to the end of the line. -/
  | comment
  /-- A name, or several joined by dots. -/
  | ident
  /-- A name with a dollar sign. -/
  | variable
  /-- A quoted text. -/
  | string
  | number
  | lBrace
  | rBrace
  | lBracket
  | rBracket
  | lParen
  | rParen
  | dot
  | comma
  | colon
  | semicolon
  | eq
  | question
  | pipe
  /-- A comparison, an arithmetic sign and the like. -/
  | operator
  /-- A quoted text without its closing quote, or a character of no other kind. -/
  | error
  deriving DecidableEq, Repr

namespace TokenKind

/-- Every kind, in a fixed order. -/
def all : List TokenKind :=
  [comment, ident, .variable, string, number, lBrace, rBrace, lBracket, rBracket, lParen,
   rParen, dot, comma, colon, semicolon, eq, question, pipe, operator, error]

/-- The name under which a kind is written down. -/
def name : TokenKind → String
  | comment => "comment"
  | ident => "ident"
  | .variable => "variable"
  | string => "string"
  | number => "number"
  | lBrace => "l_brace"
  | rBrace => "r_brace"
  | lBracket => "l_bracket"
  | rBracket => "r_bracket"
  | lParen => "l_paren"
  | rParen => "r_paren"
  | dot => "dot"
  | comma => "comma"
  | colon => "colon"
  | semicolon => "semicolon"
  | eq => "eq"
  | question => "question"
  | pipe => "pipe"
  | operator => "operator"
  | error => "error"

/-- Only descriptions are read from tokens of this kind. -/
def isTrivia (kind : TokenKind) : Bool :=
  kind = comment

/-- A token of this kind can stand as an argument of a call. -/
def isArgument : TokenKind → Bool
  | ident | .variable | string | number => true
  | _ => false

end TokenKind

/-- A word with its place in the text. -/
structure Token where
  /-- What kind of word it is. -/
  kind : TokenKind
  /-- The word as written. -/
  text : String
  /-- The line and column of its first character. -/
  position : Position
  /-- The byte offset of its first character. -/
  offset : Nat
  deriving DecidableEq, Repr

namespace Token

/-- The token is not a comment. -/
def isSignificant (token : Token) : Bool :=
  !token.kind.isTrivia

/-- The token is the name `text`. -/
def isIdent (token : Token) (text : String) : Bool :=
  token.kind = .ident && token.text = text

/-- The token is a quoted text that lacks its closing quote. -/
def isUnterminatedString (token : Token) : Bool :=
  token.kind = .error &&
    match token.text.toList with
    | c :: _ => c = '"' || c = '\''
    | [] => false

end Token

end StackScript
