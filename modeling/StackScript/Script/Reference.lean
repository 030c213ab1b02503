import StackScript.Scheme
import StackScript.Text.Quoted

/-!
# References

What a script refers to. Four readers go over the words of a script, each on
its own: one for calls of functions and filters, one for variables, one for
tables, one for functions that are run by name. None of them knows whether the
thing referred to exists.

## Main definitions

* `Call`, `readCalls`: The calls of a script.
* `VariableRef`, `readVariables`: The variables it mentions.
* `TableRef`, `readTables`: The tables it works on.
* `RunRef`, `readRuns`: The functions it runs.
-/

namespace StackScript

/-- What is called. -/
inductive CallKind where
  | function
  | filter
  deriving DecidableEq, Repr

namespace CallKind

/-- Both kinds, in a fixed order. -/
def all : List CallKind :=
  [function, filter]

/-- The name under which a kind is written down. -/
def name : CallKind → String
  | function => "function"
  | filter => "filter"

end CallKind

/-- A call of a function, or a filter that is applied. -/
structure Call where
  /-- The name called. -/
  name : String
  /-- Where the name stands. -/
  position : Position
  /-- What is called. -/
  kind : CallKind
  deriving DecidableEq, Repr

/-- A mention of a variable. -/
structure VariableRef where
  /-- The name with its dollar sign. -/
  name : String
  /-- Where it stands. -/
  position : Position
  deriving DecidableEq, Repr

/-- An operation on a table, as in `db.query users`. -/
structure TableRef where
  /-- The operation. -/
  operation : String
  /-- The table. -/
  table : String
  /-- Where the operation stands. -/
  position : Position
  deriving DecidableEq, Repr

/-- A function run by its name, as in `function.run "Auth/Check"`. -/
structure RunRef where
  /-- The name, in which slashes separate folders. -/
  name : String
  /-- Where the word `function.run` stands. -/
  position : Position
  deriving DecidableEq, Repr

/-! ## Calls -/

/-- Words that begin statements without being calls. -/
def nonCallWords : List String :=
  ["as", "true", "false", "null", "if", "elseif", "else", "each", "try", "catch", "finally",
   "then"]

/-- A brace behind these words (the nearest first) opens a section of
    declarations, with or without a label. -/
def opensDeclarations : List Token → Bool
  | [] => false
  | token :: before =>
      let name := if token.kind = .string then before.head? else some token
      name.any fun word => word.kind = .ident && Scheme.declaresIn word.text

/-- A name behind these words is a filter: they end in a pipe, or in the
    beginning of a list of filters. -/
def expectsFilter : List Token → Bool
  | [] => false
  | token :: before =>
      token.kind = .pipe || token.kind = .eq && before.head?.any (·.isIdent "filters")

/-- The word behind `before` begins a statement: it is the first of its line,
    or follows a brace or a semicolon. -/
def beginsStatement (word : Token) (before : List Token) : Bool :=
  before.head?.all fun last =>
    last.position.line < word.position.line ||
      (last.kind = .lBrace || last.kind = .rBrace || last.kind = .semicolon)

/-- What follows the word makes it a call: a block, or on the same line an
    argument or an opening parenthesis. -/
def takesArguments (word : Token) (after : List Token) : Bool :=
  after.head?.any fun next =>
    next.kind = .lBrace ||
      (next.kind = .lParen || next.kind.isArgument) && next.position.line = word.position.line

/-- The word calls a function. Words of the language, keywords of schemes and
    names of sections do not. -/
def isFunctionCall (before : List Token) (word : Token) (after : List Token) : Bool :=
  !nonCallWords.contains word.text && (Scheme.ofKeyword? word.text).isNone &&
    !Scheme.knowsSection word.text && beginsStatement word before && takesArguments word after

/-- The calls among some words, behind the words of `before` (nearest first).
    `blocks` says of each open block, the innermost first, whether it holds
    declarations; whatever is inside such a block holds declarations too, and
    there only filters are called. -/
def callsAfter (blocks : List Bool) (before : List Token) : List Token → List Call
  | [] => []
  | word :: after =>
      let declaring := blocks.head? = some true
      match word.kind with
      | .lBrace =>
          callsAfter ((declaring || opensDeclarations before) :: blocks) (word :: before) after
      | .rBrace => callsAfter blocks.tail (word :: before) after
      | .ident =>
          -- a filter is one wherever it stands, a call only outside declarations
          let rest := callsAfter blocks (word :: before) after
          if expectsFilter before then
            ⟨word.text, word.position, .filter⟩ :: rest
          else if !declaring && isFunctionCall before word after then
            ⟨word.text, word.position, .function⟩ :: rest
          else
            rest
      | _ => callsAfter blocks (word :: before) after

/-- The calls of a script, in order. -/
def readCalls (tokens : List Token) : List Call :=
  callsAfter [] [] (tokens.filter Token.isSignificant)

/-! ## Variables -/

/-- The variables that a script mentions, in order. -/
def readVariables (tokens : List Token) : List VariableRef :=
  (tokens.filter fun token => token.kind = .variable).map fun token =>
    ⟨token.text, token.position⟩

/-! ## Tables and functions -/

/-- What the argument next to a word names: it has one of the given kinds,
    stands on the line of the word, and is not blank. -/
def namedArgument (kinds : List TokenKind) (word : Token) (after : List Token) :
    Option String :=
  match after with
  | [] => none
  | next :: _ =>
      let name := Text.onChars Text.trim (Text.unquote next.text)
      if next.position.line = word.position.line && kinds.contains next.kind && name ≠ "" then
        some name
      else
        none

/-- The operation that a word names, behind the mark of the database. -/
def databaseOperation? (word : Token) : Option String :=
  match word.text.toList with
  | 'd' :: 'b' :: '.' :: operation =>
      if word.kind = .ident then some (String.ofList operation) else none
  | _ => none

/-- The table that a word works on, with the words behind it. -/
def tableRef? (word : Token) (after : List Token) : Option TableRef := do
  let operation ← databaseOperation? word
  let table ← namedArgument [.ident, .string] word after
  return ⟨operation, table, word.position⟩

/-- The function that a word runs, with the words behind it. -/
def runRef? (word : Token) (after : List Token) : Option RunRef :=
  if word.isIdent "function.run" then
    (namedArgument [.string] word after).map fun name => ⟨name, word.position⟩
  else
    none

/-- What a reader makes of each word and the words behind it. -/
def readWords {α : Type} (read : Token → List Token → Option α) : List Token → List α
  | [] => []
  | word :: after =>
      match read word after with
      | some found => found :: readWords read after
      | none => readWords read after

/-- The tables that a script works on, in order. -/
def readTables (tokens : List Token) : List TableRef :=
  readWords tableRef? (tokens.filter Token.isSignificant)

/-- The functions that a script runs, in order. -/
def readRuns (tokens : List Token) : List RunRef :=
  readWords runRef? (tokens.filter Token.isSignificant)

end StackScript
