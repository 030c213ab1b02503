import StackScript.Script.Reference
import StackScript.Symbols.Table
import StackScript.Token.Tokenize

/-!
# Documents

Everything known about one script after a single reading. Reading never fails;
what does not fit is listed among the diagnostics, first what is wrong with the
words, then with the braces, then with the rest, each in the order of the
script.

## Main definitions

* `Document`: What is known about a script.
* `parseWith`, `parse`: The reading of a text, with or without a scheme given.
-/

namespace StackScript

/-- What is known about a script. -/
structure Document where
  /-- The kind of object. -/
  scheme : Scheme
  /-- The line that declares it. -/
  header : Option Header
  /-- The sections of its body. -/
  blocks : List Section
  /-- What it declares. -/
  symbols : SymbolTable
  /-- What is wrong with it. -/
  diagnostics : List Diagnostic
  /-- Its words. -/
  tokens : List Token
  deriving DecidableEq, Repr

namespace Document

/-- The name of the object. -/
def name? (document : Document) : Option String :=
  document.header.bind Header.name

/-- The first section of a name. -/
def block? (document : Document) (name : String) : Option Section :=
  document.blocks.find? fun block => block.name = name

end Document

/-- What is wrong with single words. -/
def wordProblems (tokens : List Token) : List Diagnostic :=
  (tokens.filter fun token => token.kind = .error).map fun token =>
    if token.isUnterminatedString then
      Diagnostic.ofProblem .unterminatedString token.position
    else
      Diagnostic.ofProblem (.unexpectedCharacter token.text) token.position

/-- The position of the token at an index. -/
def positionAt (tokens : List Token) (index : Nat) : Position :=
  match tokens[index]? with
  | some token => token.position
  | none => Position.start

/-- What is wrong with the braces. -/
def braceProblems (tokens : List Token) : List Diagnostic :=
  (checkBraces tokens).map fun issue =>
    match issue with
    | .unterminated index => Diagnostic.ofProblem .unterminatedBlock (positionAt tokens index)
    | .unmatched index => Diagnostic.ofProblem .unmatchedBrace (positionAt tokens index)

/-- What is wrong with the choice of the scheme: a scheme was asked for that
    does not exist, or the script declares none and none was asked for. -/
def schemeProblems (tokens : List Token) (asked : Option String) : List Diagnostic :=
  let forced := asked.bind Scheme.ofName?
  let unknown := match asked with
    | some name =>
        if forced.isNone then
          [Diagnostic.ofProblem (.unknownScheme name) Position.start]
        else
          []
    | none => []
  let missing :=
    if (detectKeyword tokens).isNone && forced.isNone then
      match tokens.find? Token.isSignificant with
      | some token => [Diagnostic.ofProblem .missingKeyword token.position]
      | none => []
    else
      []
  unknown ++ missing

/-- What is wrong with the names of the sections. -/
def sectionProblems (scheme : Scheme) (blocks : List Section) : List Diagnostic :=
  (blocks.filter fun block => !scheme.grammar.knows block.name).map fun block =>
    Diagnostic.ofProblem (.unknownSection block.name scheme.tag) block.position

/-- The reading of a text. A scheme that is asked for by a known name replaces
    the declared one; a script without either is a function. -/
def parseWith (asked : Option String) (text : String) : Document :=
  let tokens := tokenize text
  let scheme := (asked.bind Scheme.ofName?).getD (declaredScheme tokens)
  let outline := outline tokens ((detectKeyword tokens).map (·.2))
  let symbols := readSymbols scheme.grammar outline.parts
  { scheme := scheme
    header := outline.header
    blocks := outline.sections
    symbols := symbols.table
    diagnostics :=
      wordProblems tokens ++ braceProblems tokens ++ schemeProblems tokens asked ++
        sectionProblems scheme outline.sections ++ symbols.problems
    tokens := tokens }

/-- The reading of a text by the scheme that it declares. -/
def parse (text : String) : Document :=
  parseWith none text

end StackScript
