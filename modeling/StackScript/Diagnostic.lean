import StackScript.Source.Position

/-!
# Diagnostics

What is wrong with a script. Reading a script never fails; whatever does not
fit becomes a diagnostic at the place where it stands.

A diagnostic is made from its cause. The severity, the code and the wording
belong to the cause and are fixed here, once.

## Main definitions

* `Severity`: How bad a problem is.
* `Problem`: The causes, with their severities, codes and wordings.
* `Diagnostic`: A problem as it is reported.
-/

namespace StackScript

/-- How bad a problem is. -/
inductive Severity where
  | error
  | warning
  | hint
  deriving DecidableEq, Repr

namespace Severity

/-- Every severity, in a fixed order. -/
def all : List Severity :=
  [error, warning, hint]

/-- The name under which a severity is written down and shown. -/
def name : Severity → String
  | error => "error"
  | warning => "warning"
  | hint => "hint"

end Severity

/-- The causes of diagnostics. -/
inductive Problem where
  /-- An opening brace without a partner. -/
  | unterminatedBlock
  /-- A closing brace without a partner. -/
  | unmatchedBrace
  /-- A quoted text without its closing quote. -/
  | unterminatedString
  /-- A character that begins no word. -/
  | unexpectedCharacter (text : String)
  /-- A script that does not declare its kind of object. -/
  | missingKeyword
  /-- A section that the scheme does not have. -/
  | unknownSection (name scheme : String)
  /-- A scheme was asked for that does not exist. -/
  | unknownScheme (name : String)
  /-- A statement among declarations that declares nothing. -/
  | unrecognizedDeclaration (block : String)
  /-- A name declared before. -/
  | duplicateDeclaration (name : String)
  /-- An enumeration without values. -/
  | enumWithoutValues (name : String)
  deriving DecidableEq, Repr

namespace Problem

/-- Errors break the structure of a script; the rest is suspicious only. -/
def severity : Problem → Severity
  | unterminatedBlock => .error
  | unmatchedBrace => .error
  | unterminatedString => .error
  | unexpectedCharacter _ => .error
  | missingKeyword => .hint
  | unknownSection _ _ => .hint
  | unknownScheme _ => .warning
  | unrecognizedDeclaration _ => .hint
  | duplicateDeclaration _ => .hint
  | enumWithoutValues _ => .warning

/-- The code by which a cause is known. -/
def code : Problem → String
  | unterminatedBlock => "X001"
  | unmatchedBrace => "X002"
  | unterminatedString => "X003"
  | unexpectedCharacter _ => "X004"
  | missingKeyword => "X101"
  | unknownSection _ _ => "X102"
  | unknownScheme _ => "X103"
  | unrecognizedDeclaration _ => "X104"
  | duplicateDeclaration _ => "X105"
  | enumWithoutValues _ => "X106"

/-- The wording of a cause. -/
def message : Problem → String
  | unterminatedBlock => "unterminated block: missing closing '\x7d'"
  | unmatchedBrace => "unmatched '\x7d' with no open block"
  | unterminatedString => "unterminated string literal"
  | unexpectedCharacter text => "unexpected character '" ++ text ++ "'"
  | missingKeyword => "no object keyword found; assuming function"
  | unknownSection name scheme => "unknown section '" ++ name ++ "' for " ++ scheme
  | unknownScheme name => "unknown scheme '" ++ name ++ "'; detecting from content"
  | unrecognizedDeclaration block => "unrecognized declaration in '" ++ block ++ "' block"
  | duplicateDeclaration name =>
      "'" ++ name ++ "' is declared again; the later declaration wins"
  | enumWithoutValues name => "enum '" ++ name ++ "' has no values"

end Problem

/-- A problem as it is reported. -/
structure Diagnostic where
  /-- How bad it is. -/
  severity : Severity
  /-- Where it is. -/
  position : Position
  /-- What it is. -/
  message : String
  /-- The code of its cause. -/
  code : Option String
  deriving DecidableEq, Repr

namespace Diagnostic

/-- A diagnostic in free words. Lines and columns count from one, so a position
    in front of that is moved there. -/
def free (severity : Severity) (position : Position) (message : String)
    (code : Option String) : Diagnostic :=
  ⟨severity, ⟨max position.line 1, max position.column 1⟩, message, code⟩

/-- The report of a problem at a position. -/
def ofProblem (problem : Problem) (position : Position) : Diagnostic :=
  free problem.severity position problem.message (some problem.code)

/-- The report in one line. -/
def display (diagnostic : Diagnostic) : String :=
  let place :=
    toString diagnostic.position.line ++ ":" ++ toString diagnostic.position.column
  let code := match diagnostic.code with
    | some code => "[" ++ code ++ "]"
    | none => ""
  place ++ ": " ++ diagnostic.severity.name ++ code ++ ": " ++ diagnostic.message

end Diagnostic

/-- How many of the diagnostics have a severity. -/
def countSeverity (severity : Severity) (diagnostics : List Diagnostic) : Nat :=
  diagnostics.countP fun diagnostic => diagnostic.severity = severity

/-- Some diagnostic is an error. -/
def hasErrors (diagnostics : List Diagnostic) : Bool :=
  diagnostics.any fun diagnostic => diagnostic.severity = .error

end StackScript
