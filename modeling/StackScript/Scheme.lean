import StackScript.Text.Trim
import StackScript.Token.Basic

/-!
# Schemes

What kind of object a script declares. The scheme fixes which sections the
body of the object may have, and in which of them the lines are typed
declarations.

A script says its scheme with its first word. A script without such a word is
read as the body of a function, so that broken scripts and fragments can be
analysed all the same.

## Main definitions

* `Scheme`: The kinds of objects.
* `Grammar`, `Scheme.grammar`: What the body of an object may hold.
* `Scheme.ofKeyword?`: The scheme that a script's first word declares.
* `Scheme.ofName?`: The scheme that a person names.
* `detectKeyword`, `declaredScheme`: The scheme that a script declares, and where.
-/

namespace StackScript

/-- The kinds of objects a script can declare. -/
inductive Scheme where
  | function
  /-- An API endpoint. -/
  | api
  /-- A database table. -/
  | db
  | task
  | apiGroup
  | tableTrigger
  deriving DecidableEq, Repr

/-- The sections that the body of an object may hold. -/
structure Grammar where
  /-- The section whose lines are typed declarations. -/
  declarationBlock : Option String
  /-- All sections. -/
  sections : List String

namespace Grammar

/-- The section belongs to the grammar. -/
def knows (grammar : Grammar) (name : String) : Bool :=
  grammar.sections.contains name

/-- Objects of this grammar have a stack of statements to execute. -/
def hasStack (grammar : Grammar) : Bool :=
  grammar.knows "stack"

end Grammar

namespace Scheme

/-- Every scheme, in a fixed order. -/
def all : List Scheme :=
  [function, api, db, task, apiGroup, tableTrigger]

/-- The tag under which a scheme is written down and shown. -/
def tag : Scheme → String
  | function => "function"
  | api => "api"
  | db => "db"
  | task => "task"
  | apiGroup => "api_group"
  | tableTrigger => "table_trigger"

/-- The first word of a script of this scheme. -/
def keyword : Scheme → String
  | function => "function"
  | api => "query"
  | db => "table"
  | task => "task"
  | apiGroup => "api_group"
  | tableTrigger => "table_trigger"

/-- The sections of each kind of object. -/
def grammar : Scheme → Grammar
  | function =>
      ⟨some "input",
       ["input", "stack", "response", "test", "history", "cache", "tags", "description"]⟩
  | api =>
      ⟨some "input",
       ["input", "stack", "response", "auth", "middleware", "history", "cache", "tags",
        "description"]⟩
  | db =>
      ⟨some "schema",
       ["schema", "index", "auth", "view", "security", "tags", "description"]⟩
  | task =>
      ⟨none, ["stack", "schedule", "active", "history", "tags", "description"]⟩
  | apiGroup =>
      ⟨none, ["canonical", "swagger", "history", "tags", "description"]⟩
  | tableTrigger =>
      ⟨some "input",
       ["input", "stack", "table", "actions", "datasource", "history", "tags",
        "description"]⟩

/-- The scheme whose scripts begin with this word. -/
def ofKeyword? (word : String) : Option Scheme :=
  all.find? fun scheme => scheme.keyword = word

/-- The scheme written down under this tag. -/
def ofTag? (tag : String) : Option Scheme :=
  all.find? fun scheme => scheme.tag = tag

/-- The scheme that a person names by its tag, by its keyword or as an
    `endpoint`, in letters of either case and with blanks around it. -/
def ofName? (name : String) : Option Scheme :=
  let plain := (Text.onChars Text.trim name).toLower
  if plain = "endpoint" then some api else (ofTag? plain).or (ofKeyword? plain)

/-- Some scheme has its declarations in a section of this name. -/
def declaresIn (name : String) : Bool :=
  all.any fun scheme => scheme.grammar.declarationBlock = some name

/-- Some scheme has a section of this name. -/
def knowsSection (name : String) : Bool :=
  all.any fun scheme => scheme.grammar.knows name

/-- Every scheme is found by its own tag. -/
theorem ofTag?_tag (scheme : Scheme) : ofTag? scheme.tag = some scheme := by
  cases scheme <;> decide

end Scheme

/-- The scheme a token declares if it is the first of a script. -/
def Token.declares? (token : Token) : Option Scheme :=
  if token.kind = .ident then Scheme.ofKeyword? token.text else none

/-- The scheme that a script declares, with the index of the token that does:
    only the first token that is no comment can. -/
def detectKeyword (tokens : List Token) : Option (Scheme × Nat) :=
  match tokens.findIdx? Token.isSignificant with
  | none => none
  | some index => (tokens[index]? >>= Token.declares?).map (·, index)

/-- The scheme of a script by its own declaration; without one it is a
    function. -/
def declaredScheme (tokens : List Token) : Scheme :=
  match detectKeyword tokens with
  | some (scheme, _) => scheme
  | none => .function

end StackScript
