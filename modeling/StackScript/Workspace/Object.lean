import StackScript.Scheme
import StackScript.Text.Path

/-!
# Workspace Objects

The inventory of a workspace lists its files: what kind of object each one
declares, where it lies, and a hash of its content. Kinds are written as words,
of which several may mean the same; a word that means no known kind is kept as
it is.

## Main definitions

* `ObjectKind`: The kinds of objects in an inventory.
* `ObjectKind.ofText`: The kind that a word means.
* `WorkspaceObject`: An entry of an inventory.
-/

namespace StackScript

/-- The kinds of objects in an inventory. -/
inductive ObjectKind where
  | function
  | table
  | apiEndpoint
  | apiGroup
  | task
  | tableTrigger
  /-- A kind of which only the word is known. -/
  | other (word : String)
  deriving DecidableEq, Repr

namespace ObjectKind

/-- The word that is written for a kind. -/
def text : ObjectKind → String
  | function => "function"
  | table => "table"
  | apiEndpoint => "api_endpoint"
  | apiGroup => "api_group"
  | task => "task"
  | tableTrigger => "table_trigger"
  | other word => word

/-- The words for the known kinds. -/
def words : List (String × ObjectKind) :=
  [("function", function), ("table", table), ("db", table), ("api_endpoint", apiEndpoint),
   ("endpoint", apiEndpoint), ("api", apiEndpoint), ("query", apiEndpoint),
   ("api_group", apiGroup), ("task", task), ("table_trigger", tableTrigger),
   ("trigger", tableTrigger)]

/-- The kind that a word means, in ASCII letters of either case. -/
def ofText (word : String) : ObjectKind :=
  match words.find? fun entry => entry.1 = word.toLower with
  | some entry => entry.2
  | none => other word

/-- The kind of object that a script of a scheme declares. -/
def ofScheme : Scheme → ObjectKind
  | .function => function
  | .api => apiEndpoint
  | .db => table
  | .task => task
  | .apiGroup => apiGroup
  | .tableTrigger => tableTrigger

end ObjectKind

/-- An entry of an inventory. -/
structure WorkspaceObject where
  /-- The identifier of the object. -/
  id : UInt64
  /-- Where its file lies, from the root of the workspace, with slashes. -/
  path : String
  /-- What it is. -/
  kind : ObjectKind
  /-- A hash of the content of its file. -/
  contentHash : String
  deriving DecidableEq, Repr

/-- The file name without its extension. -/
def WorkspaceObject.stem (object : WorkspaceObject) : String :=
  Text.fileStem object.path

end StackScript
