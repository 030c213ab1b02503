import StackScript.Document
import StackScript.Folder.Walk

/-!
# Scripts in a Folder

Reading single scripts, and finding all scripts below a folder. Hidden files
and folders, whose names begin with a dot, are not searched. The scripts come
in the order of their paths, segment by segment.

## Main definitions

* `LoadError`: Why a script cannot be read.
* `placeBefore`: The order of places in a tree.
* `FileTree.loadScript`: The text of a script.
* `FileTree.collectScripts`: The scripts below a folder.
* `FileTree.analyzeScripts`: The readings of these scripts.
-/

namespace StackScript

/-- Why a script cannot be read. -/
inductive LoadError where
  /-- The file cannot be read. -/
  | unreadable (path : String) (cause : AccessError)
  /-- The file is no script. -/
  | unsupportedExtension (path : String)
  /-- There is no such folder. -/
  | noFolder (path : String)
  deriving DecidableEq, Repr

namespace LoadError

/-- The path that cannot be read. -/
def path : LoadError → String
  | unreadable path _ => path
  | unsupportedExtension path => path
  | noFolder path => path

/-- What is reported, in the given words for the causes. -/
def message (describe : AccessError → String) : LoadError → String
  | unreadable path cause => "failed to read " ++ path ++ ": " ++ describe cause
  | unsupportedExtension path => "unsupported file extension: " ++ path
  | noFolder path => "directory not found: " ++ path

end LoadError

/-- A name comes before another: at the first difference its character is the
    smaller one, or it ends there. -/
def nameBefore (name other : String) : Bool :=
  name.toList.lex other.toList fun c d => c.toNat < d.toNat

/-- A place comes before another: at the first segment that differs its name
    comes first, or it ends there. A slash has no part in the comparison. -/
def placeBefore (place other : List String) : Bool :=
  place.lex other nameBefore

/-- A name of an entry that is not searched. -/
def isHidden (name : String) : Bool :=
  name.toList.head? = some '.'

namespace FileTree

/-- The text of the script at a path. Whether the file is a script is decided
    first, by its name. -/
def loadScript (tree : FileTree) (path : String) : Except LoadError String :=
  if Text.isScript path then
    match tree.readText path with
    | .ok text => .ok text
    | .error cause => .error (.unreadable path cause)
  else
    .error (.unsupportedExtension path)

/-- The reading of the script at a path. -/
def loadDocument (tree : FileTree) (path : String) : Except LoadError Document :=
  (tree.loadScript path).map parse

mutual

/-- The scripts at a place, which has the given path, and below it. -/
def scriptsAt (path : List String) (name : String) :
    FileTree → List (List String × ByteArray)
  | file content => if Text.isScript name then [(path, content)] else []
  | folder entries => scriptsAmong path entries

/-- The scripts among the entries of the folder at a path. -/
def scriptsAmong (path : List String) :
    List (String × FileTree) → List (List String × ByteArray)
  | [] => []
  | (name, tree) :: entries =>
      (if isHidden name then [] else scriptsAt (path ++ [name]) name tree) ++
        scriptsAmong path entries

end

/-- The scripts below the folder at a path, with their places below it and their
    bytes, in the order of their places. -/
def collectScripts (tree : FileTree) (path : String) :
    Except LoadError (List (List String × ByteArray)) :=
  match tree.at? path with
  | .ok (folder entries) =>
      .ok ((scriptsAmong [] entries).mergeSort fun a b => !placeBefore b.1 a.1)
  | _ => .error (.noFolder path)

/-- The readings of the scripts below the folder at a path; files that hold no
    text are left out. -/
def analyzeScripts (tree : FileTree) (path : String) :
    Except LoadError (List (List String × Document)) := do
  let scripts ← tree.collectScripts path
  return scripts.filterMap fun (place, content) =>
    match decodeText content with
    | .ok text => some (place, parse text)
    | .error _ => none

end FileTree

end StackScript
