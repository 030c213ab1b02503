import StackScript.Text.Trim

/-!
# Paths of Workspace Files

The parts of a path whose segments are separated by slashes: the file name,
the stem in front of its last dot, and the path without that extension. A dot
at the very beginning of a file name starts no extension.

Whether a file is a script is decided by the extension of the last proper
segment; empty segments and single dots are idle and do not count, and a double
dot names no file.

## Main definitions

* `fileName`, `fileStem`, `stripExtension`: The parts of a path.
* `pieces`, `segments`: All segments of a path, and the proper ones.
* `extension`: The extension of the file a path leads to.
* `isScript`: The file is a script.
* `parent`, `join`: The path of a folder, and of an entry in it.
* `tidy`: A path without idle segments at its ends.
-/

namespace StackScript

namespace Text

/-- The file name without its folder. -/
def fileNameChars (path : List Char) : List Char :=
  (path.reverse.takeWhile (· ≠ '/')).reverse

/-- A file name cut at its last dot: what stands before the dot, and the
    extension if there is one. -/
def cutExtension (name : List Char) : List Char × Option (List Char) :=
  let backwards := name.reverse
  match backwards.dropWhile (· ≠ '.') with
  | [] => (name, none)
  | [_] => (name, none)
  | _ :: before => (before.reverse, some (backwards.takeWhile (· ≠ '.')).reverse)

/-- The file name without its last extension. -/
def fileStemChars (path : List Char) : List Char :=
  (cutExtension (fileNameChars path)).1

/-- The path without the extension of its last segment. -/
def stripExtensionChars (path : List Char) : List Char :=
  path.take (path.length - (fileNameChars path).length) ++ fileStemChars path

/-- The file name without its folder. -/
def fileName (path : String) : String :=
  onChars fileNameChars path

/-- The file name without its last extension. -/
def fileStem (path : String) : String :=
  onChars fileStemChars path

/-- The path without the extension of its last segment. -/
def stripExtension (path : String) : String :=
  onChars stripExtensionChars path

/-- The segments of a path, from slash to slash. -/
def pieces (path : String) : List (List Char) :=
  path.toList.splitOn '/'

/-- The path whose segments these are. -/
def ofPieces (pieces : List (List Char)) : String :=
  String.ofList (List.intercalate ['/'] pieces)

/-- A segment that leads nowhere: it is empty or a single dot. -/
def isIdle (piece : List Char) : Bool :=
  piece = [] || piece = ['.']

/-- A segment that leads to the folder above. -/
def isAscent (piece : List Char) : Bool :=
  piece = ['.', '.']

/-- The proper segments of a path, which are not idle. -/
def segments (path : String) : List (List Char) :=
  (pieces path).filter (!isIdle ·)

/-- The extension of the file a path leads to. -/
def extension (path : String) : Option String :=
  match (segments path).getLast? with
  | none => none
  | some name => if isAscent name then none else (cutExtension name).2.map String.ofList

/-- The file is a script: its extension is `xs`. -/
def isScript (path : String) : Bool :=
  extension path = some "xs"

/-- The path begins at a slash, and so outside of any folder that is at hand. -/
def isAbsolute (path : String) : Bool :=
  path.toList.head? = some '/'

/-- Some segments without the idle ones at the end. -/
def dropIdleEnd (pieces : List (List Char)) : List (List Char) :=
  (pieces.reverse.dropWhile isIdle).reverse

/-- The folder that a path lies in, as it is written in the path: everything in
    front of the last proper segment. -/
def parent (path : String) : String :=
  ofPieces (dropIdleEnd (dropIdleEnd (pieces path)).dropLast)

/-- The path of an entry of the folder at a path. -/
def join (folder name : String) : String :=
  if folder = "" || folder.toList.getLast? = some '/' then
    folder ++ name
  else
    folder ++ "/" ++ name

/-- The path without idle segments at its ends. Those between others stay, and a
    path from outside stays as it is. -/
def tidy (path : String) : String :=
  if isAbsolute path then path else ofPieces (dropIdleEnd ((pieces path).dropWhile isIdle))

end Text

end StackScript
