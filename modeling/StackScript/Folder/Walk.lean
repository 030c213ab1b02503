import StackScript.Folder.Tree
import StackScript.Source.Position
import StackScript.Text.Path

/-!
# Walking through a File Tree

A path is followed segment by segment, and every segment but the first has to
find a folder where the ones before have led: `a/../b` leads to `b` only if `a`
is a folder. So a path is never shortened before it is followed. An idle segment
leads nowhere, but it too is refused by a file, which is why a path with a slash
at its end leads to no file.

A name that is too long is refused when its turn comes, a path that is too long
or holds a null character before its first segment.

Of the world outside of the tree nothing is known. A double dot at the top leads
there, and there it is as in a folder in which no name is found.

Making the folders that a path asks for may stop half-way. What has been made
until then stays, so such a change answers with the changed tree, whether it
comes to its end or not.

## Main definitions

* `Location`: Where a path has led.
* `maxNameLength`, `maxPathLength`: How long a name and a path can be.
* `FileTree.follow`: The location that a path leads to.
* `FileTree.readBytes`, `FileTree.readText`: The content of the file at a path.
* `FileTree.makeFolders`: A tree with the folders that a path asks for.
* `FileTree.writeFile`, `FileTree.removeFile`: A tree with a file at a path, or
  without it.
-/

namespace StackScript

/-- Where a path has led. -/
inductive Location where
  /-- To the place in the tree with these names. -/
  | inside (names : List String)
  /-- Out of the tree. -/
  | outside
  deriving DecidableEq, Repr

namespace Location

/-- Where a path begins to be followed. -/
def start (path : String) : Location :=
  if Text.isAbsolute path then outside else inside []

/-- The folder above. -/
def above : Location → Location
  | inside [] => outside
  | inside (name :: names) => inside (name :: names).dropLast
  | outside => outside

end Location

/-- The most bytes that a name can have. -/
def maxNameLength : Nat := 255

/-- The most bytes that a path can have. -/
def maxPathLength : Nat := 4095

/-- A path with these segments is followed at all. -/
def admitPath (pieces : List (List Char)) : Except AccessError Unit :=
  if pieces.any (·.contains '\x00') then
    .error .invalidPath
  else if maxPathLength < (Text.ofPieces pieces).utf8ByteSize then
    .error .tooLong
  else
    .ok ()

namespace FileTree

/-- What is at a location. -/
def lookAt (tree : FileTree) : Location → Except AccessError FileTree
  | .inside names => tree.find names
  | .outside => .ok empty

/-- The location one segment further. -/
def advance (tree : FileTree) (location : Location) (piece : List Char) :
    Except AccessError Location := do
  match ← tree.lookAt location with
  | file _ => .error .notFolder
  | folder entries =>
      if Text.isIdle piece then
        .ok location
      else if Text.isAscent piece then
        .ok location.above
      else if maxNameLength < byteLength piece then
        .error .tooLong
      else
        let name := String.ofList piece
        match location, child? entries name with
        | .inside names, some _ => .ok (.inside (names ++ [name]))
        | _, _ => .error .notFound

/-- The location that some segments lead to. -/
def advanceAll (tree : FileTree) (location : Location) (pieces : List (List Char)) :
    Except AccessError Location :=
  pieces.foldlM tree.advance location

/-- The location that a path leads to. -/
def follow (tree : FileTree) (path : String) : Except AccessError Location := do
  admitPath (Text.pieces path)
  tree.advanceAll (Location.start path) (Text.pieces path)

/-- The location in front of the last segment of a path, and what the last step
    from there comes to. -/
def approach (tree : FileTree) (start : Location) (before : List (List Char))
    (last : List Char) : Except AccessError (Location × Except AccessError Location) := do
  admitPath (before ++ [last])
  let location ← tree.advanceAll start before
  return (location, tree.advance location last)

/-- What is at a path. -/
def at? (tree : FileTree) (path : String) : Except AccessError FileTree :=
  tree.follow path >>= tree.lookAt

/-! ## Reading -/

/-- The bytes of the file at a path. -/
def readBytes (tree : FileTree) (path : String) : Except AccessError ByteArray := do
  match ← tree.at? path with
  | folder _ => .error .isFolder
  | file content => .ok content

/-- The text of the file at a path. -/
def readText (tree : FileTree) (path : String) : Except AccessError String :=
  tree.readBytes path >>= decodeText

/-- A location is a folder. -/
def isFolderAt (tree : FileTree) (location : Location) : Bool :=
  match tree.lookAt location with
  | .ok (folder _) => true
  | _ => false

/-! ## Writing -/

/-- The tree with one more folder, which the segment `last` names behind the
    segments of `before`. It is refused if anything is there already. -/
def makeFolder (tree : FileTree) (start : Location) (before : List (List Char))
    (last : List Char) : Except AccessError FileTree := do
  match ← tree.approach start before last with
  | (_, .ok _) => .error .alreadyExists
  | (.inside names, .error .notFound) => .ok (tree.set empty (names ++ [String.ofList last]))
  | (_, .error cause) => .error cause

/-- The same, but a folder that is there already is as good as a new one. -/
def ensureFolder (tree : FileTree) (start : Location) (before : List (List Char))
    (last : List Char) : Except AccessError FileTree :=
  match tree.makeFolder start before last with
  | .ok made => .ok made
  | .error cause =>
      match tree.advanceAll start (before ++ [last]) with
      | .ok location => if tree.isFolderAt location then .ok tree else .error cause
      | .error _ => .error cause

/-- A tree as a change has left it, and whether the change came to its end. -/
abbrev Changed := FileTree × Except AccessError Unit

/-- A change that does nothing where it is refused. -/
def Changed.ofExcept (tree : FileTree) : Except AccessError FileTree → Changed
  | .ok made => (made, .ok ())
  | .error cause => (tree, .error cause)

/-- The tree with the folder that some segments, the last one first, lead to.
    Only if it cannot be made because the folder above is missing, that one is
    made before. -/
def makeFolders (tree : FileTree) (start : Location) : List (List Char) → Changed
  | [] => (tree, .ok ())
  | last :: before =>
      match tree.ensureFolder start before.reverse last with
      | .error .notFound =>
          match tree.makeFolders start before with
          | (made, .ok ()) => .ofExcept made (made.ensureFolder start before.reverse last)
          | (made, .error cause) => (made, .error cause)
      | made => .ofExcept tree made

/-- The tree with the folder at a path. -/
def withFolder (tree : FileTree) (path : String) : Changed :=
  tree.makeFolders (Location.start path) (Text.segments path).reverse

/-- The tree with the folder that the last segment of a path lies in. -/
def withParent (tree : FileTree) (path : String) : Changed :=
  tree.makeFolders (Location.start path) ((Text.segments path).reverse.drop 1)

/-- The tree with a file at a path, in a folder that is there already. -/
def writeFile (tree : FileTree) (path : String) (content : ByteArray) :
    Except AccessError FileTree := do
  -- a slash behind a name asks for a folder, before it is known what is there
  let asksForFolder := Text.isIdle ((Text.pieces path).getLastD [])
  match (Text.pieces path).reverse.dropWhile (· = []) with
  | [] => .error .isFolder
  | last :: before =>
      match ← tree.approach (Location.start path) before.reverse last with
      | (_, .error .notFolder) => .error .notFolder
      | (location, reached) =>
          if asksForFolder then
            .error .isFolder
          else
            match location, reached with
            | _, .ok .outside => .error .isFolder
            | _, .ok (.inside names) =>
                if tree.isFolderAt (.inside names) then
                  .error .isFolder
                else
                  .ok (tree.set (file content) names)
            | .inside names, .error .notFound =>
                .ok (tree.set (file content) (names ++ [String.ofList last]))
            | _, .error cause => .error cause

/-- The tree with a file at a path, in folders made for it. -/
def withFile (tree : FileTree) (path : String) (content : ByteArray) : Changed :=
  match tree.withParent path with
  | (made, .ok ()) => .ofExcept made (made.writeFile path content)
  | (made, .error cause) => (made, .error cause)

/-- The tree without the file at a path. -/
def removeFile (tree : FileTree) (path : String) : Except AccessError FileTree := do
  match ← tree.follow path with
  | .inside names =>
      match ← tree.find names with
      | folder _ => .error .isFolder
      | file _ => .ok (tree.erase names)
  | .outside => .error .isFolder

end FileTree

end StackScript
