/-!
# File Trees

A folder with everything below it, as a value: files with their bytes, and
folders with named entries in no particular order. A place in a tree is given
by the names that lead to it from the top.

## Main definitions

* `FileTree`: A file, or a folder with its entries.
* `AccessError`: Why something in a tree cannot be read or written.
* `FileTree.find`: What is at a place.
* `FileTree.set`, `FileTree.erase`: A tree with another content at a place, or
  without it.
* `FileTree.decodeText`: The text of a file.
-/

namespace StackScript

/-- A file, or a folder with its entries. -/
inductive FileTree where
  /-- A file with its bytes. -/
  | file (content : ByteArray)
  /-- A folder with its entries, in any order. -/
  | folder (entries : List (String × FileTree))

/-- Why something in a tree cannot be read or written. -/
inductive AccessError where
  /-- Nothing is there. -/
  | notFound
  /-- The file holds no text. -/
  | invalidData
  /-- A folder is where a file should be. -/
  | isFolder
  /-- A file is where a folder should be. -/
  | notFolder
  /-- Something is where a folder should be made. -/
  | alreadyExists
  /-- A name, or the path as a whole, is longer than it can be. -/
  | tooLong
  /-- A null character is in the path. -/
  | invalidPath
  deriving DecidableEq, Repr

namespace FileTree

/-- The tree without entries. -/
def empty : FileTree := folder []

/-- The entry of a name. -/
def child? (entries : List (String × FileTree)) (name : String) : Option FileTree :=
  (entries.find? fun entry => entry.1 = name).map (·.2)

/-- The entries with the one of a name set, in its place or at the end. -/
def setEntry (name : String) (tree : FileTree) :
    List (String × FileTree) → List (String × FileTree)
  | [] => [(name, tree)]
  | entry :: entries =>
      if entry.1 = name then (name, tree) :: entries else entry :: setEntry name tree entries

/-- What is at a place. -/
def find (tree : FileTree) : List String → Except AccessError FileTree
  | [] => .ok tree
  | name :: names =>
      match tree with
      | file _ => .error .notFolder
      | folder entries =>
          match child? entries name with
          | some below => below.find names
          | none => .error .notFound

/-- The tree with another content at a place. Folders on the way there are made
    if they are missing; a file on the way stays, and so does the tree. -/
def set (tree content : FileTree) : List String → FileTree
  | [] => content
  | name :: names =>
      match tree with
      | file bytes => file bytes
      | folder entries =>
          folder (setEntry name (((child? entries name).getD empty).set content names) entries)

/-- The tree without what is at a place; the top cannot be taken away. -/
def erase (tree : FileTree) : List String → FileTree
  | [] => tree
  | [name] =>
      match tree with
      | file bytes => file bytes
      | folder entries => folder (entries.filter fun entry => entry.1 ≠ name)
  | name :: next :: names =>
      match tree with
      | file bytes => file bytes
      | folder entries =>
          match child? entries name with
          | some below => folder (setEntry name (below.erase (next :: names)) entries)
          | none => folder entries

/-- The text of some bytes in UTF-8. -/
def decodeText (content : ByteArray) : Except AccessError String :=
  match String.fromUTF8? content with
  | some text => .ok text
  | none => .error .invalidData

end FileTree

end StackScript
