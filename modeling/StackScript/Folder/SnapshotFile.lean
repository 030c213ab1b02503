import StackScript.Folder.Walk
import StackScript.Workspace.Snapshot

/-!
# Snapshots in Files

A snapshot in a file spares taking the inventory again. It is a cache: an
inventory that is at hand always decides what the index holds, and the snapshot
only tells whether it was up to date.

## Main definitions

* `StoreError`: Why a snapshot cannot be read or written.
* `FileTree.writeSnapshot`, `FileTree.readSnapshot`: A snapshot in a file.
* `FileTree.loadOrRebuild`: The index of an inventory, with its source.
-/

namespace StackScript

/-- Why a snapshot cannot be read or written. -/
inductive StoreError where
  /-- The file, or the folder that it lies in, cannot be accessed. -/
  | inaccessible (path : String) (cause : AccessError)
  /-- The content of the file is refused. -/
  | refused (cause : SnapshotError)
  deriving DecidableEq, Repr

/-- What is reported, in the given words for the causes. -/
def StoreError.message (describe : AccessError → String) : StoreError → String
  | inaccessible path cause => "failed to access " ++ path ++ ": " ++ describe cause
  | refused cause => cause.message

/-- Where an index comes from. -/
inductive IndexSource where
  /-- The snapshot was up to date. -/
  | snapshot
  /-- There was no such snapshot. -/
  | rebuilt
  deriving DecidableEq, Repr

namespace FileTree

/-- The tree with the snapshot of an index in the file at a path, in folders
    made for it, which stay even if the file is refused. -/
def writeSnapshot (tree : FileTree) (path : String) (index : Index) :
    FileTree × Except StoreError Unit :=
  match tree.withParent path with
  | (made, .error cause) => (made, .error (.inaccessible (Text.parent path) cause))
  | (made, .ok ()) =>
      match made.writeFile path index.snapshot.toText.toUTF8 with
      | .ok written => (written, .ok ())
      | .error cause => (made, .error (.inaccessible path cause))

/-- The snapshot in the file at a path. -/
def readSnapshot (tree : FileTree) (path : String) : Except StoreError Snapshot :=
  match tree.readText path with
  | .error cause => .error (.inaccessible path cause)
  | .ok text =>
      match Snapshot.ofText text with
      | .ok snapshot => .ok snapshot
      | .error cause => .error (.refused cause)

/-- The index of an inventory, and whether the snapshot in the file at a path
    has the paths of that inventory. -/
def loadOrRebuild (tree : FileTree) (path : String) (inventory : List WorkspaceObject) :
    Index × IndexSource :=
  let source := match tree.readSnapshot path with
    | .ok snapshot => if snapshot.coversPaths inventory then .snapshot else .rebuilt
    | .error _ => .rebuilt
  (Index.ofInventory inventory, source)

end FileTree

end StackScript
