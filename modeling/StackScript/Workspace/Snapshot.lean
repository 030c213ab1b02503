import StackScript.Wire.Workspace

/-!
# Snapshots of an Inventory

An index can be saved as the inventory that it was built from, with the version
of the rules by which it was built, and built again from that. A snapshot of
another version is refused, because its inventory may have been taken by other
rules.

## Main definitions

* `Snapshot`: An inventory with a version.
* `SnapshotError`: Why a snapshot is refused.
* `Snapshot.toText`, `Snapshot.ofText`: A snapshot as a text and back.
* `sortedPaths`, `Snapshot.coversPaths`: Comparing a snapshot with an inventory.
* `Index.snapshot`, `Index.ofSnapshot`: An index as a snapshot and back.
-/

namespace StackScript

/-- The version of the rules by which an index is built. -/
def snapshotVersion : Nat := 1

/-- An inventory with the version of the rules for its index. -/
structure Snapshot where
  /-- The version. -/
  version : Nat
  /-- The inventory. -/
  objects : List WorkspaceObject
  deriving DecidableEq, Repr

/-- Why a snapshot is refused. -/
inductive SnapshotError where
  /-- The text is not the text of a snapshot. -/
  | malformed
  /-- The snapshot has another version. -/
  | versionMismatch (found : Nat)
  deriving DecidableEq, Repr

/-- What is reported about a refused snapshot. -/
def SnapshotError.message : SnapshotError → String
  | malformed => "invalid snapshot"
  | versionMismatch found =>
      "snapshot version " ++ toString found ++ " does not match expected version " ++
        toString snapshotVersion

instance : Wire Snapshot where
  toJson snapshot := .record
    [("version", .ofNat snapshot.version), ("objects", Wire.toJson snapshot.objects)]
  ofJson? json := do
    match ← json.fields? ["version", "objects"] 0 with
    | [version, objects] => return ⟨← Wire.smallNat version, ← Wire.required objects⟩
    | _ => none

/-- The texts without those that repeat the one in front of them. -/
def dropRepeats : List String → List String
  | [] => []
  | [text] => [text]
  | text :: next :: texts =>
      if text = next then dropRepeats (next :: texts) else text :: dropRepeats (next :: texts)

/-- The paths of an inventory in order, each of them once. -/
def sortedPaths (inventory : List WorkspaceObject) : List String :=
  dropRepeats ((inventory.map WorkspaceObject.path).mergeSort fun a b => a ≤ b)

namespace Snapshot

/-- The snapshot, unless it has another version. -/
def checkVersion (snapshot : Snapshot) : Except SnapshotError Snapshot :=
  if snapshot.version = snapshotVersion then
    .ok snapshot
  else
    .error (.versionMismatch snapshot.version)

/-- The snapshot as a text over several lines. -/
def toText (snapshot : Snapshot) : String :=
  (Wire.toJson snapshot).pretty

/-- The snapshot that a text writes. -/
def ofText (text : String) : Except SnapshotError Snapshot :=
  match Wire.decode? text with
  | some snapshot => checkVersion snapshot
  | none => .error .malformed

/-- The snapshot has the same paths as an inventory, in whatever order and however
    often. -/
def coversPaths (snapshot : Snapshot) (inventory : List WorkspaceObject) : Bool :=
  sortedPaths snapshot.objects = sortedPaths inventory

end Snapshot

namespace Index

/-- The snapshot of an index. -/
def snapshot (index : Index) : Snapshot :=
  ⟨snapshotVersion, index.objects⟩

/-- The index of a snapshot. -/
def ofSnapshot (snapshot : Snapshot) : Except SnapshotError Index := do
  let checked ← snapshot.checkVersion
  return ofInventory checked.objects

end Index

end StackScript
