import Std.Data.HashMap
import StackScript.OrderedTable
import StackScript.Text.Key
import StackScript.Workspace.Endpoint
import StackScript.Workspace.Object

/-!
# Index of a Workspace

An index answers which objects of an inventory have a given path, file name,
key, endpoint or folder path. It is built once; an object whose path comes
again replaces the earlier one in its place.

Every look-up answers in the order of the inventory. The groups of objects with
the same key are therefore filled from the end of the inventory, each object in
front of those that come after it.

## Main definitions

* `Index`: The tables of an inventory.
* `groupBy`: The objects with a key, by their keys.
* `Index.ofInventory`: The index of an inventory.
* `Index.withStem`, `Index.withKey`, `Index.withEndpoint`, `Index.withFolders`:
  The look-ups.
-/

namespace StackScript

/-- The tables of an inventory. -/
structure Index where
  /-- The objects, in order, with distinct paths. -/
  objects : List WorkspaceObject
  /-- Each object by its path. -/
  byPath : Std.HashMap String WorkspaceObject
  /-- The objects by the stems of their file names. -/
  byStem : Std.HashMap String (List WorkspaceObject)
  /-- The objects by the keys of those stems, where they have one. -/
  byKey : Std.HashMap String (List WorkspaceObject)
  /-- The endpoints by what they answer. -/
  byEndpoint : Std.HashMap Endpoint (List WorkspaceObject)
  /-- Each object with the keys of the segments of its path. -/
  bySegments : List (List String × WorkspaceObject)

/-- The objects that have a key, by their keys, in order. -/
def groupBy {κ : Type} [BEq κ] [Hashable κ] (key : WorkspaceObject → Option κ)
    (objects : List WorkspaceObject) : Std.HashMap κ (List WorkspaceObject) :=
  objects.foldr
    (fun object groups =>
      match key object with
      | some k => groups.alter k fun group => some (object :: group.getD [])
      | none => groups)
    ∅

namespace WorkspaceObject

/-- The key of the file name, if it is not empty. -/
def key? (object : WorkspaceObject) : Option String :=
  let key := Text.nameKey object.stem
  if key = "" then none else some key

/-- What an endpoint answers, by the name of its file. -/
def endpoint? (object : WorkspaceObject) : Option Endpoint :=
  if object.kind = .apiEndpoint then Endpoint.ofFileStem? object.stem else none

/-- The keys of the segments of the path, without the extension. -/
def segmentKeys (object : WorkspaceObject) : List String :=
  Text.keySegments (Text.stripExtension object.path)

end WorkspaceObject

/-- An inventory in which no path comes twice: each has its first place and its
    last entry. -/
def distinctPaths (inventory : List WorkspaceObject) : List WorkspaceObject :=
  (OrderedTable.ofList (inventory.map fun object => (object.path, object))).values

namespace Index

/-- The index of an inventory. -/
def ofInventory (inventory : List WorkspaceObject) : Index :=
  let objects := distinctPaths inventory
  { objects := objects
    byPath := objects.foldl (fun table object => table.insert object.path object) ∅
    byStem := groupBy (fun object => some object.stem) objects
    byKey := groupBy WorkspaceObject.key? objects
    byEndpoint := groupBy WorkspaceObject.endpoint? objects
    bySegments := objects.map fun object => (object.segmentKeys, object) }

/-- The index without objects. -/
def empty : Index :=
  ofInventory []

/-- The number of objects. -/
def size (index : Index) : Nat :=
  index.objects.length

/-- The object with a path. -/
def get? (index : Index) (path : String) : Option WorkspaceObject :=
  index.byPath[path]?

/-- Some object has the path. -/
def contains (index : Index) (path : String) : Bool :=
  index.byPath.contains path

/-- The objects whose file names have a stem. -/
def withStem (index : Index) (stem : String) : List WorkspaceObject :=
  index.byStem.getD stem []

/-- The objects whose file names have a key. -/
def withKey (index : Index) (key : String) : List WorkspaceObject :=
  index.byKey.getD key []

/-- The endpoints that answer a verb on a pattern. -/
def withEndpoint (index : Index) (verb pattern : String) : List WorkspaceObject :=
  match Verb.ofText? verb with
  | some verb => index.byEndpoint.getD ⟨verb, Unicode.lowerText pattern⟩ []
  | none => []

/-- The objects whose paths, as keys, end in some segments. -/
def withFolders (index : Index) (segments : List String) : List WorkspaceObject :=
  if segments = [] then
    []
  else
    (index.bySegments.filter fun entry => segments.isSuffixOf entry.1).map (·.2)

end Index

end StackScript
