import StackScript.Proofs.OrderedTable
import StackScript.Workspace.Index

/-!
# Inventories with Repeated Paths

An inventory may list a file twice. What counts then is the last entry, in the
place of the first, and `latestEntries` says just that, without a table: the
paths in the order in which they first appear, each with the last entry that it
has.

An index keeps its objects in that form, and in that form nothing is replaced
any more. This is why an index that is built from the objects of another one is
the same index.

## Main definitions

* `latest?`: The last entry of a path.
* `latestEntries`: An inventory with the last entry of each path.

## Theorems

* `distinctPaths_eq`: The objects of an index are the latest entries.
* `map_path_latestEntries`: Their paths are those of the inventory.
* `latestEntries_of_nodup`: An inventory without repetitions stays as it is.
-/

namespace StackScript

/-- The last entry of a path. -/
def latest? (inventory : List WorkspaceObject) (path : String) : Option WorkspaceObject :=
  inventory.reverse.find? fun object => object.path = path

/-- The inventory with each path once, in its first place and with its last
    entry. -/
def latestEntries (inventory : List WorkspaceObject) : List WorkspaceObject :=
  (inventory.map WorkspaceObject.path).eraseDups.filterMap (latest? inventory)

/-- An inventory as a list of entries under their paths. -/
def pathEntries (inventory : List WorkspaceObject) : List (String × WorkspaceObject) :=
  inventory.map fun object => (object.path, object)

theorem names_pathEntries (inventory : List WorkspaceObject) :
    (pathEntries inventory).map (·.1) = inventory.map WorkspaceObject.path := by
  rw [pathEntries, List.map_map]
  rfl

theorem find?_pathEntries (inventory : List WorkspaceObject) (path : String) :
    ((pathEntries inventory).reverse.find? fun entry => entry.1 = path).map (·.2) =
      latest? inventory path := by
  rw [pathEntries, ← List.map_reverse, List.find?_map, Option.map_map]
  exact congrFun Option.map_id _

/-- The objects that an index keeps are the latest entries of its inventory. -/
theorem distinctPaths_eq (inventory : List WorkspaceObject) :
    distinctPaths inventory = latestEntries inventory := by
  change (OrderedTable.ofList (pathEntries inventory)).values = latestEntries inventory
  rw [OrderedTable.values_eq (OrderedTable.nodup_names_ofList _), OrderedTable.names_ofList,
    names_pathEntries, latestEntries]
  refine List.filterMap_congr fun path _ => ?_
  rw [OrderedTable.get?_ofList, find?_pathEntries]

theorem of_mem_latest? {inventory : List WorkspaceObject} {path : String}
    {object : WorkspaceObject} (h : object ∈ latest? inventory path) :
    object ∈ inventory ∧ object.path = path := by
  have hpath := List.find?_some (Option.mem_def.mp h)
  exact ⟨List.mem_reverse.mp (List.mem_of_find?_eq_some h), of_decide_eq_true hpath⟩

/-- Every path of an inventory has an entry, so none is lost. -/
theorem map_path_latest? {inventory : List WorkspaceObject} {path : String}
    (h : path ∈ inventory.map WorkspaceObject.path) :
    (latest? inventory path).map WorkspaceObject.path = some path := by
  rcases List.mem_map.mp h with ⟨object, hobject, rfl⟩
  have hsome : (latest? inventory object.path).isSome := by
    rw [latest?, List.find?_isSome]
    exact ⟨object, List.mem_reverse.mpr hobject, decide_eq_true rfl⟩
  rcases Option.isSome_iff_exists.mp hsome with ⟨last, hlast⟩
  rw [hlast, Option.map_some, (of_mem_latest? hlast).2]

/-- The latest entries have the paths of the inventory, each in its first
    place. -/
theorem map_path_latestEntries (inventory : List WorkspaceObject) :
    (latestEntries inventory).map WorkspaceObject.path =
      (inventory.map WorkspaceObject.path).eraseDups := by
  rw [latestEntries, List.map_filterMap,
    List.filterMap_congr fun path hpath => map_path_latest? (List.mem_eraseDups.mp hpath)]
  exact List.filterMap_some

/-- The latest entries have the paths of the inventory. -/
theorem mem_paths_latestEntries {inventory : List WorkspaceObject} {path : String} :
    path ∈ (latestEntries inventory).map WorkspaceObject.path ↔
      path ∈ inventory.map WorkspaceObject.path := by
  rw [map_path_latestEntries, List.mem_eraseDups]

theorem mem_of_mem_latestEntries {inventory : List WorkspaceObject} {object : WorkspaceObject}
    (h : object ∈ latestEntries inventory) : object ∈ inventory := by
  rcases List.mem_filterMap.mp h with ⟨path, -, hlast⟩
  exact (of_mem_latest? hlast).1

theorem nodup_paths_latestEntries (inventory : List WorkspaceObject) :
    ((latestEntries inventory).map WorkspaceObject.path).Nodup := by
  rw [map_path_latestEntries, ← names_pathEntries, ← OrderedTable.names_ofList]
  exact OrderedTable.nodup_names_ofList _

/-- An inventory in which no path comes twice consists of its latest entries. -/
theorem latestEntries_of_nodup {inventory : List WorkspaceObject}
    (h : (inventory.map WorkspaceObject.path).Nodup) : latestEntries inventory = inventory := by
  rw [← distinctPaths_eq]
  change (OrderedTable.ofList (pathEntries inventory)).values = inventory
  rw [OrderedTable.ofList_of_nodup (by rwa [names_pathEntries]), OrderedTable.values, pathEntries,
    List.map_map]
  exact List.map_id _

theorem latestEntries_latestEntries (inventory : List WorkspaceObject) :
    latestEntries (latestEntries inventory) = latestEntries inventory :=
  latestEntries_of_nodup (nodup_paths_latestEntries inventory)

end StackScript
