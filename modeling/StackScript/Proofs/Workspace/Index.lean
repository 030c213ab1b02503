import StackScript.Proofs.Workspace.Endpoint
import StackScript.Proofs.Workspace.Inventory

/-!
# An Index Answers Like a Scan

Whoever has no index looks through the inventory from its beginning to its end
and takes down what fits. An index gives the same answers without looking: the
same objects in the same order, for every inventory.

The tables of an index are filled in one go from objects whose paths are all
different, so a group is described by one induction, `getD_groupBy`, whatever
the key is. What remains for each look-up is to say in plain words which objects
have the key that it asks for.

## Main definitions

* `WorkspaceObject.Answers`: The object is an endpoint of a verb and a pattern.
* `Index.ScansLike`: The answers of an index are those of a scan.

## Theorems

* `getD_groupBy`: The objects with a key.
* `get?_ofInventory`: The object with a path.
* `withEndpoint_ofInventory`: The endpoints of a verb and a pattern.
* `ofInventory_scansLike`: An index answers like a scan of the latest entries.
-/

namespace StackScript

/-- The objects of a group are those that have its key, in order. -/
theorem getD_groupBy {κ : Type} [BEq κ] [LawfulBEq κ] [Hashable κ] [DecidableEq κ]
    (key : WorkspaceObject → Option κ) (objects : List WorkspaceObject) (k : κ) :
    (groupBy key objects).getD k [] = objects.filter fun object => key object = some k := by
  induction objects with
  | nil => exact Std.HashMap.getD_empty
  | cons object objects ih =>
      rw [groupBy, List.foldr_cons, ← groupBy]
      cases hkey : key object with
      | none =>
          dsimp only
          rw [List.filter_cons_of_neg (by simp [hkey]), ih]
      | some found =>
          dsimp only
          rw [Std.HashMap.getD_alter]
          -- The new object goes in front of its group and leaves the other groups alone.
          by_cases hfound : found = k
          · rw [if_pos (beq_iff_eq.mpr hfound), List.filter_cons_of_pos (by simp [hkey, hfound]),
              Option.getD_some, hfound, ← Std.HashMap.getD_eq_getD_getElem?, ih]
          · rw [if_neg (mt beq_iff_eq.mp hfound),
              List.filter_cons_of_neg (by simpa [hkey] using hfound), ih]

/-- Of objects with different paths it does not matter which is looked at first. -/
theorem getElem?_foldl_insert {objects : List WorkspaceObject}
    (h : (objects.map WorkspaceObject.path).Nodup)
    (table : Std.HashMap String WorkspaceObject) (path : String) :
    (objects.foldl (fun table object => table.insert object.path object) table)[path]? =
      (objects.find? fun object => object.path = path).or table[path]? := by
  induction objects generalizing table with
  | nil => rfl
  | cons object objects ih =>
      rw [List.map_cons, List.nodup_cons] at h
      rw [List.foldl_cons, ih h.2, Std.HashMap.getElem?_insert]
      by_cases hpath : object.path = path
      · -- No later object has this path, so the value stays.
        have hothers : objects.find? (fun object => object.path = path) = none := by
          rw [List.find?_eq_none]
          exact fun other hother hsame =>
            name_ne_of_notMem h.1 hother ((of_decide_eq_true hsame).trans hpath.symm)
        rw [if_pos (beq_iff_eq.mpr hpath), List.find?_cons_of_pos (by simp [hpath]), hothers]
        rfl
      · rw [if_neg (mt beq_iff_eq.mp hpath), List.find?_cons_of_neg (by simpa using hpath)]

namespace WorkspaceObject

/-- The object is an endpoint, and its file name spells the pattern and the
    verb, each in whatever case it is asked for. -/
def Answers (object : WorkspaceObject) (verb pattern : String) : Prop :=
  object.kind = .apiEndpoint ∧ ∃ canonical ∈ Verb.ofText? verb,
    Endpoint.IsSpelledBy object.stem ⟨canonical, Unicode.lowerText pattern⟩

instance (object : WorkspaceObject) (verb pattern : String) :
    Decidable (object.Answers verb pattern) :=
  inferInstanceAs (Decidable (_ ∧ _))

/-- An object has a key if its name has a letter or a digit. -/
theorem key?_eq_some_iff {object : WorkspaceObject} {key : String} :
    object.key? = some key ↔ key ≠ "" ∧ Text.nameKey object.stem = key := by
  unfold key?
  dsimp only
  split
  · next hnone =>
    rw [hnone]
    exact ⟨nofun, fun h => absurd h.2.symm h.1⟩
  · next hsome =>
    rw [Option.some.injEq]
    exact ⟨fun h => ⟨h ▸ hsome, h⟩, And.right⟩

/-- An object has an endpoint if it is one by its kind and its name. -/
theorem endpoint?_eq_some_iff {object : WorkspaceObject} {endpoint : Endpoint} :
    object.endpoint? = some endpoint ↔
      object.kind = .apiEndpoint ∧ endpoint.IsSpelledBy object.stem := by
  unfold endpoint?
  split
  · next hkind => rw [Endpoint.ofFileStem?_eq_some_iff, and_iff_right hkind]
  · next hkind => exact ⟨nofun, fun h => absurd h.1 hkind⟩

end WorkspaceObject

namespace Index

variable (inventory : List WorkspaceObject)

theorem objects_ofInventory : (ofInventory inventory).objects = latestEntries inventory :=
  distinctPaths_eq inventory

/-- Each look-up is a filter of the entries. -/
theorem get?_ofInventory (path : String) :
    (ofInventory inventory).get? path =
      (latestEntries inventory).find? fun object => object.path = path := by
  rw [get?, ofInventory, distinctPaths_eq]
  dsimp only
  rw [getElem?_foldl_insert (nodup_paths_latestEntries inventory), Std.HashMap.getElem?_empty,
    Option.or_none]

theorem withStem_ofInventory (stem : String) :
    (ofInventory inventory).withStem stem =
      (latestEntries inventory).filter fun object => object.stem = stem := by
  rw [withStem, ofInventory, distinctPaths_eq]
  dsimp only
  rw [getD_groupBy]
  simp only [Option.some.injEq]

theorem withKey_ofInventory {key : String} (h : key ≠ "") :
    (ofInventory inventory).withKey key =
      (latestEntries inventory).filter fun object => Text.nameKey object.stem = key := by
  rw [withKey, ofInventory, distinctPaths_eq]
  dsimp only
  rw [getD_groupBy]
  simp only [WorkspaceObject.key?_eq_some_iff, ne_eq, h, not_false_eq_true, true_and]

theorem withEndpoint_ofInventory (verb pattern : String) :
    (ofInventory inventory).withEndpoint verb pattern =
      (latestEntries inventory).filter fun object => object.Answers verb pattern := by
  unfold withEndpoint
  cases hverb : Verb.ofText? verb with
  | none =>
      simp [WorkspaceObject.Answers, hverb]
  | some canonical =>
      rw [ofInventory, distinctPaths_eq]
      dsimp only
      rw [getD_groupBy]
      simp [WorkspaceObject.Answers, hverb, WorkspaceObject.endpoint?_eq_some_iff]

theorem withFolders_ofInventory {segments : List String} (h : segments ≠ []) :
    (ofInventory inventory).withFolders segments =
      (latestEntries inventory).filter fun object => segments <:+ object.segmentKeys := by
  rw [withFolders, if_neg h, ofInventory, distinctPaths_eq]
  dsimp only
  have hobject : (Prod.snd ∘ fun object : WorkspaceObject => (object.segmentKeys, object)) = id :=
    rfl
  rw [List.filter_map, List.map_map, hobject, List.map_id]
  refine List.filter_congr fun object _ => ?_
  rw [Bool.eq_iff_iff, decide_eq_true_eq, Function.comp_apply, List.isSuffixOf_iff_suffix]

/-- The answers of the index are those of a scan of the objects: each look-up
    gives what it asks for, in their order. No two of them have one path. -/
structure ScansLike (index : Index) (objects : List WorkspaceObject) : Prop where
  /-- The index has these objects. -/
  objects_eq : index.objects = objects
  /-- Their paths are different. -/
  nodup_paths : (objects.map WorkspaceObject.path).Nodup
  /-- The object with a path. -/
  get?_eq : ∀ path, index.get? path = objects.find? fun object => object.path = path
  /-- The objects whose file names have a stem. -/
  withStem_eq : ∀ stem, index.withStem stem = objects.filter fun object => object.stem = stem
  /-- The objects whose stems have a key. -/
  withKey_eq : ∀ key, key ≠ "" →
    index.withKey key = objects.filter fun object => Text.nameKey object.stem = key
  /-- The endpoints of a verb and a pattern. -/
  withEndpoint_eq : ∀ verb pattern,
    index.withEndpoint verb pattern = objects.filter fun object => object.Answers verb pattern
  /-- The objects whose paths, as keys, end in some segments. -/
  withFolders_eq : ∀ segments, segments ≠ [] →
    index.withFolders segments = objects.filter fun object => segments <:+ object.segmentKeys

/-- An index answers like a scan of the latest entries of its inventory. -/
theorem ofInventory_scansLike : (ofInventory inventory).ScansLike (latestEntries inventory) where
  objects_eq := objects_ofInventory inventory
  nodup_paths := nodup_paths_latestEntries inventory
  get?_eq := get?_ofInventory inventory
  withStem_eq := withStem_ofInventory inventory
  withKey_eq _ := withKey_ofInventory inventory
  withEndpoint_eq := withEndpoint_ofInventory inventory
  withFolders_eq _ := withFolders_ofInventory inventory

end Index

end StackScript
