import StackScript.Folder.SnapshotFile
import StackScript.Proofs.Folder.Walk
import StackScript.Proofs.Workspace.Snapshot

/-!
# The Snapshot File Is a Cache

Whatever is at the path of a snapshot file, the index is that of the inventory at
hand. The file only decides what is reported about it: it was up to date if it can
be read and has the paths of the inventory. A file that was just written can be
read, and its snapshot has the paths of the index that it was written for, even if
a kind of it does not come back as it was.

## Theorems

* `readSnapshot_eq_ok_iff`: When a snapshot file can be read.
* `readSnapshot_writeSnapshot`: A snapshot file that was written can be read.
* `snapshotFile_isCache`: The index and its source, for every content of the file.
-/

namespace StackScript

namespace FileTree

variable {tree written : FileTree} {path : String} {snapshot : Snapshot}
  {inventory : List WorkspaceObject} {index : Index}

/-- A text that is there is read as a snapshot. -/
theorem readSnapshot_of_readText {text : String} (h : tree.readText path = .ok text) :
    tree.readSnapshot path = .ok snapshot ↔ Snapshot.ofText text = .ok snapshot := by
  rw [readSnapshot, h]
  dsimp only
  cases Snapshot.ofText text with
  | ok found => rw [Except.ok.injEq, Except.ok.injEq]
  | error cause => exact iff_of_false (fun h => nomatch h) fun h => nomatch h

/-- A snapshot file can be read if it holds the text of a snapshot of the version
    at hand. -/
theorem readSnapshot_eq_ok_iff :
    tree.readSnapshot path = .ok snapshot ↔
      ∃ text, tree.readText path = .ok text ∧ Wire.decode? text = some snapshot ∧
        snapshot.version = snapshotVersion := by
  cases htext : tree.readText path with
  | error cause =>
      rw [readSnapshot, htext]
      exact iff_of_false (fun h => nomatch h) fun ⟨_, h, _⟩ => nomatch h
  | ok text =>
      rw [readSnapshot_of_readText htext, Snapshot.ofText_eq_ok_iff]
      constructor
      · exact fun h => ⟨text, rfl, h⟩
      · rintro ⟨_, hsame, h⟩
        cases hsame
        exact h

/-- The file counts if a snapshot can be read from it that has the paths of the inventory. -/
theorem source_loadOrRebuild :
    (tree.loadOrRebuild path inventory).2 = .snapshot ↔
      ∃ snapshot, tree.readSnapshot path = .ok snapshot ∧
        SamePaths snapshot.objects inventory := by
  rw [loadOrRebuild]
  cases tree.readSnapshot path with
  | error cause => exact iff_of_false (fun h => nomatch h) fun ⟨_, h, _⟩ => nomatch h
  | ok found =>
      dsimp only
      split
      · next hcovers =>
          exact ⟨fun _ => ⟨found, rfl, Snapshot.coversPaths_iff.mp hcovers⟩, fun _ => rfl⟩
      · next hcovers =>
          refine iff_of_false (fun h => nomatch h) fun ⟨snapshot, hfound, hsame⟩ => ?_
          cases hfound
          exact hcovers (Snapshot.coversPaths_iff.mpr hsame)

/-- The file is written last, in a tree with its folder. -/
theorem readText_writeSnapshot (h : (tree.writeSnapshot path index).2 = .ok ()) :
    (tree.writeSnapshot path index).1.readText path = .ok index.snapshot.toText := by
  rw [writeSnapshot] at h ⊢
  split at h
  · cases h
  · next made _ =>
      cases hwritten : made.writeFile path index.snapshot.toText.toUTF8 with
      | ok written => exact readText_writeFile hwritten
      | error cause =>
          rw [hwritten] at h
          cases h

/-- A snapshot file that was written can be read. -/
theorem readSnapshot_writeSnapshot (h : (tree.writeSnapshot path index).2 = .ok ()) :
    (tree.writeSnapshot path index).1.readSnapshot path = .ok index.snapshot.reread :=
  (readSnapshot_of_readText (readText_writeSnapshot h)).mpr (Snapshot.ofText_toText rfl)

-- Writing a snapshot and reading it again keeps the paths.
theorem samePaths_snapshot (inventory other : List WorkspaceObject) :
    SamePaths (Index.ofInventory inventory).snapshot.reread.objects other ↔
      SamePaths inventory other := by
  rw [SamePaths, Snapshot.map_path_reread, Index.objects_snapshot]
  exact forall_congr' fun path => by rw [mem_paths_latestEntries]

/-- The index is that of the inventory, whatever is at the path of the snapshot
    file. The file is reported as its source if and only if it can be read as a
    snapshot of the version at hand and has the paths of the inventory. So a file
    that was written for one inventory is reported for another one if and only if
    both have the same paths. -/
theorem snapshotFile_isCache :
    (∀ (tree : FileTree) (path : String) (inventory : List WorkspaceObject),
      (tree.loadOrRebuild path inventory).1 = Index.ofInventory inventory ∧
        ((tree.loadOrRebuild path inventory).2 = .snapshot ↔
          ∃ (text : String) (snapshot : Snapshot), tree.readText path = .ok text ∧
            Wire.decode? text = some snapshot ∧ snapshot.version = 1 ∧
            SamePaths snapshot.objects inventory)) ∧
    ∀ (tree : FileTree) (path : String) (inventory other : List WorkspaceObject),
      (tree.writeSnapshot path (Index.ofInventory inventory)).2 = .ok () →
        (((tree.writeSnapshot path (Index.ofInventory inventory)).1.loadOrRebuild path other).2 =
          .snapshot ↔ SamePaths inventory other) := by
  constructor
  · intro tree path inventory
    refine ⟨rfl, source_loadOrRebuild.trans ?_⟩
    constructor
    · rintro ⟨snapshot, hread, hsame⟩
      rcases readSnapshot_eq_ok_iff.mp hread with ⟨text, htext, hdecode, hversion⟩
      exact ⟨text, snapshot, htext, hdecode, hversion, hsame⟩
    · rintro ⟨text, snapshot, htext, hdecode, hversion, hsame⟩
      exact ⟨snapshot, readSnapshot_eq_ok_iff.mpr ⟨text, htext, hdecode, hversion⟩, hsame⟩
  · intro tree path inventory other hwritten
    -- What has been written is what is read.
    rw [source_loadOrRebuild, readSnapshot_writeSnapshot hwritten, ← samePaths_snapshot]
    constructor
    · rintro ⟨snapshot, hsnapshot, hsame⟩
      cases hsnapshot
      exact hsame
    · exact fun hsame => ⟨_, rfl, hsame⟩

/-- The file is made for two objects and used for the same paths in another order, one of
    them twice, with other identifiers, kinds and hashes. -/
theorem snapshotFile_reused :
    ((empty.writeSnapshot "cache/index.json" (Index.ofInventory
        [⟨1, "db/user.xs", .table, "a"⟩, ⟨2, "lib/größe.xs", .other "table", "b"⟩])).1.loadOrRebuild
      "cache/index.json"
        [⟨8, "lib/größe.xs", .function, "c"⟩, ⟨9, "db/user.xs", .task, ""⟩,
          ⟨1, "lib/größe.xs", .function, "d"⟩]).2 = .snapshot := by
  refine (snapshotFile_isCache.2 _ _ _ _ ?_).mpr ?_
  · decide +kernel
  · intro path
    simp only [List.map_cons, List.map_nil, List.mem_cons, List.not_mem_nil, or_false]
    tauto

end FileTree

end StackScript
