import Mathlib.Data.List.Sort
import Mathlib.Data.String.Basic
import StackScript.Proofs.Wire.Basic
import StackScript.Proofs.Workspace.Inventory
import StackScript.Workspace.Snapshot

/-!
# Snapshots Read Back

An index that is built again from its snapshot is the same index. Three things
go into this: the text of the snapshot is read back as the values it was made
from, the objects of an index have different paths already, so that none of them
replaces another when they are gathered for a second time, and every word for a
kind means what it was written for.

The last of these can fail. A kind that is known by its word alone is written as
this word, and should the word mean a known kind, then that is what it will be
read as. So an object comes back with `WorkspaceObject.reread`, and as it was if
its kind was read from a word in the first place.

## Main definitions

* `WorkspaceObject.reread`: An object as it comes back.
* `Snapshot.reread`: A snapshot as it comes back.
* `SamePaths`: Two inventories have the same paths.

## Theorems

* `ofText_text_ofText`: A kind that was read from a word is read again.
* `ofText_toText`: A snapshot as a text is read back.
* `coversPaths_iff`: Comparing the paths of a snapshot and an inventory.
* `ofInventory_latestEntries`: An index of the objects of an index.
* `snapshot_reload`: An index is built again from its snapshot.
-/

namespace StackScript

/-! ## Kinds -/

-- A known kind is what its own word means.
theorem ObjectKind.ofText_text_of_mem_words :
    ∀ entry ∈ ObjectKind.words, ObjectKind.ofText entry.2.text = entry.2 := by
  decide +kernel

/-- A kind that was read from a word is read again from the word that is written
    for it. -/
theorem ObjectKind.ofText_text_ofText (word : String) :
    ofText (ofText word).text = ofText word := by
  cases hfind : words.find? fun entry => entry.1 = word.toLower with
  | some entry =>
      have hword : ofText word = entry.2 := by rw [ofText, hfind]
      rw [hword]
      exact ofText_text_of_mem_words entry (List.mem_of_find?_eq_some hfind)
  | none =>
      have hword : ofText word = other word := by rw [ofText, hfind]
      rw [hword]
      exact hword

/-! ## Objects -/

/-- The object as it comes back when it has been written. -/
def WorkspaceObject.reread (object : WorkspaceObject) : WorkspaceObject :=
  { object with kind := .ofText object.kind.text }

theorem WorkspaceObject.reread_eq {object : WorkspaceObject}
    (h : ∃ word, object.kind = .ofText word) : object.reread = object := by
  rcases h with ⟨word, hword⟩
  rw [reread, hword, ObjectKind.ofText_text_ofText, ← hword]

namespace Wire

/-- An identifier has 64 bits, so it is never too large. -/
theorem identifier_ofNat (id : UInt64) : identifier (some (.ofNat id.toNat)) = some id := by
  have hlimit : id.toNat < largeLimit := id.toNat_lt
  change (Json.natBelow? largeLimit (.ofNat id.toNat)).map Nat.toUInt64 = some id
  rw [Json.natBelow?_ofNat hlimit, Option.map_some]
  exact congrArg some UInt64.ofNat_toNat

theorem required_kind (kind : ObjectKind) :
    required (some (toJson kind)) = some (ObjectKind.ofText kind.text) := by
  change ((Json.ofText kind.text).text?).map ObjectKind.ofText = _
  rw [Json.text?_ofText, Option.map_some]

/-- An object comes back with its kind read again. -/
theorem ofJson?_object (object : WorkspaceObject) :
    ofJson? (toJson object) = some object.reread := by
  change (Json.fields? ["id", "path", "type", "contentHash"] 0 (.record _) >>= _) = _
  rw [Json.fields?_record (by simp)]
  change (do
    return WorkspaceObject.mk (← identifier (some (.ofNat object.id.toNat)))
      (← required (some (toJson object.path))) (← required (some (toJson object.kind)))
      (← required (some (toJson object.contentHash)))) = _
  rw [identifier_ofNat, required_text, required_kind, required_text]
  rfl

theorem ofJson?_objects (objects : List WorkspaceObject) :
    ofJson? (toJson objects) = some (objects.map WorkspaceObject.reread) := by
  have hobject : (ofJson? ∘ toJson) = fun object : WorkspaceObject => pure object.reread :=
    funext ofJson?_object
  change (objects.map toJson).mapM ofJson? = _
  rw [List.mapM_map, hobject, List.mapM_pure]
  rfl

theorem proper_object (object : WorkspaceObject) : (toJson object).Proper := by
  refine Json.proper_record ?_
  simp only [List.forall_mem_cons, List.not_mem_nil, false_implies, implies_true, and_true]
  exact ⟨Json.proper_ofNat _, Json.proper_ofText _, Json.proper_ofText _, Json.proper_ofText _⟩

theorem proper_objects (objects : List WorkspaceObject) : (toJson objects).Proper := by
  refine .array fun item hitem => ?_
  rcases List.mem_map.mp hitem with ⟨object, -, rfl⟩
  exact proper_object object

end Wire

/-! ## Snapshots -/

namespace Snapshot

/-- The snapshot as it comes back when it has been written. -/
def reread (snapshot : Snapshot) : Snapshot :=
  { snapshot with objects := snapshot.objects.map WorkspaceObject.reread }

theorem proper (snapshot : Snapshot) : (Wire.toJson snapshot).Proper := by
  refine Json.proper_record ?_
  simp only [List.forall_mem_cons, List.not_mem_nil, false_implies, implies_true, and_true]
  exact ⟨Json.proper_ofNat _, Wire.proper_objects _⟩

/-- A snapshot comes back with its objects. -/
theorem ofJson?_snapshot {snapshot : Snapshot} (h : snapshot.version < Wire.smallLimit) :
    Wire.ofJson? (Wire.toJson snapshot) = some snapshot.reread := by
  change (Json.fields? ["version", "objects"] 0 (.record _) >>= _) = _
  rw [Json.fields?_record (by simp)]
  change (do
    return Snapshot.mk (← Wire.smallNat (some (.ofNat snapshot.version)))
      (← Wire.required (some (Wire.toJson snapshot.objects)))) = _
  rw [Wire.smallNat_ofNat h]
  change (do return Snapshot.mk snapshot.version (← Wire.ofJson? (Wire.toJson snapshot.objects))) = _
  rw [Wire.ofJson?_objects]
  rfl

theorem map_path_reread (snapshot : Snapshot) :
    snapshot.reread.objects.map WorkspaceObject.path =
      snapshot.objects.map WorkspaceObject.path := by
  rw [reread, List.map_map]
  rfl

/-- The text of a snapshot is read back. -/
theorem decode?_toText {snapshot : Snapshot} (h : snapshot.version < Wire.smallLimit) :
    Wire.decode? snapshot.toText = some snapshot.reread := by
  rw [Wire.decode?, toText, Json.parse?_pretty snapshot.proper]
  exact ofJson?_snapshot h

/-- A text is read as a snapshot if it is one of the version at hand. -/
theorem ofText_eq_ok_iff {text : String} {snapshot : Snapshot} :
    ofText text = .ok snapshot ↔
      Wire.decode? text = some snapshot ∧ snapshot.version = snapshotVersion := by
  rw [ofText]
  cases (Wire.decode? text : Option Snapshot) with
  | none => exact iff_of_false (fun h => nomatch h) fun h => nomatch h.1
  | some found =>
      dsimp only
      rw [checkVersion, Option.some.injEq]
      split
      · next hversion =>
          rw [Except.ok.injEq]
          exact ⟨fun h => ⟨h, h ▸ hversion⟩, fun h => h.1⟩
      · next hversion => exact iff_of_false (fun h => nomatch h) fun h => hversion (h.1 ▸ h.2)

/-- A snapshot of the version at hand is not refused. -/
theorem ofText_toText {snapshot : Snapshot} (h : snapshot.version = snapshotVersion) :
    ofText snapshot.toText = .ok snapshot.reread := by
  have hsmall : snapshot.version < Wire.smallLimit := by
    rw [h]
    decide
  exact ofText_eq_ok_iff.mpr ⟨decode?_toText hsmall, h⟩

end Snapshot

/-! ## Comparing Paths -/

/-- Two inventories have the same paths, in whatever order and however often. -/
def SamePaths (inventory other : List WorkspaceObject) : Prop :=
  ∀ path, path ∈ inventory.map WorkspaceObject.path ↔ path ∈ other.map WorkspaceObject.path

/-- Dropping repeats drops no text altogether. -/
theorem mem_dropRepeats {text : String} {texts : List String} :
    text ∈ dropRepeats texts ↔ text ∈ texts := by
  fun_induction dropRepeats texts with
  | case1 => exact Iff.rfl
  | case2 single => exact Iff.rfl
  | case3 next texts ih => simp [ih]
  | case4 other next texts hne ih => simp [ih]

/-- In order, a text can only be equal to those next to it. -/
theorem pairwise_lt_dropRepeats {texts : List String} (h : texts.Pairwise (· ≤ ·)) :
    (dropRepeats texts).Pairwise (· < ·) := by
  fun_induction dropRepeats texts with
  | case1 => exact List.Pairwise.nil
  | case2 single => exact List.pairwise_singleton _ _
  | case3 next texts ih => exact ih (List.pairwise_cons.mp h).2
  | case4 text next texts hne ih =>
      rw [List.pairwise_cons] at h
      refine List.pairwise_cons.mpr ⟨fun other hother => ?_, ih h.2⟩
      have hnext : text < next := lt_of_le_of_ne (h.1 next List.mem_cons_self) hne
      rcases List.mem_cons.mp (mem_dropRepeats.mp hother) with rfl | hbehind
      · exact hnext
      · exact lt_of_lt_of_le hnext ((List.pairwise_cons.mp h.2).1 other hbehind)

theorem mem_sortedPaths {path : String} {inventory : List WorkspaceObject} :
    path ∈ sortedPaths inventory ↔ path ∈ inventory.map WorkspaceObject.path := by
  rw [sortedPaths, mem_dropRepeats, List.mem_mergeSort]

theorem pairwise_lt_sortedPaths (inventory : List WorkspaceObject) :
    (sortedPaths inventory).Pairwise (· < ·) :=
  pairwise_lt_dropRepeats (List.pairwise_mergeSort' _ _)

/-- In order and without repetitions, paths are the same list if and only if they
    are the same paths. -/
theorem Snapshot.coversPaths_iff {snapshot : Snapshot} {inventory : List WorkspaceObject} :
    snapshot.coversPaths inventory ↔ SamePaths snapshot.objects inventory := by
  rw [coversPaths, decide_eq_true_iff]
  constructor
  · intro hsame path
    rw [← mem_sortedPaths, hsame, mem_sortedPaths]
  · intro hsame
    refine (pairwise_lt_sortedPaths _).eq_of_mem_iff (pairwise_lt_sortedPaths _) fun path => ?_
    rw [mem_sortedPaths, mem_sortedPaths]
    exact hsame path

/-! ## Indexes Built Again -/

namespace Index

theorem objects_snapshot (inventory : List WorkspaceObject) :
    (ofInventory inventory).snapshot.objects = latestEntries inventory :=
  distinctPaths_eq inventory

/-- The objects of an index make up the same index again. -/
theorem ofInventory_latestEntries (inventory : List WorkspaceObject) :
    ofInventory (latestEntries inventory) = ofInventory inventory := by
  simp only [ofInventory, distinctPaths_eq, latestEntries_latestEntries]

/-- An index is built again from its snapshot, which is itself read back from its
    text. So the new index cannot be told from the old one by anything that is
    asked of it. -/
theorem snapshot_reload (inventory : List WorkspaceObject)
    (h : ∀ object ∈ inventory, ∃ word, object.kind = .ofText word) :
    Snapshot.ofText (ofInventory inventory).snapshot.toText =
        .ok (ofInventory inventory).snapshot ∧
      ofSnapshot (ofInventory inventory).snapshot = .ok (ofInventory inventory) := by
  constructor
  · have hreread : (latestEntries inventory).map WorkspaceObject.reread = latestEntries inventory :=
      (List.map_congr_left fun object hobject =>
        WorkspaceObject.reread_eq (h object (mem_of_mem_latestEntries hobject))).trans
        (List.map_id _)
    rw [Snapshot.ofText_toText rfl, Snapshot.reread, objects_snapshot, hreread,
      ← objects_snapshot]
  · change Except.ok (ofInventory (ofInventory inventory).snapshot.objects) = _
    rw [objects_snapshot, ofInventory_latestEntries]

/-- A path comes twice, with another kind, and one kind is known by its word alone. -/
theorem snapshot_reload_words :
    Snapshot.ofText (ofInventory [⟨1, "db/größe.xs", .ofText "DB", "old"⟩,
        ⟨18446744073709551615, "lib/\"a\".xs", .ofText "Widget", "\n"⟩,
        ⟨7, "db/größe.xs", .ofText "Query", "new"⟩]).snapshot.toText =
      .ok ⟨1, [⟨7, "db/größe.xs", .apiEndpoint, "new"⟩,
        ⟨18446744073709551615, "lib/\"a\".xs", .other "Widget", "\n"⟩]⟩ := by
  have hsnapshot : (ofInventory [⟨1, "db/größe.xs", .ofText "DB", "old"⟩,
      ⟨18446744073709551615, "lib/\"a\".xs", .ofText "Widget", "\n"⟩,
      ⟨7, "db/größe.xs", .ofText "Query", "new"⟩]).snapshot =
      ⟨1, [⟨7, "db/größe.xs", .apiEndpoint, "new"⟩,
        ⟨18446744073709551615, "lib/\"a\".xs", .other "Widget", "\n"⟩]⟩ := by
    decide +kernel
  rw [← hsnapshot]
  refine (snapshot_reload _ ?_).1
  simp only [List.forall_mem_cons, List.not_mem_nil, false_implies, implies_true, and_true]
  exact ⟨⟨_, rfl⟩, ⟨_, rfl⟩, ⟨_, rfl⟩⟩

end Index

end StackScript
