import StackScript.Proofs.Text.Key
import StackScript.Proofs.Workspace.Reference

/-!
# Names with Folders

An object may be given by its name alone, or by its name and some of the folders
that it lies in, as they stand in front of the name in its path. A bare name is
looked up among the keys of the stems, and a name with folders among the ends of
the paths.

The two agree as long as a path, as keys, ends with the key of its file. Then a
name is borne by the objects whose paths end with it, whether it has folders or
not, `bears_iff_suffix`, and more folders in front of a name can only leave
objects out.

A file whose name has neither a letter nor a digit has no key, and this is where
the agreement ends. Its path, as keys, is that of its folder. So a look-up by
folders takes the folder for the file, while a look-up by key never finds it.
Which objects are found under some keys is therefore said in two ways, by their
files or by their folders, and these exclude one another.

## Main definitions

* `WorkspaceObject.folderKeys`: The keys of the folders that an object lies in.
* `WorkspaceObject.IsGivenByFile`: Some keys end with that of the file.
* `WorkspaceObject.IsGivenByFolder`: Some keys are those of the folder of a file
  without a key.
* `IsTailOf`: An end of a path, from a folder or the file name on.
* `Resolution.offered`: The objects that a name may mean.

## Theorems

* `segmentKeys_eq`: The keys of a path are those of its folder and of its file.
* `bears_iff_suffix`: A name is borne by the objects whose paths end with it.
* `suffix_segmentKeys_iff`: When the keys of a path end in some keys.
* `resolveNamed_byFolders`: An object is found under its name and its folders.
* `withFolders_byFileOrFolder`: The objects whose paths end in the keys of a text.
-/

namespace StackScript

/-! ## The keys of a path -/

-- A list ends in a single element if that is its last one.
theorem singleton_suffix_iff {α : Type} {values : List α} {value : α} :
    [value] <:+ values ↔ values.getLast? = some value := by
  rw [List.getLast?_eq_some_iff]
  exact exists_congr fun front => eq_comm

namespace WorkspaceObject

/-- The keys of the folders that the object lies in. -/
def folderKeys (object : WorkspaceObject) : List String :=
  Text.keySegments (Text.folder object.path)

/-- The keys are those of some folders that the object lies in, from any of them
    on, and behind them that of its file. -/
def IsGivenByFile (object : WorkspaceObject) (keys : List String) : Prop :=
  ∃ folders, keys = folders ++ [Text.nameKey object.stem] ∧ folders <:+ object.folderKeys

/-- The file of the object has no key, and the keys are those of some folders that
    it lies in, from any of them on. -/
structure IsGivenByFolder (object : WorkspaceObject) (keys : List String) : Prop where
  /-- The file has no key. -/
  noKey : Text.nameKey object.stem = ""
  /-- There are keys. -/
  ne_nil : keys ≠ []
  /-- They are those of the last folders. -/
  suffix : keys <:+ object.folderKeys

variable {object : WorkspaceObject} {keys : List String}

/-- The keys of a path are those of its folder and that of its file, if there is
    one. -/
theorem segmentKeys_eq (object : WorkspaceObject) :
    object.segmentKeys = object.folderKeys ++ [Text.nameKey object.stem].filter (· ≠ "") := by
  rw [segmentKeys, Text.stripExtension_eq, Text.keySegments_folder_append,
    Text.keySegments_of_notMem (Text.slash_notMem_fileStem _)]
  rfl

/-- The keys of a path end with that of the file, if it has one. -/
theorem segmentKeys_of_key (h : Text.nameKey object.stem ≠ "") :
    object.segmentKeys = object.folderKeys ++ [Text.nameKey object.stem] := by
  rw [segmentKeys_eq, List.filter_cons_of_pos (by simpa using h), List.filter_nil]

theorem segmentKeys_of_noKey (h : Text.nameKey object.stem = "") :
    object.segmentKeys = object.folderKeys := by
  rw [segmentKeys_eq, List.filter_cons_of_neg (by simpa using h), List.filter_nil, List.append_nil]

/-- The keys of a path end in some keys if these are given by the file or, for
    want of its key, by the folder. -/
theorem suffix_segmentKeys_iff (hne : keys ≠ []) (hkeys : ∀ key ∈ keys, key ≠ "") :
    keys <:+ object.segmentKeys ↔ object.IsGivenByFile keys ∨ object.IsGivenByFolder keys := by
  by_cases hstem : Text.nameKey object.stem = ""
  · rw [segmentKeys_of_noKey hstem]
    constructor
    · exact fun hsuffix => Or.inr ⟨hstem, hne, hsuffix⟩
    · rintro (⟨folders, rfl, -⟩ | hfolder)
      · exact absurd hstem (hkeys _ (List.mem_append_right _ (List.mem_singleton_self _)))
      · exact hfolder.suffix
  · rw [segmentKeys_of_key hstem, List.suffix_concat_iff]
    constructor
    · exact fun h => Or.inl (h.resolve_left hne)
    · exact fun h => Or.inr (h.resolve_right fun hfolder => hstem hfolder.noKey)

/-- One key alone is that of the file. -/
theorem isGivenByFile_singleton {key : String} :
    object.IsGivenByFile [key] ↔ Text.nameKey object.stem = key := by
  constructor
  · rintro ⟨folders, hkey, -⟩
    have hlast := congrArg List.getLast? hkey
    rw [List.getLast?_concat, List.getLast?_singleton] at hlast
    exact (Option.some.inj hlast).symm
  · rintro rfl
    exact ⟨[], rfl, List.nil_suffix⟩

/-- A name is borne by the objects whose paths end with it, if their files have
    keys. -/
theorem bears_iff_suffix (h : Text.nameKey object.stem ≠ "") (name : String) :
    object.Bears name ↔
      Text.keySegments name ≠ [] ∧ Text.keySegments name <:+ object.segmentKeys := by
  match hname : Text.keySegments name with
  | [] =>
      exact ⟨fun hbears => absurd hbears (not_bears hname), fun hsuffix => absurd rfl hsuffix.1⟩
  | [key] =>
      rw [bears_bare hname, and_iff_right (List.cons_ne_nil _ _), segmentKeys_of_key h,
        singleton_suffix_iff, List.getLast?_concat, Option.some.injEq]
  | first :: second :: others =>
      rw [bears_folders hname, and_iff_right (List.cons_ne_nil _ _)]

end WorkspaceObject

/-! ## Reaching an object -/

/-- The text is an end of the path, without the extension, from one of its
    folders or from the file name on. -/
def IsTailOf (tail path : String) : Prop :=
  Text.stripExtension path = tail ∨ ∃ front, Text.stripExtension path = front ++ "/" ++ tail

/-- A tail of a path ends with the name of the file. -/
theorem IsTailOf.fileName_eq {tail path : String} (h : IsTailOf tail path) :
    Text.fileName tail = Text.fileStem path := by
  rw [← Text.fileName_stripExtension]
  rcases h with htail | ⟨front, htail⟩
  · rw [htail]
  · rw [htail, Text.fileName_slash]

theorem IsTailOf.suffix_segmentKeys {tail : String} {object : WorkspaceObject}
    (h : IsTailOf tail object.path) : Text.keySegments tail <:+ object.segmentKeys := by
  rw [WorkspaceObject.segmentKeys]
  rcases h with rfl | ⟨front, htail⟩
  · exact List.suffix_rfl
  · rw [htail, Text.keySegments_slash]
    exact List.suffix_append _ _

theorem keySegments_ne_nil {name : String} (h : Text.nameKey (Text.fileName name) ≠ "") :
    Text.keySegments name ≠ [] := by
  intro hnil
  have hlast := Text.getLast?_keySegments h
  rw [hnil, List.getLast?_nil] at hlast
  cases hlast

/-- An object bears every end of its path. -/
theorem IsTailOf.bears {tail : String} {object : WorkspaceObject} (h : IsTailOf tail object.path)
    (hstem : Text.nameKey object.stem ≠ "") : object.Bears tail := by
  rw [WorkspaceObject.bears_iff_suffix hstem]
  refine ⟨keySegments_ne_nil ?_, h.suffix_segmentKeys⟩
  rwa [h.fileName_eq]

/-- An object that bears a name with folders bears it without them. -/
theorem WorkspaceObject.Bears.of_slash {object : WorkspaceObject} {folders name : String}
    (h : object.Bears (folders ++ "/" ++ name)) (hstem : Text.nameKey object.stem ≠ "")
    (hname : Text.keySegments name ≠ []) : object.Bears name := by
  rw [bears_iff_suffix hstem, Text.keySegments_slash] at h
  rw [bears_iff_suffix hstem]
  exact ⟨hname, (List.suffix_append _ _).trans h.2⟩

/-- The library has this for filters that are related on all values, and keys are known only
    for the objects of the inventory. -/
theorem filter_sublist_filter {α : Type} {values : List α} {p q : α → Bool}
    (h : ∀ value ∈ values, p value = true → q value = true) :
    (values.filter p).Sublist (values.filter q) := by
  have hboth : ∀ value ∈ values, p value = (p value && q value) := by
    intro value hvalue
    rw [Bool.eq_iff_iff, Bool.and_eq_true, iff_self_and]
    exact h value hvalue
  rw [List.filter_congr hboth, ← List.filter_filter]
  exact List.filter_sublist

namespace Resolution

/-- The objects that a name may mean: the one that was found, or all those of which
    none is preferred. -/
def offered : Resolution → List WorkspaceObject
  | found object => [object]
  | ambiguous objects => objects
  | notFound => []

/-- All candidates are offered, one or several. -/
theorem offered_ofCandidates (candidates : List WorkspaceObject) :
    (ofCandidates candidates).offered = candidates := by
  match candidates with
  | [] => rfl
  | [_] => rfl
  | _ :: _ :: _ => rfl

end Resolution

namespace Index

variable {inventory : List WorkspaceObject}

/-- What is offered for a name is a filter of the entries. -/
theorem offered_resolveNamed (inventory : List WorkspaceObject) (name : String)
    (kind : ObjectKind) :
    ((ofInventory inventory).resolveNamed name kind).offered =
      (latestEntries inventory).filter fun object => object.kind = kind && object.Bears name := by
  rw [resolveNamed_ofInventory, Resolution.offered_ofCandidates]

/-- If all files have keys, an object is found under every end of its path, from
    the bare name to the whole, and more folders in front of a name add nothing to
    what it may mean. -/
theorem resolveNamed_byFolders
    (h : ∀ object ∈ latestEntries inventory, Text.nameKey object.stem ≠ "") :
    let index := ofInventory inventory
    (∀ object ∈ latestEntries inventory, ∀ tail, IsTailOf tail object.path →
      object ∈ (index.resolveNamed tail object.kind).offered) ∧
    ∀ name folders kind, Text.nameKey (Text.fileName name) ≠ "" →
      (index.resolveNamed (folders ++ "/" ++ name) kind).offered.Sublist
        (index.resolveNamed name kind).offered := by
  intro index
  refine ⟨fun object hobject tail htail => ?_, fun name folders kind hname => ?_⟩
  · rw [offered_resolveNamed, List.mem_filter, decide_eq_true rfl, Bool.true_and,
      decide_eq_true_iff]
    exact ⟨hobject, htail.bears (h object hobject)⟩
  · -- Both are filters of the same entries, and the one with folders asks for more.
    rw [offered_resolveNamed, offered_resolveNamed]
    refine filter_sublist_filter fun object hobject hbears => ?_
    rw [Bool.and_eq_true, decide_eq_true_iff, decide_eq_true_iff] at hbears ⊢
    exact ⟨hbears.1, hbears.2.of_slash (h object hobject) (keySegments_ne_nil hname)⟩

/-- A bare name may mean any of two objects, and its folder decides between them. -/
theorem resolveNamed_byFolders_item :
    let item : WorkspaceObject := ⟨1, "functions/v-1//users/get_item.v2.xs", .function, ""⟩
    let other : WorkspaceObject := ⟨2, "functions/roles/GetItem-V2.xs", .function, ""⟩
    let inventory := [item, other]
    let index := ofInventory inventory
    (∀ object ∈ latestEntries inventory, Text.nameKey object.stem ≠ "") ∧
      item ∈ latestEntries inventory ∧ IsTailOf "/users/get_item.v2" item.path ∧
      item ∈ (index.resolveNamed "/users/get_item.v2" .function).offered ∧
      Text.nameKey (Text.fileName "get item v2") ≠ "" ∧
      (index.resolveNamed ("Users" ++ "/" ++ "get item v2") .function).offered.Sublist
        (index.resolveNamed "get item v2" .function).offered ∧
      (index.resolveNamed ("Users" ++ "/" ++ "get item v2") .function).offered = [item] ∧
      (index.resolveNamed "get item v2" .function).offered = [item, other] := by
  intro item other inventory index
  have hstems : ∀ object ∈ latestEntries inventory, Text.nameKey object.stem ≠ "" := by
    decide +kernel
  have hitem : item ∈ latestEntries inventory := by decide +kernel
  have htail : IsTailOf "/users/get_item.v2" item.path :=
    Or.inr ⟨"functions/v-1", by decide +kernel⟩
  have hname : Text.nameKey (Text.fileName "get item v2") ≠ "" := by decide +kernel
  have hfound := resolveNamed_byFolders hstems
  refine ⟨hstems, hitem, htail, hfound.1 item hitem _ htail, hname,
    hfound.2 "get item v2" "Users" .function hname, ?_, ?_⟩
  · exact (offered_resolveNamed inventory _ _).trans (by decide +kernel)
  · exact (offered_resolveNamed inventory _ _).trans (by decide +kernel)

/-! ## The ends of the paths -/

/-- Found by folders is what is given by its file, and what is taken for its folder. -/
theorem mem_withFolders {object : WorkspaceObject} {keys : List String}
    (hkeys : ∀ key ∈ keys, key ≠ "") :
    object ∈ (ofInventory inventory).withFolders keys ↔ object ∈ latestEntries inventory ∧
      (object.IsGivenByFile keys ∨ object.IsGivenByFolder keys) := by
  by_cases hne : keys = []
  · have hfile : ¬ object.IsGivenByFile keys := by
      rintro ⟨folders, hlast, -⟩
      exact List.append_ne_nil_of_right_ne_nil folders (List.cons_ne_nil _ _)
        (hlast.symm.trans hne)
    have hfolder : ¬ object.IsGivenByFolder keys := fun hfolder => hfolder.ne_nil hne
    rw [withFolders, if_pos hne, iff_false_left List.not_mem_nil]
    exact fun h => h.2.elim hfile hfolder
  · rw [withFolders_ofInventory _ hne, List.mem_filter, decide_eq_true_iff,
      WorkspaceObject.suffix_segmentKeys_iff hne hkeys]

/-- An object whose path ends in the keys of a text is given by its file, or its
    file has no key and it is given by its folder. The look-ups by folders and by
    key agree on a single key unless a file without a key is given by it. -/
theorem withFolders_byFileOrFolder (inventory : List WorkspaceObject) (text : String) :
    let index := ofInventory inventory
    let keys := Text.keySegments text
    (∀ object, object ∈ index.withFolders keys ↔ object ∈ latestEntries inventory ∧
      (object.IsGivenByFile keys ∨ object.IsGivenByFolder keys)) ∧
    ∀ key, keys = [key] → (index.withFolders keys = index.withKey key ↔
      ∀ object ∈ latestEntries inventory, ¬ object.IsGivenByFolder keys) := by
  intro index keys
  have hkeys : ∀ key ∈ keys, key ≠ "" := fun key => ne_empty_of_mem_keySegments
  refine ⟨fun object => mem_withFolders hkeys, fun key hkey => ?_⟩
  have hne : keys ≠ [] := by
    rw [hkey]
    exact List.cons_ne_nil _ _
  have hkey' : key ≠ "" := hkeys key (by rw [hkey]; exact .head _)
  rw [withKey_ofInventory _ hkey']
  constructor
  · intro hsame object hobject hfolder
    -- An object that is taken for its folder is found by folders, and by key it is not.
    have hfound := (mem_withFolders hkeys).mpr ⟨hobject, Or.inr hfolder⟩
    rw [hsame, List.mem_filter, decide_eq_true_iff] at hfound
    exact hkey' (hfound.2.symm.trans hfolder.noKey)
  · intro hnone
    rw [withFolders_ofInventory _ hne]
    refine List.filter_congr fun object hobject => decide_eq_decide.mpr ?_
    rw [WorkspaceObject.suffix_segmentKeys_iff hne hkeys, or_iff_left (hnone object hobject), hkey,
      WorkspaceObject.isGivenByFile_singleton]

/-- A file whose name has no letters is found in place of its folder. -/
theorem withFolders_namelessFile :
    let nameless : WorkspaceObject := ⟨1, "functions/users/___.xs", .function, ""⟩
    let index := ofInventory [nameless]
    index.withFolders (Text.keySegments "Functions/Users") = [nameless] ∧
      (Text.keySegments "Functions/Users").getLast? ≠ some (Text.nameKey nameless.stem) ∧
      Text.keySegments "users" = ["users"] ∧
      index.withFolders (Text.keySegments "users") = [nameless] ∧ index.withKey "users" = [] := by
  intro nameless index
  refine ⟨?_, by decide +kernel, by decide +kernel, ?_, ?_⟩
  · exact (withFolders_ofInventory _ (by decide +kernel)).trans (by decide +kernel)
  · exact (withFolders_ofInventory _ (by decide +kernel)).trans (by decide +kernel)
  · exact (withKey_ofInventory _ (by decide)).trans (by decide +kernel)

end Index

end StackScript
