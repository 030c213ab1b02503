import StackScript.Folder.Tree

/-!
# File Trees after a Change

A file that is set at a place is found there. Of the rest of the tree only this
has to be known, that a path which could be followed can still be followed: what
was there is there, and folders are folders. `Grows` says so of two trees.

That a tree grows is shown from the place upwards. The entry that is set takes the
place of a file or of nothing, below which no path leads, and one level up an entry
is replaced by a grown one.

## Main definitions

* `FileTree.IsFolder`: The tree is a folder.
* `FileTree.Grows`: All places of one tree are places of another one.

## Theorems

* `mem_of_child?`, `child?_of_mem`: The entry of a name.
* `find_append_singleton`: The entries of a folder that is found.
* `exists_folder_above`: What is above something is a folder.
* `find_set_self`: What is set at a place is found there.
* `grows_set`: Setting a file makes a tree grow.
* `decodeText_eq_ok_iff`: The bytes of a text, and no others, are that text.
-/

namespace StackScript

namespace FileTree

/-- The tree is a folder, and not a file. -/
def IsFolder : FileTree → Prop
  | file _ => False
  | folder _ => True

/-- Whatever is in a tree is in the grown one as well, and as a folder if it was
    a folder. -/
def Grows (tree grown : FileTree) : Prop :=
  ∀ names found, tree.find names = .ok found →
    ∃ kept, grown.find names = .ok kept ∧ (found.IsFolder → kept.IsFolder)

variable {tree content : FileTree} {entries : List (String × FileTree)} {name : String}
  {names : List String}

/-- A folder is made of its entries. -/
theorem IsFolder.exists_entries {tree : FileTree} (h : tree.IsFolder) :
    ∃ entries, tree = folder entries := by
  cases tree with
  | file bytes => exact h.elim
  | folder entries => exact ⟨entries, rfl⟩

/-! ## Entries -/

-- The first entry of a name is the one that is found.
theorem child?_cons (entry : String × FileTree) (entries : List (String × FileTree))
    (name : String) :
    child? (entry :: entries) name =
      if entry.1 = name then some entry.2 else child? entries name := by
  rw [child?, List.find?_cons]
  by_cases h : entry.1 = name <;> simp [h, child?]

/-- What is found is there. -/
theorem mem_of_child? (h : child? entries name = some tree) : (name, tree) ∈ entries := by
  rcases Option.map_eq_some_iff.mp h with ⟨entry, hfind, rfl⟩
  have hname : entry.1 = name := by simpa using List.find?_some hfind
  exact hname ▸ List.mem_of_find?_eq_some hfind

-- And it is found, if no other entry has its name.
theorem child?_of_mem (hdistinct : (entries.map (·.1)).Nodup) (h : (name, tree) ∈ entries) :
    child? entries name = some tree := by
  induction entries with
  | nil => cases h
  | cons entry entries ih =>
      rw [List.map_cons, List.nodup_cons] at hdistinct
      rw [child?_cons]
      rcases List.mem_cons.mp h with rfl | hmem
      · rw [if_pos rfl]
      · rw [if_neg, ih hdistinct.2 hmem]
        rintro rfl
        exact hdistinct.1 (List.mem_map_of_mem (f := (·.1)) hmem)

/-- The name that is set is found with its new entry, every other one as before. -/
theorem child?_setEntry (entries : List (String × FileTree)) (name : String) (tree : FileTree)
    (other : String) :
    child? (setEntry name tree entries) other =
      if name = other then some tree else child? entries other := by
  induction entries with
  | nil => rw [setEntry, child?_cons]
  | cons entry entries ih =>
      rw [setEntry]
      split
      · next hentry =>
          rw [child?_cons, child?_cons, hentry]
          split <;> rfl
      · next hentry =>
          rw [child?_cons, child?_cons, ih]
          by_cases hname : name = other
          · rw [if_pos hname, if_pos hname, if_neg fun h => hentry (h.trans hname.symm)]
          · rw [if_neg hname, if_neg hname]

-- A path leads through the entry of its first name.
theorem find_folder_cons (h : child? entries name = some tree) (names : List String) :
    (folder entries).find (name :: names) = tree.find names := by
  rw [find]
  rw [h]

/-- A place that goes through a first name is one below the entry of that name. -/
theorem find_cons_eq_ok {found : FileTree} (h : tree.find (name :: names) = .ok found) :
    ∃ entries below, tree = folder entries ∧ child? entries name = some below ∧
      below.find names = .ok found := by
  cases tree with
  | file bytes => cases h
  | folder entries =>
      cases hchild : child? entries name with
      | none =>
          rw [find] at h
          rw [hchild] at h
          cases h
      | some below => exact ⟨entries, below, rfl, hchild, (find_folder_cons hchild names) ▸ h⟩

/-- What is in a folder that is found is one of its entries. -/
theorem find_append_singleton (h : tree.find names = .ok (folder entries)) (name : String) :
    tree.find (names ++ [name]) =
      match child? entries name with
      | some below => .ok below
      | none => .error .notFound := by
  induction names generalizing tree with
  | nil =>
      cases h
      rfl
  | cons first names ih =>
      rcases find_cons_eq_ok h with ⟨others, below, rfl, hchild, hbelow⟩
      rw [List.cons_append, find_folder_cons hchild]
      exact ih hbelow

/-- What is above something is a folder. -/
theorem exists_folder_above {found : FileTree} (h : tree.find (names ++ [name]) = .ok found) :
    ∃ entries, tree.find names = .ok (folder entries) := by
  induction names generalizing tree with
  | nil =>
      rcases find_cons_eq_ok h with ⟨entries, -, rfl, -, -⟩
      exact ⟨entries, rfl⟩
  | cons first names ih =>
      rcases find_cons_eq_ok h with ⟨others, below, rfl, hchild, hbelow⟩
      rw [find_folder_cons hchild]
      exact ih hbelow

/-! ## Setting a File -/

-- Something below an entry is set by replacing the entry.
theorem set_folder_cons (h : child? entries name = some tree) (names : List String) :
    (folder entries).set content (name :: names) =
      folder (setEntry name (tree.set content names) entries) := by
  rw [set]
  rw [h, Option.getD_some]

-- Nothing is below the last name, so the entry itself is set.
theorem set_folder_singleton (entries : List (String × FileTree)) (name : String)
    (content : FileTree) :
    (folder entries).set content [name] = folder (setEntry name content entries) := by
  rw [set]
  rw [set]

theorem find_folder_setEntry (entries : List (String × FileTree)) (name : String) (tree : FileTree)
    (names : List String) :
    (folder (setEntry name tree entries)).find (name :: names) = tree.find names :=
  find_folder_cons (by rw [child?_setEntry, if_pos rfl]) names

/-- What is set in a folder that is there is found there. -/
theorem find_set_self (h : tree.find names = .ok (folder entries)) (name : String)
    (content : FileTree) : (tree.set content (names ++ [name])).find (names ++ [name]) = .ok content := by
  induction names generalizing tree with
  | nil =>
      cases h
      rw [List.nil_append, set_folder_singleton, find_folder_setEntry]
      rfl
  | cons first names ih =>
      rcases find_cons_eq_ok h with ⟨others, below, rfl, hchild, hbelow⟩
      rw [List.cons_append, set_folder_cons hchild, find_folder_setEntry]
      exact ih hbelow

/-- No path leads through a file, so anything may stand in its place. -/
theorem grows_file {old : FileTree} (h : ¬ old.IsFolder) (grown : FileTree) : Grows old grown := by
  intro names found hfound
  cases names with
  | nil =>
      cases hfound
      exact ⟨grown, rfl, fun hfolder => (h hfolder).elim⟩
  | cons name names =>
      rcases find_cons_eq_ok hfound with ⟨entries, -, rfl, -, -⟩
      exact (h trivial).elim

/-- A folder grows with an entry that does, and with one that is new. -/
theorem grows_setEntry {grown : FileTree}
    (h : ∀ old, child? entries name = some old → Grows old grown) :
    Grows (folder entries) (folder (setEntry name grown entries)) := by
  intro names found hfound
  cases names with
  | nil => exact ⟨_, rfl, fun _ => trivial⟩
  | cons first names =>
      rcases find_cons_eq_ok hfound with ⟨others, below, hentries, hchild, hbelow⟩
      cases hentries
      by_cases hname : name = first
      · rw [← hname] at hchild ⊢
        rw [find_folder_setEntry]
        exact h below hchild names found hbelow
      · rw [find_folder_cons (by rw [child?_setEntry, if_neg hname, hchild])]
        exact ⟨found, hbelow, id⟩

/-- A tree grows when something is set in a folder where no folder was before. -/
theorem grows_set (h : tree.find names = .ok (folder entries))
    (hold : ∀ old, child? entries name = some old → ¬ old.IsFolder) (content : FileTree) :
    Grows tree (tree.set content (names ++ [name])) := by
  induction names generalizing tree with
  | nil =>
      cases h
      rw [List.nil_append, set_folder_singleton]
      exact grows_setEntry fun old hchild => grows_file (hold old hchild) content
  | cons first names ih =>
      rcases find_cons_eq_ok h with ⟨others, below, rfl, hchild, hbelow⟩
      rw [List.cons_append, set_folder_cons hchild]
      refine grows_setEntry fun old hentry => ?_
      -- The entry on the way is the one that the path leads through.
      cases hchild.symm.trans hentry
      exact ih hbelow

/-! ## Texts -/

/-- Decoding undoes encoding. -/
theorem decodeText_toUTF8 (text : String) : decodeText text.toUTF8 = .ok text := by
  have hvalid : text.toUTF8.IsValidUTF8 := text.isValidUTF8
  rw [decodeText, String.fromUTF8?, dif_pos hvalid]
  rfl

/-- Bytes are read as a text if they are the bytes of that text. -/
theorem decodeText_eq_ok_iff {content : ByteArray} {text : String} :
    decodeText content = .ok text ↔ content = text.toUTF8 := by
  constructor
  · intro h
    rw [decodeText] at h
    split at h
    · next decoded hdecoded =>
        -- A decoded text is made from the bytes themselves, and so has them.
        rw [String.fromUTF8?] at hdecoded
        split at hdecoded
        · rw [← Except.ok.inj h, ← Option.some.inj hdecoded]
          rfl
        · cases hdecoded
    · cases h
  · rintro rfl
    exact decodeText_toUTF8 text

end FileTree

end StackScript
