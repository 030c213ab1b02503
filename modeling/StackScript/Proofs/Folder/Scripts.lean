import Mathlib.Data.List.Sort
import Mathlib.Data.String.Basic
import StackScript.Folder.Scripts
import StackScript.Proofs.Folder.Tree
import StackScript.Proofs.Text.ByteOrder
import StackScript.Proofs.Text.Path

/-!
# The Scripts below a Folder

All scripts below a folder are found, and nothing else is. What is meant by a script is
said by looking up its place from the top, `IsScriptAt`, and so without any order in
which a folder would list its entries. The search goes through the entries as they come
and collects places on its way down, so one induction has to tie both together,
`mem_scriptsAt`.

Two things are needed of the tree for that. An entry that another one of the same name
stands in front of would be listed, but it is never found; and a name with a slash in it
would be taken for a path. No file system has such entries, and `WellNamed` excludes
them.

The places are put in order afterwards. Since no place comes twice, they end up in
strictly increasing order, and there is only one way to list the scripts like this.

## Main definitions

* `placeBytes`: The bytes of a place, segment by segment.
* `FileTree.WellNamed`: The names in a tree are proper names.
* `FileTree.IsScriptAt`: There is a script at a place.
* `FileTree.ListsScripts`: Some scripts and readings are those of a folder.

## Theorems

* `placeBytes_lt`: Places are in the order of their bytes.
* `mem_scriptsAt`: The search finds what is there.
* `nodup_scriptsAt`: The search finds nothing twice.
* `collectScripts_listsScripts`: The scripts below a folder are found and read.
* `collectScripts_congr`: The order of the entries makes no difference.
-/

namespace StackScript

/-! ## The order of places -/

/-- The order of strings compares their characters, as the order of bytes does. -/
theorem nameBefore_eq (name other : String) : nameBefore name other = decide (name < other) := by
  rw [Bool.eq_iff_iff, decide_eq_true_iff]
  change _ ↔ name.toList < other.toList
  exact List.lex_eq_true_iff_lt

/-- Places are compared name by name. -/
theorem placeBefore_iff {place other : List String} :
    placeBefore place other = true ↔ place < other := by
  have hnames : nameBefore = fun name other : String => decide (name < other) :=
    funext₂ nameBefore_eq
  rw [placeBefore, hnames]
  exact List.lex_eq_true_iff_lt

-- As paths the two would be the other way round, since a dash comes before a slash.
example : placeBefore ["a", "z.xs"] ["a-b.xs"] = true := by decide

/-- The bytes of the names that lead to a place. -/
def placeBytes (place : List String) : List (List UInt8) :=
  place.map fun name => encode name.toList

/-- Places are in the order of their bytes. -/
theorem placeBytes_lt {place other : List String} (h : place < other) :
    placeBytes place < placeBytes other :=
  List.map_lt (fun _ _ hname => encode_lt hname) h

namespace FileTree

variable {tree : FileTree} {entries : List (String × FileTree)} {name : String}
  {place : List String} {content : ByteArray} {script : List String × ByteArray}

/-- The names in a tree are names of entries: no two entries of a folder have the same
    one, and none has a slash in it. -/
inductive WellNamed : FileTree → Prop where
  | file (content : ByteArray) : WellNamed (file content)
  | folder {entries : List (String × FileTree)} (distinct : (entries.map (·.1)).Nodup)
      (names : ∀ entry ∈ entries, '/' ∉ entry.1.toList)
      (below : ∀ entry ∈ entries, WellNamed entry.2) : WellNamed (folder entries)

/-- There is a script at the place in the tree: a file that is in no hidden folder and
    not hidden itself, and whose name has the extension of scripts. -/
structure IsScriptAt (tree : FileTree) (place : List String) (content : ByteArray) : Prop where
  /-- It is a file. -/
  found : tree.find place = .ok (.file content)
  /-- No name on the way to it begins with a dot. -/
  visible : ∀ name ∈ place, name.toList.head? ≠ some '.'
  /-- Its own name is the extension with something in front of it. -/
  named : ∃ stem, stem ≠ "" ∧ place.getLast? = some (stem ++ ".xs")

/-! ## The search -/

/-- Hidden entries are passed over, in all others the search goes on. -/
theorem scriptsAmong_eq_flatMap (path : List String) (entries : List (String × FileTree)) :
    scriptsAmong path entries = entries.flatMap fun entry =>
      if isHidden entry.1 then [] else scriptsAt (path ++ [entry.1]) entry.1 entry.2 := by
  induction entries with
  | nil => rw [scriptsAmong, List.flatMap_nil]
  | cons entry entries ih => rw [scriptsAmong, List.flatMap_cons, ih]

-- The name of the folder itself has no say.
theorem scriptsAmong_eq_scriptsAt (name : String) :
    scriptsAmong place entries = scriptsAt place name (folder entries) := by
  rw [scriptsAt]

/-- A file is found at its own place only, since nothing is below it. -/
theorem mem_scriptsAt_file (content : ByteArray) (path : List String) (name : String) :
    script ∈ scriptsAt path name (file content) ↔
      ∃ place, script.1 = path ++ place ∧ (file content).find place = .ok (file script.2) ∧
        (∀ other ∈ place, isHidden other = false) ∧ Text.isScript (place.getLast?.getD name) := by
  rw [scriptsAt]
  constructor
  · intro hscript
    split at hscript
    · next hname =>
      rw [List.mem_singleton.mp hscript]
      exact ⟨[], (List.append_nil path).symm, rfl, fun _ hmem => absurd hmem List.not_mem_nil,
        hname⟩
    · cases hscript
  · rintro ⟨place, hplace, hfind, -, hname⟩
    cases place with
    | nil =>
        have hname : Text.isScript name = true := hname
        rw [if_pos hname, List.mem_singleton]
        rw [find] at hfind
        cases hfind
        exact Prod.ext (hplace.trans (List.append_nil path)) rfl
    | cons first rest =>
        rcases find_cons_eq_ok hfind with ⟨entries, below, hfolder, -, -⟩
        cases hfolder

/-- The scripts at a place and below it are those that are found there. A file that
    stands at the place itself goes by the name of the place. -/
theorem mem_scriptsAt (h : tree.WellNamed) (path : List String) (name : String) :
    script ∈ scriptsAt path name tree ↔
      ∃ place, script.1 = path ++ place ∧ tree.find place = .ok (file script.2) ∧
        (∀ other ∈ place, isHidden other = false) ∧ Text.isScript (place.getLast?.getD name) := by
  induction h generalizing path name with
  | file content => exact mem_scriptsAt_file content path name
  | @folder entries distinct names below ih =>
      rw [scriptsAt, scriptsAmong_eq_flatMap, List.mem_flatMap]
      constructor
      · -- What is found below an entry is looked up through it, and the entry is the first
        -- of its name.
        rintro ⟨entry, hentry, hscript⟩
        split at hscript
        · cases hscript
        · next hvisible =>
            rcases (ih entry hentry _ _).mp hscript with ⟨place, hplace, hfind, hbelow, hname⟩
            refine ⟨entry.1 :: place, ?_, ?_, ?_, ?_⟩
            · rw [hplace, List.append_assoc, List.singleton_append]
            · rw [find_folder_cons (child?_of_mem distinct hentry), hfind]
            · exact List.forall_mem_cons.mpr ⟨Bool.eq_false_iff.mpr hvisible, hbelow⟩
            · rwa [List.getLast?_cons, Option.getD_some]
      · rintro ⟨place, hplace, hfind, hvisible, hname⟩
        cases place with
        | nil =>
            rw [find] at hfind
            cases hfind
        | cons first rest =>
            -- A place that is looked up leads through an entry, and the search goes there
            -- as well.
            rcases find_cons_eq_ok hfind with ⟨others, below, hfolder, hchild, hbelow⟩
            cases hfolder
            rcases List.forall_mem_cons.mp hvisible with ⟨hfirst, hrest⟩
            refine ⟨(first, below), mem_of_child? hchild, ?_⟩
            rw [if_neg (by rw [hfirst]; exact Bool.false_ne_true)]
            refine (ih _ (mem_of_child? hchild) _ _).mpr ⟨rest, ?_, hbelow, hrest, ?_⟩
            · rw [hplace, List.append_assoc, List.singleton_append]
            · rwa [List.getLast?_cons, Option.getD_some] at hname

/-- Below two entries of a folder there are different places, since their names differ. -/
theorem nodup_scriptsAt (h : tree.WellNamed) (path : List String) (name : String) :
    (scriptsAt path name tree).Pairwise fun a b => a.1 ≠ b.1 := by
  induction h generalizing path name with
  | file content =>
      rw [scriptsAt]
      split
      · exact List.pairwise_singleton _ _
      · exact List.Pairwise.nil
  | @folder entries distinct names below ih =>
      rw [scriptsAt, scriptsAmong_eq_flatMap, List.pairwise_flatMap]
      constructor
      · intro entry hentry
        split
        · exact List.Pairwise.nil
        · exact ih entry hentry _ _
      · -- Two entries have different names, so the places below them part at their first
        -- name.
        have hdistinct : entries.Pairwise fun a b => a.1 ≠ b.1 := List.pairwise_map.mp distinct
        refine List.Pairwise.imp_of_mem (fun {a b} ha hb hne => ?_) hdistinct
        intro script hscript other hother heq
        split at hscript
        · cases hscript
        · split at hother
          · cases hother
          · rcases (mem_scriptsAt (below a ha) _ _).mp hscript with ⟨place, hplace, -⟩
            rcases (mem_scriptsAt (below b hb) _ _).mp hother with ⟨place', hplace', -⟩
            rw [hplace, hplace', List.append_assoc, List.append_assoc] at heq
            exact hne (List.cons.inj (List.append_cancel_left heq)).1

/-- No name on the way to something has a slash in it. -/
theorem slash_notMem_of_find (h : tree.WellNamed) {found : FileTree}
    (hfind : tree.find place = .ok found) : ∀ name ∈ place, '/' ∉ name.toList := by
  induction place generalizing tree with
  | nil => exact fun _ hmem => absurd hmem List.not_mem_nil
  | cons first rest ih =>
      rcases find_cons_eq_ok hfind with ⟨entries, below, rfl, hchild, hbelow⟩
      cases h with
      | folder distinct names wellNamed =>
          have hmem := mem_of_child? hchild
          exact List.forall_mem_cons.mpr ⟨names _ hmem, ih (wellNamed _ hmem) hbelow⟩

-- A name is visible if it does not begin with a dot.
theorem isHidden_eq_false_iff {name : String} :
    isHidden name = false ↔ name.toList.head? ≠ some '.' :=
  decide_eq_false_iff_not

/-- The search finds the scripts of the folder. -/
theorem mem_scriptsAmong (h : (folder entries).WellNamed) :
    script ∈ scriptsAmong [] entries ↔ (folder entries).IsScriptAt script.1 script.2 := by
  rw [scriptsAmong_eq_scriptsAt "", mem_scriptsAt h]
  constructor
  · rintro ⟨place, hplace, hfind, hvisible, hname⟩
    rw [List.nil_append] at hplace
    rw [← hplace] at hfind hvisible hname
    refine ⟨hfind, fun name hmem => isHidden_eq_false_iff.mp (hvisible name hmem), ?_⟩
    -- The top is a folder and no script, so the place has a last name.
    cases hlast : script.1.getLast? with
    | none =>
        rw [hlast] at hname
        cases hname
    | some last =>
        rw [hlast] at hname
        have hslash := slash_notMem_of_find h hfind last (List.mem_of_getLast? hlast)
        rcases (Text.isScript_iff hslash).mp hname with ⟨stem, hstem, hlast⟩
        exact ⟨stem, hstem, congrArg some hlast⟩
  · rintro ⟨hfound, hvisible, stem, hstem, hlast⟩
    have hslash := slash_notMem_of_find h hfound _ (List.mem_of_getLast? hlast)
    refine ⟨script.1, rfl, hfound, fun name hmem => isHidden_eq_false_iff.mpr (hvisible name hmem),
      ?_⟩
    rw [hlast]
    exact (Text.isScript_iff hslash).mpr ⟨stem, hstem, rfl⟩

/-! ## All scripts of a folder -/

/-- The scripts of a folder, in the order of their places, and the readings of those
    that hold a text. -/
structure ListsScripts (tree : FileTree) (scripts : List (List String × ByteArray))
    (readings : List (List String × Document)) : Prop where
  /-- Every script comes once, segment by segment in the order of the bytes. -/
  scripts_increasing : scripts.Pairwise fun a b => placeBytes a.1 < placeBytes b.1
  /-- The scripts of the folder are listed, and nothing else is. -/
  mem_scripts : ∀ place content, (place, content) ∈ scripts ↔ tree.IsScriptAt place content
  /-- The readings come in the same order. -/
  readings_increasing : readings.Pairwise fun a b => placeBytes a.1 < placeBytes b.1
  /-- Every script that holds a text is read, and nothing else is. -/
  mem_readings : ∀ place document, (place, document) ∈ readings ↔
    ∃ text : String, tree.IsScriptAt place text.toUTF8 ∧ document = parse text

/-- The scripts among some entries, in the order of their places. -/
def sortedScripts (entries : List (String × FileTree)) : List (List String × ByteArray) :=
  (scriptsAmong [] entries).mergeSort fun a b => !placeBefore b.1 a.1

/-- The order is strict, for what is sorted has no place twice. -/
theorem sortedScripts_pairwise (h : (folder entries).WellNamed) :
    (sortedScripts entries).Pairwise fun a b => a.1 < b.1 := by
  have hle : ∀ a b : List String × ByteArray, (!placeBefore b.1 a.1) = true ↔ a.1 ≤ b.1 := by
    intro a b
    rw [Bool.not_eq_true', ← Bool.not_eq_true, placeBefore_iff, not_lt]
  -- Sorting gives an order in which places may be equal, and none are.
  have hsorted : (sortedScripts entries).Pairwise fun a b => a.1 ≤ b.1 := by
    refine List.Pairwise.imp (fun {a b} hab => (hle a b).mp hab) (List.pairwise_mergeSort ?_ ?_ _)
    · exact fun a b c hab hbc => (hle a c).mpr (le_trans ((hle a b).mp hab) ((hle b c).mp hbc))
    · intro a b
      rw [Bool.or_eq_true_iff, hle, hle]
      exact le_total a.1 b.1
  have hdistinct : (sortedScripts entries).Pairwise fun a b => a.1 ≠ b.1 := by
    refine (List.Perm.pairwise_iff (fun hne => hne.symm) (List.mergeSort_perm _ _)).mpr ?_
    rw [scriptsAmong_eq_scriptsAt ""]
    exact nodup_scriptsAt h [] ""
  exact (hsorted.and hdistinct).imp fun hboth => lt_of_le_of_ne hboth.1 hboth.2

/-- The reading of a script, if it holds a text. -/
def readingOf? (script : List String × ByteArray) : Option (List String × Document) :=
  match decodeText script.2 with
  | .ok text => some (script.1, parse text)
  | .error _ => none

/-- A script can be read if its bytes are those of a text. -/
theorem readingOf?_eq_some_iff {document : Document} :
    readingOf? script = some (place, document) ↔
      script.1 = place ∧ ∃ text : String, script.2 = text.toUTF8 ∧ document = parse text := by
  simp only [← decodeText_eq_ok_iff]
  rw [readingOf?]
  cases decodeText script.2 with
  | ok text => simp [eq_comm]
  | error cause => simp

-- The folder is looked up, and what is below it is put in order.
theorem collectScripts_eq {path : String} (h : tree.at? path = .ok (folder entries)) :
    tree.collectScripts path = .ok (sortedScripts entries) := by
  rw [collectScripts, h]
  rfl

theorem analyzeScripts_eq {path : String} (h : tree.at? path = .ok (folder entries)) :
    tree.analyzeScripts path = .ok ((sortedScripts entries).filterMap readingOf?) := by
  rw [analyzeScripts, collectScripts_eq h]
  rfl

/-- The sorted scripts of a folder are what it should give. -/
theorem listsScripts_sortedScripts (h : (folder entries).WellNamed) :
    (folder entries).ListsScripts (sortedScripts entries)
      ((sortedScripts entries).filterMap readingOf?) where
  scripts_increasing := (sortedScripts_pairwise h).imp fun hlt => placeBytes_lt hlt
  mem_scripts place content := by
    rw [sortedScripts, List.mem_mergeSort]
    exact mem_scriptsAmong h
  readings_increasing := by
    refine List.Pairwise.filterMap _ (fun a b hlt => ?_) (sortedScripts_pairwise h)
    rintro ⟨place, document⟩ ha ⟨other, reading⟩ hb
    rw [(readingOf?_eq_some_iff.mp ha).1, (readingOf?_eq_some_iff.mp hb).1] at hlt
    exact placeBytes_lt hlt
  mem_readings place document := by
    rw [List.mem_filterMap]
    simp only [readingOf?_eq_some_iff, sortedScripts, List.mem_mergeSort, mem_scriptsAmong h]
    constructor
    · rintro ⟨⟨place, content⟩, hscript, rfl, text, rfl, rfl⟩
      exact ⟨text, hscript, rfl⟩
    · rintro ⟨text, hscript, rfl⟩
      exact ⟨(place, text.toUTF8), hscript, rfl, text, rfl, rfl⟩

/-- The scripts below a folder are found, each of them once and in order, and those that
    hold a text are read. -/
theorem collectScripts_listsScripts {path : String}
    (hfolder : tree.at? path = .ok (folder entries)) (h : (folder entries).WellNamed) :
    ∃ scripts readings, tree.collectScripts path = .ok scripts ∧
      tree.analyzeScripts path = .ok readings ∧ (folder entries).ListsScripts scripts readings :=
  ⟨_, _, collectScripts_eq hfolder, analyzeScripts_eq hfolder, listsScripts_sortedScripts h⟩

/-- A hidden folder, a folder with the name of a script and a file that holds no text. -/
theorem collectScripts_listsScripts_folder :
    ∃ entries : List (String × FileTree),
      entries = [("b.xs", file "x".toUTF8), (".git", folder [("a.xs", file "".toUTF8)]),
        ("notes", file "".toUTF8), ("a.xs", folder [("c.xs", file ⟨#[255]⟩)])] ∧
      (folder [("lib", folder entries)]).at? "lib" = .ok (folder entries) ∧
      (folder entries).WellNamed ∧
      ∃ scripts readings, (folder [("lib", folder entries)]).collectScripts "lib" = .ok scripts ∧
        (folder [("lib", folder entries)]).analyzeScripts "lib" = .ok readings ∧
          (folder entries).ListsScripts scripts readings := by
  have hhidden : (folder [("a.xs", file "".toUTF8)]).WellNamed :=
    .folder (by decide) (by decide) (List.forall_mem_singleton.mpr (.file _))
  have hinner : (folder [("c.xs", file ⟨#[255]⟩)]).WellNamed :=
    .folder (by decide) (by decide) (List.forall_mem_singleton.mpr (.file _))
  -- No folder has a name twice, and no name has a slash.
  have hnamed : (folder [("b.xs", file "x".toUTF8), (".git", folder [("a.xs", file "".toUTF8)]),
      ("notes", file "".toUTF8), ("a.xs", folder [("c.xs", file ⟨#[255]⟩)])]).WellNamed := by
    refine .folder (by decide) (by decide) ?_
    simp only [List.forall_mem_cons]
    exact ⟨.file _, hhidden, .file _, hinner, fun _ hmem => absurd hmem List.not_mem_nil⟩
  exact ⟨_, rfl, rfl, hnamed, collectScripts_listsScripts rfl hnamed⟩

/-- The order in which a folder lists its entries makes no difference: if the same files
    are found in two folders, the same scripts are found and read. -/
theorem collectScripts_congr {other : FileTree} {others : List (String × FileTree)}
    {path path' : String} (hfolder : tree.at? path = .ok (folder entries))
    (hother : other.at? path' = .ok (folder others)) (h : (folder entries).WellNamed)
    (h' : (folder others).WellNamed)
    (hsame : ∀ place content, (folder entries).find place = .ok (file content) ↔
      (folder others).find place = .ok (file content)) :
    tree.collectScripts path = other.collectScripts path' ∧
      tree.analyzeScripts path = other.analyzeScripts path' := by
  have hirrefl : Std.Irrefl fun a b : List String × ByteArray => a.1 < b.1 :=
    ⟨fun a => lt_irrefl a.1⟩
  have hantisymm : Std.Antisymm fun a b : List String × ByteArray => a.1 < b.1 :=
    ⟨fun _ _ hlt hgt => absurd hgt (lt_asymm hlt)⟩
  -- An increasing list is told by what is in it, and here this is the same.
  have hscripts : sortedScripts entries = sortedScripts others := by
    refine (sortedScripts_pairwise h).eq_of_mem_iff (sortedScripts_pairwise h') fun script => ?_
    rw [sortedScripts, sortedScripts, List.mem_mergeSort, List.mem_mergeSort, mem_scriptsAmong h,
      mem_scriptsAmong h']
    constructor
    · rintro ⟨hfound, hvisible, hnamed⟩
      exact ⟨(hsame _ _).mp hfound, hvisible, hnamed⟩
    · rintro ⟨hfound, hvisible, hnamed⟩
      exact ⟨(hsame _ _).mpr hfound, hvisible, hnamed⟩
  rw [collectScripts_eq hfolder, collectScripts_eq hother, analyzeScripts_eq hfolder,
    analyzeScripts_eq hother, hscripts]
  exact ⟨rfl, rfl⟩

end FileTree

end StackScript
