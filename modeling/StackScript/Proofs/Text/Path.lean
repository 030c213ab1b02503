import StackScript.Proofs.Workspace.Endpoint
import StackScript.Text.Path

/-!
# Folders, Names and Extensions

A path is its folder and behind that the file name, and a file name is its stem and
behind that the extension. Both cuts are made backwards, at the last slash and at the
last dot, and what comes out can be said forwards and without cutting.

No slash is in a file name. So taking the extension off a path leaves the folder as it
is, and it makes no difference to the file name what stands in front of a slash.

Whether a name is that of a script is decided by its extension. The general rule is about
paths, and there are segments that it passes over or refuses before it looks for a dot.
For a name without a slash this makes no difference, because the segments in question are
too short to have an extension.

## Main definitions

* `folder`: A path without its file name.

## Theorems

* `folder_append_fileName`: A path is a folder and a file name.
* `stripExtension_eq`: A path without its extension is the folder and the stem.
* `fileName_slash`: The file name stands behind the last slash.
* `cutExtension_append`: What a name with an extension is cut into.
* `fileStem_of_fileName`: The stem of a file name with an extension.
* `cutExtension_eq_some_iff`: When a name has an extension.
* `isScript_iff`: When a name is that of a script.
-/

namespace StackScript

namespace Text

/-! ## Folders and file names -/

/-- The path without the file name, up to the slash in front of it. -/
def folderChars (path : List Char) : List Char :=
  (path.reverse.dropWhile (· ≠ '/')).reverse

/-- The path without the file name, up to the slash in front of it. -/
def folder (path : String) : String :=
  onChars folderChars path

/-- A file name begins behind the last slash. -/
theorem slash_notMem_fileNameChars (path : List Char) : '/' ∉ fileNameChars path := by
  rw [fileNameChars, List.mem_reverse]
  intro hslash
  have hne := List.mem_takeWhile_imp hslash
  exact of_decide_eq_true hne rfl

/-- The two parts of a path are all of it. -/
theorem folderChars_append_fileNameChars (path : List Char) :
    folderChars path ++ fileNameChars path = path := by
  rw [folderChars, fileNameChars, ← List.reverse_append, List.takeWhile_append_dropWhile,
    List.reverse_reverse]

/-- The path of a folder is empty or ends with a slash. -/
theorem folderChars_eq (path : List Char) :
    folderChars path = [] ∨ ∃ above, folderChars path = above ++ ['/'] := by
  rw [folderChars]
  cases hdrop : path.reverse.dropWhile (· ≠ '/') with
  | nil => exact Or.inl rfl
  | cons c before =>
      rw [(exists_mark_of_dropWhile hdrop).1, List.reverse_cons]
      exact Or.inr ⟨before.reverse, rfl⟩

/-- Taking the extension off leaves the folder as it is. -/
theorem stripExtensionChars_eq (path : List Char) :
    stripExtensionChars path = folderChars path ++ fileStemChars path := by
  have hname : fileNameChars path <:+ path :=
    ⟨folderChars path, folderChars_append_fileNameChars path⟩
  have hfolder : path.take (path.length - (fileNameChars path).length) = folderChars path := by
    have hpath := List.suffix_iff_eq_append.mp hname
    exact List.append_cancel_right (hpath.trans (folderChars_append_fileNameChars path).symm)
  rw [stripExtensionChars, hfolder]

/-- A name without its extension is the front of the name. -/
theorem cutExtension_prefix_name (name : List Char) : (cutExtension name).1 <+: name := by
  unfold cutExtension
  dsimp only
  split
  · exact List.prefix_rfl
  · exact List.prefix_rfl
  · next c before hbusy hdrop =>
    rw [← List.reverse_suffix, List.reverse_reverse]
    exact (List.suffix_cons c before).trans (hdrop ▸ List.dropWhile_suffix _)

theorem slash_notMem_fileStemChars (path : List Char) : '/' ∉ fileStemChars path :=
  fun hslash => slash_notMem_fileNameChars path ((cutExtension_prefix_name _).subset hslash)

/-- Without a slash all of it is the name. -/
theorem fileNameChars_of_notMem {name : List Char} (h : '/' ∉ name) :
    fileNameChars name = name := by
  have hall : ∀ c ∈ name.reverse, decide (c ≠ '/') = true := fun c hc =>
    decide_eq_true (ne_of_mem_of_not_mem (List.mem_reverse.mp hc) h)
  rw [fileNameChars, List.takeWhile_eq_self_iff.mpr hall, List.reverse_reverse]

/-- Nothing in front of a slash belongs to the file name. -/
theorem fileNameChars_slash (front behind : List Char) :
    fileNameChars (front ++ '/' :: behind) = fileNameChars behind := by
  rw [fileNameChars, fileNameChars, List.reverse_append, List.reverse_cons, List.append_assoc,
    List.singleton_append, List.takeWhile_append, List.takeWhile_cons_of_neg (by decide),
    List.append_nil]
  split
  · next hall => rw [(List.takeWhile_prefix _).eq_of_length hall]
  · rfl

theorem fileNameChars_stripExtensionChars (path : List Char) :
    fileNameChars (stripExtensionChars path) = fileStemChars path := by
  have hstem := fileNameChars_of_notMem (slash_notMem_fileStemChars path)
  rw [stripExtensionChars_eq]
  rcases folderChars_eq path with hnone | ⟨above, habove⟩
  · rw [hnone, List.nil_append, hstem]
  · rw [habove, List.append_assoc, List.singleton_append, fileNameChars_slash, hstem]

theorem folder_append_fileName (path : String) : folder path ++ fileName path = path := by
  rw [folder, fileName, onChars, onChars, ← String.ofList_append, folderChars_append_fileNameChars,
    String.ofList_toList]

/-- A path without its extension is the folder and the stem. -/
theorem stripExtension_eq (path : String) : stripExtension path = folder path ++ fileStem path := by
  rw [stripExtension, folder, fileStem, onChars, onChars, onChars, stripExtensionChars_eq,
    String.ofList_append]

theorem toList_slash (front behind : String) :
    (front ++ "/" ++ behind).toList = front.toList ++ '/' :: behind.toList := by
  simp

/-- The file name stands behind the last slash. -/
theorem fileName_slash (front behind : String) :
    fileName (front ++ "/" ++ behind) = fileName behind := by
  rw [fileName, fileName, onChars, onChars, toList_slash, fileNameChars_slash]

/-- Without the extension, the stem is the file name. -/
theorem fileName_stripExtension (path : String) :
    fileName (stripExtension path) = fileStem path := by
  rw [fileName, stripExtension, fileStem, onChars, onChars, onChars, String.toList_ofList,
    fileNameChars_stripExtensionChars]

theorem slash_notMem_fileName (path : String) : '/' ∉ (fileName path).toList := by
  rw [fileName, onChars, String.toList_ofList]
  exact slash_notMem_fileNameChars _

theorem slash_notMem_fileStem (path : String) : '/' ∉ (fileStem path).toList := by
  rw [fileStem, onChars, String.toList_ofList]
  exact slash_notMem_fileStemChars _

/-! ## Extensions -/

/-- A name with an extension is cut at its last dot. -/
theorem cutExtension_append {stem extension : List Char} (hstem : stem ≠ [])
    (hdot : '.' ∉ extension) :
    cutExtension (stem ++ '.' :: extension) = (stem, some extension) := by
  have hbackwards : (stem ++ '.' :: extension).reverse =
      extension.reverse ++ '.' :: stem.reverse := by
    rw [List.reverse_append, List.reverse_cons, List.append_assoc, List.singleton_append]
  have hdot' : '.' ∉ extension.reverse := by rwa [List.mem_reverse]
  unfold cutExtension
  dsimp only
  rw [hbackwards, dropWhile_mark hdot', takeWhile_mark hdot', List.reverse_reverse]
  cases hfront : stem.reverse with
  | nil => exact absurd (List.reverse_eq_nil_iff.mp hfront) hstem
  | cons c before =>
      dsimp only
      rw [← hfront, List.reverse_reverse]

/-- The stem of a file name stands in front of its last dot. -/
theorem fileStem_of_fileName {path stem extension : String} (hstem : stem.toList ≠ [])
    (hdot : '.' ∉ extension.toList) (h : fileName path = stem ++ "." ++ extension) :
    fileStem path = stem := by
  have hname : fileNameChars path.toList = stem.toList ++ '.' :: extension.toList := by
    have hchars := congrArg String.toList h
    rw [fileName, onChars, String.toList_ofList] at hchars
    rw [hchars]
    simp
  rw [fileStem, onChars, fileStemChars, hname, cutExtension_append hstem hdot, String.ofList_toList]

/-- A name has an extension if something stands in front of its last dot. -/
theorem cutExtension_eq_some_iff {name extension : List Char} :
    (cutExtension name).2 = some extension ↔
      ∃ stem, stem ≠ [] ∧ name = stem ++ '.' :: extension ∧ '.' ∉ extension := by
  constructor
  · intro h
    unfold cutExtension at h
    dsimp only at h
    split at h
    · cases h
    · cases h
    · next c before hbusy hdrop =>
        -- The last dot is the first one from behind.
        rcases exists_mark_of_dropWhile hdrop with ⟨-, hmark, hname⟩
        rw [← Option.some.inj h]
        refine ⟨before.reverse, ?_, ?_, ?_⟩
        · rintro hnil
          exact hbusy (List.reverse_eq_nil_iff.mp hnil)
        · have hsplit := congrArg List.reverse hname
          rwa [List.reverse_reverse, List.reverse_append, List.reverse_cons,
            List.append_assoc] at hsplit
        · rwa [List.mem_reverse]
  · rintro ⟨stem, hstem, rfl, hdot⟩
    exact congrArg Prod.snd (cutExtension_append hstem hdot)

/-! ## Scripts -/

theorem pieces_of_notMem {name : String} (h : '/' ∉ name.toList) : pieces name = [name.toList] :=
  List.splitOn_eq_singleton h

/-- An idle name and a double dot have no extension anyway. -/
theorem isScript_iff_cutExtension {name : String} (h : '/' ∉ name.toList) :
    isScript name = true ↔ (cutExtension name.toList).2 = some "xs".toList := by
  have hword : ∀ letters, String.ofList letters = "xs" ↔ letters = "xs".toList := by
    intro letters
    rw [← String.toList_inj, String.toList_ofList]
  -- A name is a path of one segment, and it is read by the rule for paths.
  rw [isScript, decide_eq_true_iff, extension, segments, pieces_of_notMem h]
  by_cases hidle : isIdle name.toList = true
  · rw [List.filter_cons_of_neg (by simp [hidle])]
    -- The segments that are passed over are nothing and a single dot.
    rcases Bool.or_eq_true_iff.mp hidle with hnil | hdot
    · rw [of_decide_eq_true hnil]
      decide
    · rw [of_decide_eq_true hdot]
      decide
  · rw [List.filter_cons_of_pos (by simp [hidle])]
    change (if isAscent name.toList then none else _) = _ ↔ _
    split
    · next hascent =>
        rw [of_decide_eq_true hascent]
        decide
    · rw [Option.map_eq_some_iff]
      simp only [hword, exists_eq_right]
      rfl

/-- A name without a slash is that of a script if it is the extension with something in
    front of it. -/
theorem isScript_iff {name : String} (h : '/' ∉ name.toList) :
    isScript name = true ↔ ∃ stem, stem ≠ "" ∧ name = stem ++ ".xs" := by
  rw [isScript_iff_cutExtension h, cutExtension_eq_some_iff]
  constructor
  · rintro ⟨stem, hstem, hname, -⟩
    refine ⟨String.ofList stem, ?_, ?_⟩
    · exact fun hnil => hstem (by rw [← String.toList_ofList (l := stem), hnil]; rfl)
    · rw [← String.toList_inj, String.toList_append, String.toList_ofList, hname]
      rfl
  · rintro ⟨stem, hstem, rfl⟩
    refine ⟨stem.toList, ?_, ?_, by decide⟩
    · exact fun hnil => hstem (String.toList_eq_nil_iff.mp hnil)
    · rw [String.toList_append]
      rfl

end Text

end StackScript
