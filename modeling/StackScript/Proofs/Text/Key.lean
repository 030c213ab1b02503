import StackScript.Proofs.Text.Path
import StackScript.Proofs.Text.Trim
import StackScript.Text.Key

/-!
# Keys along a Path

The keys of a path are those of its segments, without the segments that have
none. So a path may be cut at any of its slashes, and its keys are those of the
one part and then those of the other, however many slashes there are.

The last of them is where the file name begins, and that has one key or none. So
the keys of a path are those of its folder, and behind them that of the file
name, if it has one.

## Theorems

* `keySegments_slash`: The keys of a path that is cut at a slash.
* `keySegments_folder_append`: The keys of a name in a folder.
* `getLast?_keySegments`: The last key of a path is that of its file name.
* `nameKey_trim`: Blanks around a name make no difference to its key.
-/

namespace StackScript

namespace Text

/-- A path may be cut at a slash, and nothing is left over of the slash. -/
theorem keySegments_slash (front behind : String) :
    keySegments (front ++ "/" ++ behind) = keySegments front ++ keySegments behind := by
  rw [keySegments, toList_slash, List.splitOn_append_cons_self, List.map_append, List.filter_append]
  rfl

/-- A name without a slash has one key or none. -/
theorem keySegments_of_notMem {name : String} (h : '/' ∉ name.toList) :
    keySegments name = [nameKey name].filter (· ≠ "") := by
  rw [keySegments, List.splitOn_eq_singleton h]
  rfl

theorem keySegments_slash_end (front : String) :
    keySegments (front ++ "/") = keySegments front := by
  have hcut := keySegments_slash front ""
  rwa [String.append_empty, show keySegments "" = [] from rfl, List.append_nil] at hcut

/-- The keys of a name in a folder are those of the folder and that of the name. -/
theorem keySegments_folder_append (path name : String) :
    keySegments (folder path ++ name) = keySegments (folder path) ++ keySegments name := by
  rcases folderChars_eq path.toList with hnone | ⟨above, habove⟩
  · have hfolder : folder path = "" := by rw [folder, onChars, hnone, String.ofList_nil]
    rw [hfolder, String.empty_append]
    rfl
  · have hfolder : folder path = String.ofList above ++ "/" := by
      rw [folder, onChars, habove, String.ofList_append]
    rw [hfolder, keySegments_slash, keySegments_slash_end]

/-- The last key of a path is that of its file name, if this has one. -/
theorem getLast?_keySegments {path : String} (h : nameKey (fileName path) ≠ "") :
    (keySegments path).getLast? = some (nameKey (fileName path)) := by
  have hkeys := keySegments_folder_append path (fileName path)
  rw [folder_append_fileName, keySegments_of_notMem (slash_notMem_fileName path),
    List.filter_cons_of_pos (by simpa using h), List.filter_nil] at hkeys
  rw [hkeys, List.getLast?_concat]

-- The table of blanks and that of word characters have no character in common.
theorem blankRanges_apart :
    (Unicode.blankRanges.all fun blank => Unicode.wordRanges.all fun word =>
      Nat.blt blank.2 word.1 || Nat.blt word.2 blank.1) = true := by
  decide +kernel

/-- A segment of blanks has no key. -/
theorem isKeyChar_of_isBlank {c : Char} (h : Unicode.isBlank c = true) : isKeyChar c = false := by
  rw [isKeyChar, Bool.and_eq_false_iff]
  refine Or.inl (Bool.eq_false_iff.mpr fun hword => ?_)
  rcases (Unicode.CodeRanges.contains_iff _ _).mp h with ⟨blank, hblank, hblank1, hblank2⟩
  rcases (Unicode.CodeRanges.contains_iff _ _).mp hword with ⟨word, hmem, hword1, hword2⟩
  have hapart := List.all_eq_true.mp (List.all_eq_true.mp blankRanges_apart blank hblank) word hmem
  rw [Bool.or_eq_true, Nat.blt_eq, Nat.blt_eq] at hapart
  omega

theorem lowerChar_ne_nil (c : Char) : Unicode.lowerChar c ≠ [] := by
  unfold Unicode.lowerChar
  split
  · exact List.cons_ne_nil _ _
  · split
    · exact List.cons_ne_nil _ _
    · exact List.cons_ne_nil _ _

/-- A name with a letter in it has a key. -/
theorem nameKey_ne_empty {name : String} {c : Char} (hc : c ∈ name.toList)
    (hkey : isKeyChar c = true) : nameKey name ≠ "" := by
  intro hempty
  have hchars : keyChars name.toList = [] := by
    rw [← String.toList_ofList (l := keyChars _)]
    exact String.toList_eq_nil_iff.mpr hempty
  exact lowerChar_ne_nil c
    (List.flatMap_eq_nil_iff.mp hchars c (List.mem_filter.mpr ⟨hc, hkey⟩))

/-- Blanks around a name make no difference to its key. -/
theorem nameKey_trim (name : String) : nameKey (onChars trim name) = nameKey name := by
  rcases exists_blanks_trim name.toList with ⟨front, behind, hname, hfront, hbehind⟩
  have hblanks {cs : List Char} (h : ∀ c ∈ cs, Unicode.isBlank c) : cs.filter isKeyChar = [] :=
    List.filter_eq_nil_iff.mpr fun c hc =>
      Bool.eq_false_iff.mp (isKeyChar_of_isBlank (h c hc))
  have hkept : name.toList.filter isKeyChar = (trim name.toList).filter isKeyChar := by
    rw [hname, List.filter_append, List.filter_append, hblanks hfront, hblanks hbehind,
      List.nil_append, List.append_nil, ← hname]
  rw [nameKey, nameKey, onChars, onChars, onChars, String.toList_ofList, keyChars, keyChars, hkept]

end Text

end StackScript
