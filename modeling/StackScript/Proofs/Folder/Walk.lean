import StackScript.Folder.Walk
import StackScript.Proofs.Folder.Tree

/-!
# Files Read after They Were Written

What is written to a path is what is read from it. The path is followed twice, in
the tree before and in the tree after the change, so it has to lead to the same
place again. It does because the tree only grows: a segment that found its folder
finds it again. Only the last segment is another matter, and what it may be is
seen from the write having succeeded. It is a proper name that leads to a file or
to nothing; an idle one asks for a folder, and one that leads upwards finds one.

## Main definitions

* `IsName`: A segment that names an entry of a folder.
* `FileTree.TakesFile`: A file can be set at a path, and where.

## Theorems

* `bind_eq_ok_iff`: A computation in two steps that comes to its end.
* `advance_cases`: What a segment can do.
* `advanceAll_grows`: A path leads to the same location in a grown tree.
* `exists_lookAt_advanceAll`: A path that can be followed leads to something.
* `takesFile_of_writeFile`: What a write that succeeds has found.
* `readBytes_writeFile`: What was written is read.
-/

namespace StackScript

/-- A computation in two steps that comes to its end. -/
theorem bind_eq_ok_iff {ε α β : Type} {first : Except ε α} {next : α → Except ε β} {result : β} :
    (first >>= next) = .ok result ↔ ∃ value, first = .ok value ∧ next value = .ok result := by
  cases first with
  | ok value =>
      constructor
      · exact fun h => ⟨value, rfl, h⟩
      · rintro ⟨_, hvalue, h⟩
        cases hvalue
        exact h
  | error cause =>
      constructor
      · exact fun h => nomatch h
      · rintro ⟨_, hvalue, -⟩
        cases hvalue

/-- The segment names an entry of a folder, and is not too long for that. -/
structure IsName (piece : List Char) : Prop where
  /-- It leads somewhere. -/
  busy : Text.isIdle piece = false
  /-- It does not lead upwards. -/
  downward : Text.isAscent piece = false
  /-- It is a name that an entry can have. -/
  short : ¬ maxNameLength < byteLength piece

namespace FileTree

variable {tree grown : FileTree} {location next : Location} {piece : List Char}
  {entries : List (String × FileTree)} {names : List String}

/-! ## One Segment -/

/-- A segment is of one of four kinds, in the order in which they are told apart. -/
theorem piece_cases (piece : List Char) :
    Text.isIdle piece = true ∨
      (Text.isIdle piece = false ∧ Text.isAscent piece = true) ∨
        (Text.isIdle piece = false ∧ Text.isAscent piece = false ∧
          maxNameLength < byteLength piece) ∨
          IsName piece := by
  cases hidle : Text.isIdle piece with
  | true => exact .inl rfl
  | false =>
      cases hascent : Text.isAscent piece with
      | true => exact .inr (.inl ⟨rfl, rfl⟩)
      | false =>
          by_cases hlong : maxNameLength < byteLength piece
          · exact .inr (.inr (.inl ⟨rfl, rfl, hlong⟩))
          · exact .inr (.inr (.inr ⟨hidle, hascent, hlong⟩))

theorem advance_idle (h : tree.lookAt location = .ok (folder entries))
    (hidle : Text.isIdle piece = true) : tree.advance location piece = .ok location := by
  rw [advance, h]
  exact if_pos hidle

-- One that leads upwards leads to the folder above.
theorem advance_ascent (h : tree.lookAt location = .ok (folder entries))
    (hbusy : Text.isIdle piece = false) (hascent : Text.isAscent piece = true) :
    tree.advance location piece = .ok location.above := by
  rw [advance, h]
  exact (if_neg (Bool.eq_false_iff.mp hbusy)).trans (if_pos hascent)

/-- One that is too long leads nowhere. -/
theorem advance_long (h : tree.lookAt location = .ok (folder entries))
    (hbusy : Text.isIdle piece = false) (hdown : Text.isAscent piece = false)
    (hlong : maxNameLength < byteLength piece) :
    tree.advance location piece = .error .tooLong := by
  rw [advance, h]
  exact (if_neg (Bool.eq_false_iff.mp hbusy)).trans
    ((if_neg (Bool.eq_false_iff.mp hdown)).trans (if_pos hlong))

/-- A name leads to the entry that has it, if there is one. -/
theorem advance_name (h : tree.find names = .ok (folder entries)) (hname : IsName piece) :
    tree.advance (.inside names) piece =
      match child? entries (String.ofList piece) with
      | some _ => .ok (.inside (names ++ [String.ofList piece]))
      | none => .error .notFound := by
  have hlook : tree.lookAt (.inside names) = .ok (folder entries) := h
  rw [advance, hlook]
  refine (if_neg (Bool.eq_false_iff.mp hname.busy)).trans
    ((if_neg (Bool.eq_false_iff.mp hname.downward)).trans ((if_neg hname.short).trans ?_))
  dsimp only
  cases child? entries (String.ofList piece) <;> rfl

theorem advance_outside (tree : FileTree) (hname : IsName piece) :
    tree.advance .outside piece = .error .notFound :=
  (if_neg (Bool.eq_false_iff.mp hname.busy)).trans
    ((if_neg (Bool.eq_false_iff.mp hname.downward)).trans (if_neg hname.short))

/-- A segment is only followed from a folder, and then stays there, leads upwards
    or finds an entry. -/
theorem advance_cases (h : tree.advance location piece = .ok next) :
    ∃ entries, tree.lookAt location = .ok (folder entries) ∧
      (Text.isIdle piece = true ∧ next = location ∨
        Text.isIdle piece = false ∧ Text.isAscent piece = true ∧ next = location.above ∨
        ∃ names below, location = .inside names ∧ IsName piece ∧
          child? entries (String.ofList piece) = some below ∧
          next = .inside (names ++ [String.ofList piece])) := by
  rcases bind_eq_ok_iff.mp h with ⟨found, hlook, hnext⟩
  cases found with
  | file bytes => cases hnext
  | folder entries =>
      refine ⟨entries, hlook, ?_⟩
      -- In a folder each kind of segment does one thing, and a name that is too long does
      -- nothing.
      rcases piece_cases piece with hidle | ⟨hbusy, hascent⟩ | ⟨hbusy, hdown, hlong⟩ | hname
      · rw [advance_idle hlook hidle] at h
        exact .inl ⟨hidle, (Except.ok.inj h).symm⟩
      · rw [advance_ascent hlook hbusy hascent] at h
        exact .inr (.inl ⟨hbusy, hascent, (Except.ok.inj h).symm⟩)
      · rw [advance_long hlook hbusy hdown hlong] at h
        cases h
      · cases location with
        | outside =>
            rw [advance_outside tree hname] at h
            cases h
        | inside names =>
            rw [advance_name hlook hname] at h
            cases hchild : child? entries (String.ofList piece) with
            | none =>
                rw [hchild] at h
                cases h
            | some below =>
                rw [hchild] at h
                exact .inr (.inr ⟨names, below, rfl, hname, rfl, (Except.ok.inj h).symm⟩)

/-- Nothing is found only where a name is missing in a folder. -/
theorem advance_eq_notFound {found : FileTree} (hfound : tree.find names = .ok found)
    (h : tree.advance (.inside names) piece = .error .notFound) :
    ∃ entries, tree.find names = .ok (folder entries) ∧ IsName piece ∧
      child? entries (String.ofList piece) = none := by
  have hlook : tree.lookAt (.inside names) = .ok found := hfound
  cases found with
  | file bytes =>
      rw [advance, hlook] at h
      cases h
  | folder entries =>
      rcases piece_cases piece with hidle | ⟨hbusy, hascent⟩ | ⟨hbusy, hdown, hlong⟩ | hname
      · rw [advance_idle hlook hidle] at h
        cases h
      · rw [advance_ascent hlook hbusy hascent] at h
        cases h
      · rw [advance_long hlook hbusy hdown hlong] at h
        cases h
      · refine ⟨entries, hfound, hname, ?_⟩
        rw [advance_name hfound hname] at h
        cases hchild : child? entries (String.ofList piece) with
        | none => rfl
        | some below =>
            rw [hchild] at h
            cases h

/-! ## Whole Paths -/

/-- A folder is a folder in a grown tree, and has entries of the same names. -/
theorem lookAt_grows (hgrows : Grows tree grown) (h : tree.lookAt location = .ok (folder entries)) :
    ∃ others, grown.lookAt location = .ok (folder others) := by
  cases location with
  | outside => exact ⟨[], rfl⟩
  | inside names =>
      rcases hgrows names _ h with ⟨kept, hkept, hfolder⟩
      rcases (hfolder trivial).exists_entries with ⟨others, rfl⟩
      exact ⟨others, hkept⟩

/-- Entries are not lost. -/
theorem child?_grows {others : List (String × FileTree)} {name : String} {below : FileTree}
    (hgrows : Grows tree grown) (h : tree.find names = .ok (folder entries))
    (hother : grown.find names = .ok (folder others)) (hchild : child? entries name = some below) :
    ∃ kept, child? others name = some kept := by
  have hbelow : tree.find (names ++ [name]) = .ok below := by
    rw [find_append_singleton h, hchild]
  rcases hgrows _ _ hbelow with ⟨found, hfound, -⟩
  rw [find_append_singleton hother] at hfound
  cases hkept : child? others name with
  | some kept => exact ⟨kept, rfl⟩
  | none => rw [hkept] at hfound; cases hfound

/-- A step that could be taken can be taken in a tree that has grown, and leads to the same
    place. -/
theorem advance_grows (hgrows : Grows tree grown) (h : tree.advance location piece = .ok next) :
    grown.advance location piece = .ok next := by
  rcases advance_cases h with ⟨entries, hlook, hcases⟩
  rcases lookAt_grows hgrows hlook with ⟨others, hother⟩
  rcases hcases with ⟨hidle, rfl⟩ | ⟨hbusy, hascent, rfl⟩ | ⟨names, below, rfl, hname, hchild, rfl⟩
  · exact advance_idle hother hidle
  · exact advance_ascent hother hbusy hascent
  · rcases child?_grows hgrows hlook hother hchild with ⟨kept, hkept⟩
    rw [advance_name hother hname, hkept]

/-- A path leads to the same location in a grown tree. -/
theorem advanceAll_grows (hgrows : Grows tree grown) {pieces : List (List Char)}
    (h : tree.advanceAll location pieces = .ok next) :
    grown.advanceAll location pieces = .ok next := by
  induction pieces generalizing location with
  | nil => exact h
  | cons piece pieces ih =>
      rw [advanceAll, List.foldlM_cons, bind_eq_ok_iff] at h ⊢
      rcases h with ⟨middle, hmiddle, hrest⟩
      exact ⟨middle, advance_grows hgrows hmiddle, ih hrest⟩

theorem advanceAll_append_singleton (location : Location) (pieces : List (List Char))
    (last : List Char) :
    tree.advanceAll location (pieces ++ [last]) =
      tree.advanceAll location pieces >>= fun middle => tree.advance middle last := by
  simp only [advanceAll, List.foldlM_append, List.foldlM_cons, List.foldlM_nil, bind_pure]

/-- Above everything there is a folder. -/
theorem lookAt_above {found : FileTree} (h : tree.lookAt location = .ok found) :
    ∃ entries, tree.lookAt location.above = .ok (folder entries) := by
  match location with
  | .outside => exact ⟨[], rfl⟩
  | .inside [] => exact ⟨[], rfl⟩
  | .inside (name :: names) =>
      have hsplit : (name :: names).dropLast ++ [(name :: names).getLast (List.cons_ne_nil _ _)] =
          name :: names := List.dropLast_concat_getLast _
      have hfind : tree.find (name :: names) = .ok found := h
      rw [← hsplit] at hfind
      exact exists_folder_above hfind

/-- The top of the tree is there, and so is what is outside. -/
theorem exists_lookAt_start (tree : FileTree) (path : String) :
    ∃ found, tree.lookAt (.start path) = .ok found := by
  rw [Location.start]
  split
  · exact ⟨empty, rfl⟩
  · exact ⟨tree, rfl⟩

/-- A step leads to something. -/
theorem exists_lookAt_advance (h : tree.advance location piece = .ok next) :
    ∃ found, tree.lookAt next = .ok found := by
  rcases advance_cases h with ⟨entries, hlook, hcases⟩
  rcases hcases with ⟨-, rfl⟩ | ⟨-, -, rfl⟩ | ⟨names, below, rfl, -, hchild, rfl⟩
  · exact ⟨_, hlook⟩
  · rcases lookAt_above hlook with ⟨others, habove⟩
    exact ⟨_, habove⟩
  · refine ⟨below, ?_⟩
    change tree.find (names ++ [String.ofList piece]) = .ok below
    rw [find_append_singleton hlook, hchild]

/-- A path that can be followed leads to something. -/
theorem exists_lookAt_advanceAll {pieces : List (List Char)} {found : FileTree}
    (hstart : tree.lookAt location = .ok found) (h : tree.advanceAll location pieces = .ok next) :
    ∃ found, tree.lookAt next = .ok found := by
  induction pieces generalizing location found with
  | nil =>
      cases h
      exact ⟨found, hstart⟩
  | cons piece pieces ih =>
      rw [advanceAll, List.foldlM_cons, bind_eq_ok_iff] at h
      rcases h with ⟨middle, hmiddle, hrest⟩
      rcases exists_lookAt_advance hmiddle with ⟨other, hother⟩
      exact ih hother hrest

/-! ## Files -/

/-- A file can be set at a path, as the entry of a name in the folder at a place. -/
structure TakesFile (tree : FileTree) (path : String) (names : List String) (last : List Char) :
    Prop where
  /-- The path is followed at all. -/
  allowed : admitPath (Text.pieces path) = .ok ()
  /-- It leads to the folder, with the name behind it. -/
  reached : ∃ before, Text.pieces path = before ++ [last] ∧
    tree.advanceAll (.start path) before = .ok (.inside names)
  /-- The folder can have an entry of that name. -/
  isName : IsName last
  /-- There is a folder, in which no other folder has that name. -/
  vacant : ∃ entries, tree.find names = .ok (folder entries) ∧
    ∀ old, child? entries (String.ofList last) = some old → ¬ old.IsFolder

/-- A last segment that is not idle is the one in front of which empty ones would be left
    out. -/
theorem pieces_eq_of_not_idle {path : String} {before : List (List Char)} {last : List Char}
    (hbusy : Text.isIdle ((Text.pieces path).getLastD []) = false)
    (h : (Text.pieces path).reverse.dropWhile (· = []) = last :: before) :
    Text.pieces path = before.reverse ++ [last] ∧ Text.isIdle last = false := by
  rcases List.eq_nil_or_concat (Text.pieces path) with hnil | ⟨front, final, hpieces⟩
  · rw [hnil] at h
    cases h
  · rw [List.concat_eq_append] at hpieces
    rw [hpieces, List.getLastD_concat] at hbusy
    -- The last segment is not empty, so none is dropped from the end.
    have hfinal : final ≠ [] := by
      rintro rfl
      cases hbusy
    rw [hpieces, List.reverse_concat, List.dropWhile_cons_of_neg (by simpa using hfinal)] at h
    cases h
    rw [List.reverse_reverse]
    exact ⟨hpieces, hbusy⟩

/-- A write that succeeds has followed the path up to its last segment, which is
    not idle, and has set the file at what that leads to, if it is no folder, or
    else where there is nothing. -/
theorem writeFile_cases {path : String} {bytes : ByteArray} {written : FileTree}
    (h : tree.writeFile path bytes = .ok written) :
    ∃ before last location, Text.pieces path = before ++ [last] ∧ Text.isIdle last = false ∧
      admitPath (Text.pieces path) = .ok () ∧
      tree.advanceAll (.start path) before = .ok location ∧
      ((∃ names, tree.advance location last = .ok (.inside names) ∧
          tree.isFolderAt (.inside names) = false ∧ written = tree.set (file bytes) names) ∨
        ∃ names, location = .inside names ∧ tree.advance location last = .error .notFound ∧
          written = tree.set (file bytes) (names ++ [String.ofList last])) := by
  rw [writeFile] at h
  split at h
  · cases h
  · next last before hlast =>
      rcases bind_eq_ok_iff.mp h with ⟨⟨location, reached⟩, happroach, hset⟩
      rw [approach, bind_eq_ok_iff] at happroach
      -- The path is admitted, and followed up to its last segment.
      rcases happroach with ⟨⟨⟩, hallowed, happroach⟩
      rw [bind_eq_ok_iff] at happroach
      rcases happroach with ⟨middle, hmiddle, hpair⟩
      cases hpair
      clear h
      split at hset
      · cases hset
      · next hpair =>
          split at hset
          · cases hset
          · next hbusy =>
              rw [Bool.not_eq_true] at hbusy
              -- The last segment asks for no folder.
              rcases pieces_eq_of_not_idle hbusy hlast with ⟨hpieces, hidle⟩
              refine ⟨before.reverse, last, location, hpieces, hidle, hpieces ▸ hallowed,
                hmiddle, ?_⟩
              rw [Prod.mk.injEq] at hpair
              rcases hpair with ⟨rfl, hreached⟩
              rw [hreached]
              split at hset
              · cases hset
              · split at hset
                · cases hset
                · next hfolder =>
                    rw [Bool.not_eq_true] at hfolder
                    -- A file is there and is replaced, or nothing is and a file is made.
                    exact .inl ⟨_, rfl, hfolder, (Except.ok.inj hset).symm⟩
              · exact .inr ⟨_, rfl, rfl, (Except.ok.inj hset).symm⟩
              · cases hset

theorem isFolderAt_eq_true {found : FileTree} (h : tree.lookAt location = .ok found)
    (hfolder : found.IsFolder) : tree.isFolderAt location = true := by
  rcases hfolder.exists_entries with ⟨entries, rfl⟩
  rw [isFolderAt, h]

/-- What a write that succeeds has found. -/
theorem takesFile_of_writeFile {path : String} {bytes : ByteArray} {written : FileTree}
    (h : tree.writeFile path bytes = .ok written) :
    ∃ names last, TakesFile tree path names last ∧
      written = tree.set (file bytes) (names ++ [String.ofList last]) := by
  rcases writeFile_cases h with ⟨before, last, location, hpieces, hbusy, hallowed, hbefore, hcases⟩
  rcases hcases with ⟨place, hreached, hfile, rfl⟩ | ⟨names, rfl, hreached, rfl⟩
  · -- The name was found, and a segment that leads upwards finds a folder.
    rcases advance_cases hreached with ⟨entries, hlook, hsteps⟩
    rcases hsteps with ⟨hidle, -⟩ | ⟨-, -, hplace⟩ | ⟨names, below, rfl, hname, hchild, hplace⟩
    · -- The last segment is not idle, so it leads upwards or is a name.
      rw [hbusy] at hidle
      cases hidle
    · rcases lookAt_above hlook with ⟨others, habove⟩
      rw [hplace, isFolderAt_eq_true habove trivial] at hfile
      cases hfile
    · cases hplace
      refine ⟨names, last, ⟨hallowed, ⟨before, hpieces, hbefore⟩, hname, entries, hlook, ?_⟩, rfl⟩
      intro old hold hfolder
      have hfind : tree.lookAt (.inside (names ++ [String.ofList last])) = .ok old := by
        change tree.find _ = _
        rw [find_append_singleton hlook, hold]
      rw [isFolderAt_eq_true hfind hfolder] at hfile
      cases hfile
  · -- Nothing has the name.
    rcases exists_lookAt_start tree path with ⟨top, htop⟩
    rcases exists_lookAt_advanceAll htop hbefore with ⟨found, hfound⟩
    rcases advance_eq_notFound hfound hreached with ⟨entries, hfind, hname, hnone⟩
    refine ⟨names, last, ⟨hallowed, ⟨before, hpieces, hbefore⟩, hname, entries, hfind, ?_⟩, rfl⟩
    intro old hold
    rw [hnone] at hold
    cases hold

/-- What was written is read. -/
theorem readBytes_writeFile {path : String} {bytes : ByteArray} {written : FileTree}
    (h : tree.writeFile path bytes = .ok written) : written.readBytes path = .ok bytes := by
  rcases takesFile_of_writeFile h with ⟨names, last, htakes, rfl⟩
  rcases htakes.reached with ⟨before, hpieces, hbefore⟩
  rcases htakes.vacant with ⟨entries, hfind, hold⟩
  have hgrows := grows_set hfind hold (file bytes)
  have hself := find_set_self hfind (String.ofList last) (file bytes)
  have hfollow : (tree.set (file bytes) (names ++ [String.ofList last])).follow path =
      .ok (.inside (names ++ [String.ofList last])) := by
    -- The last segment leads from a folder to the file, and all others lead where they did.
    rcases exists_folder_above hself with ⟨others, hothers⟩
    rw [find_append_singleton hothers] at hself
    rw [follow, htakes.allowed]
    change advanceAll _ _ _ = _
    rw [hpieces, advanceAll_append_singleton, advanceAll_grows hgrows hbefore]
    change advance _ _ _ = _
    rw [advance_name hothers htakes.isName]
    cases hchild : child? others (String.ofList last) with
    | some below => rfl
    | none => rw [hchild] at hself; cases hself
  rw [readBytes, at?, hfollow]
  change (find _ _ >>= _) = _
  rw [hself]
  rfl

theorem readText_writeFile {path text : String} {written : FileTree}
    (h : tree.writeFile path text.toUTF8 = .ok written) : written.readText path = .ok text := by
  rw [readText, readBytes_writeFile h]
  exact decodeText_toUTF8 text

end FileTree

end StackScript
