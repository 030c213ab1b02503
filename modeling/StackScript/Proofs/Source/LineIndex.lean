import StackScript.Proofs.Source.Position
import StackScript.Source.LineIndex

/-!
# The Line Table Follows the Rule

`LineIndex.position` looks an offset up in a table and counts characters from
the beginning of a line. `Position.after` reads the text from its beginning.
Between two characters of the text both give the same position. Inside of a
character the count fails, and the line is all that the table still knows.

The table is built by a walk that knows offsets only, not lines, so the
induction along the text carries the line in progress: where it began, what
has been read of it, and the number of lines in front of it.

## Main definitions

* `positionIn`: The position of an offset among some lines of a text.

## Theorems

* `charsInBytes_append`: The bytes of some characters hold these characters.
* `lt_of_mem_laterLineStarts`: Later lines begin later.
* `LineIndex.position_append`: The position between two characters.
* `LineIndex.position_inside`: The position inside of a character.
-/

namespace StackScript

/-- The bytes of whole characters are as many characters. -/
theorem charsInBytes_append (cs ds : List Char) :
    charsInBytes (byteLength cs) (cs ++ ds) = some cs.length := by
  induction cs with
  | nil => cases ds <;> rfl
  | cons c cs ih =>
      have hc : 0 < c.utf8Size := c.utf8Size_pos
      have hsub : c.utf8Size + byteLength cs - 1 + 1 - c.utf8Size = byteLength cs := by
        omega
      rw [byteLength_cons,
        show c.utf8Size + byteLength cs = c.utf8Size + byteLength cs - 1 + 1 by omega,
        List.cons_append, charsInBytes, if_pos (by omega), hsub, ih]
      rfl

/-- Bytes that end inside of a character hold no number of characters. -/
theorem charsInBytes_inside (cs : List Char) {c : Char} (ds : List Char) {n : Nat} (hpos : 0 < n)
    (hlt : n < c.utf8Size) : charsInBytes (byteLength cs + n) (cs ++ c :: ds) = none := by
  induction cs with
  | nil =>
      rw [byteLength_nil, Nat.zero_add, List.nil_append, show n = n - 1 + 1 by omega,
        charsInBytes, if_neg (by omega)]
  | cons d cs ih =>
      -- The first character fits, so one byte less is left than would be needed.
      have hd : 0 < d.utf8Size := d.utf8Size_pos
      have hsub : d.utf8Size + byteLength cs + n - 1 + 1 - d.utf8Size = byteLength cs + n := by
        omega
      rw [byteLength_cons,
        show d.utf8Size + byteLength cs + n = d.utf8Size + byteLength cs + n - 1 + 1 by omega,
        List.cons_append, charsInBytes, if_pos (by omega), hsub, ih]
      rfl

/-- Every later line begins behind the place from which it is looked for. -/
theorem lt_of_mem_laterLineStarts {offset : Nat} {cs : List Char} {line : LineStart}
    (h : line ∈ laterLineStarts offset cs) : offset < line.offset := by
  induction cs generalizing offset with
  | nil => cases h
  | cons c cs ih =>
      rw [laterLineStarts] at h
      split at h
      · rcases List.mem_cons.mp h with rfl | h
        · exact Nat.lt_succ_self offset
        · exact Nat.lt_trans (Nat.lt_succ_self offset) (ih h)
      · have hc : 0 < c.utf8Size := c.utf8Size_pos
        exact Nat.lt_trans (by omega) (ih h)

/-- The position of an offset among some line starts, with `above` lines in
    front of them. -/
def positionIn (above : Nat) (starts : List LineStart) (target : Nat) : Position :=
  let reached := starts.takeWhile (·.offset ≤ target)
  match reached.getLast? with
  | some line =>
      ⟨above + reached.length, (charsInBytes (target - line.offset) line.text).getD 0 + 1⟩
  | none => Position.start

/-- An offset behind the beginning of the second line is not on the first. -/
theorem positionIn_next (above : Nat) (first second : LineStart) (later : List LineStart)
    {target : Nat} (hfirst : first.offset ≤ target) (hsecond : second.offset ≤ target) :
    positionIn above (first :: second :: later) target =
      positionIn (above + 1) (second :: later) target := by
  unfold positionIn
  simp only [List.takeWhile_cons, hfirst, hsecond, decide_true, if_true,
    List.getLast?_cons_cons, List.length_cons]
  rw [List.getLast?_cons]
  simp only [Nat.add_assoc, Nat.add_comm 1]

/-- An offset in front of all later lines is on the first. -/
theorem positionIn_first (above : Nat) (first : LineStart) (later : List LineStart)
    {target : Nat} (hfirst : first.offset ≤ target)
    (hlater : ∀ line ∈ later, target < line.offset) :
    positionIn above (first :: later) target =
      ⟨above + 1, (charsInBytes (target - first.offset) first.text).getD 0 + 1⟩ := by
  -- The lines rise, so the first that lies behind the offset ends the search.
  have hnone : later.takeWhile (·.offset ≤ target) = [] := by
    cases later with
    | nil => rfl
    | cons line later =>
        have hline := hlater line List.mem_cons_self
        rw [List.takeWhile_cons, if_neg]
        simpa using hline
  unfold positionIn
  simp only [List.takeWhile_cons, hfirst, decide_true, if_true, hnone, List.getLast?_singleton,
    List.length_singleton]

/-- The search starts on a line of which `read` has been passed already, and reads `ahead`.
    A line feed there hands the search over to the next line, any other character is one
    more that has been passed. -/
theorem positionIn_read (above start : Nat) (read ahead behind : List Char) (n : Nat) :
    ∃ above' start' read',
      positionIn above
          (⟨start, read ++ (ahead ++ behind)⟩ ::
            laterLineStarts (start + byteLength read) (ahead ++ behind))
          (start + byteLength read + byteLength ahead + n) =
        positionIn above'
          (⟨start', read' ++ behind⟩ :: laterLineStarts (start' + byteLength read') behind)
          (start' + byteLength read' + n) ∧
      Position.mk (above' + 1) (read'.length + 1) =
        (Position.mk (above + 1) (read.length + 1)).after ahead := by
  induction ahead generalizing above start read with
  | nil => exact ⟨above, start, read, rfl, rfl⟩
  | cons c ahead ih =>
      rw [List.cons_append, laterLineStarts, Position.after_cons, byteLength_cons]
      -- A line feed begins a line of the table, any other character makes the line longer.
      by_cases h : c = '\n'
      · have hsize : c.utf8Size = 1 := by
          rw [h]
          rfl
        rw [if_pos h, hsize, positionIn_next _ _ _ _ (by simp only []; omega)
          (by simp only []; omega), h, Position.afterChar_newline]
        have hrest := ih (above + 1) (start + byteLength read + 1) []
        rw [byteLength_nil, Nat.add_zero, List.nil_append] at hrest
        rw [← Nat.add_assoc]
        exact hrest
      · have hrest := ih above start (read ++ [c])
        rw [byteLength_append, byteLength_cons, byteLength_nil, Nat.add_zero,
          List.append_assoc, List.singleton_append, List.length_append,
          List.length_singleton] at hrest
        rw [if_neg h, Position.afterChar_of_ne _ h]
        simp only [Nat.add_assoc] at hrest ⊢
        exact hrest

namespace LineIndex

/-- An offset behind the end counts as the end. -/
theorem position_eq_positionIn (cs : List Char) (offset : Nat) :
    (ofChars cs).position offset =
      positionIn 0 (ofChars cs).starts (min offset (byteLength cs)) := by
  unfold position positionIn
  simp only [Nat.zero_add]
  rfl

/-- The line of an offset is that of the characters in front of it, and the search goes on
    from the end of these. -/
theorem position_read (before behind : List Char) {n : Nat} (h : n ≤ byteLength behind) :
    ∃ above start read,
      (ofChars (before ++ behind)).position (byteLength before + n) =
        positionIn above
          (⟨start, read ++ behind⟩ :: laterLineStarts (start + byteLength read) behind)
          (start + byteLength read + n) ∧
      Position.mk (above + 1) (read.length + 1) = Position.start.after before := by
  have hread := positionIn_read 0 0 [] before behind n
  simp only [byteLength_nil, Nat.zero_add, List.nil_append, List.length_nil] at hread
  rw [position_eq_positionIn, byteLength_append, Nat.min_eq_left (Nat.add_le_add_left h _)]
  exact hread

/-- Between two characters the line table gives the position by the rule. -/
theorem position_append (before behind : List Char) :
    (ofChars (before ++ behind)).position (byteLength before) = Position.start.after before := by
  rcases position_read before behind (Nat.zero_le _) with ⟨above, start, read, hposition, hrule⟩
  rw [Nat.add_zero, Nat.add_zero] at hposition
  rw [hposition, ← hrule, positionIn_first _ _ _ (Nat.le_add_right _ _)
    fun _ h => lt_of_mem_laterLineStarts h, Nat.add_sub_cancel_left, charsInBytes_append]
  rfl

/-- Inside of a character the line table gives the first column of the line. -/
theorem position_inside (before : List Char) {c : Char} (behind : List Char) {n : Nat}
    (hpos : 0 < n) (hlt : n < c.utf8Size) :
    (ofChars (before ++ c :: behind)).position (byteLength before + n) =
      ⟨(Position.start.after before).line, 1⟩ := by
  -- A line feed is one byte long, so an offset is not inside of one.
  have hline : c ≠ '\n' := by
    rintro rfl
    exact Nat.not_lt.mpr hpos hlt
  have hle : n ≤ byteLength (c :: behind) :=
    Nat.le_trans (Nat.le_of_lt hlt) (Nat.le_add_right _ _)
  rcases position_read before (c :: behind) hle with ⟨above, start, read, hposition, hrule⟩
  -- The lines that begin behind this character begin behind the offset as well.
  have hlater : ∀ line ∈ laterLineStarts (start + byteLength read) (c :: behind),
      start + byteLength read + n < line.offset := by
    intro line hmem
    rw [laterLineStarts, if_neg hline] at hmem
    have := lt_of_mem_laterLineStarts hmem
    omega
  have hcut : start + byteLength read + n - start = byteLength read + n := by omega
  rw [hposition, ← hrule, positionIn_first _ _ _ (by simp only []; omega) hlater, hcut,
    charsInBytes_inside read behind hpos hlt]
  rfl

end LineIndex

end StackScript
