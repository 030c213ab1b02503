import StackScript.Proofs.Indexed.Scan
import StackScript.Proofs.Source.LineIndex
import StackScript.Source.LineCursor

/-!
# Positions Looked Up by Index

The lookup in a line table is a binary search. It tells where the offset is in
the table or, if no line begins there, where it would have to be put in, and
then the line of the offset is the one in front of that. There is a line in
front: the first begins at nothing, which no offset is below. This is where the
difference could be negative and the index out of bounds.

A cursor reads the bytes between its place and the next offset. It goes back to
the beginning first if the offset is behind it, so the slice is never reversed.

## Main definitions

* `binarySearch`: Where an offset is in a sorted table, or where it would be.
* `Indexed.linePosition`: The position of an offset by the line table.
* `Indexed.advanceTo`, `Indexed.positions`: The positions by the running cursor.

## Theorems

* `linePosition_eq`: The lookup gives the position of the table.
* `positions_eq`: The cursor gives its positions.
-/

namespace StackScript

namespace Indexed

/-- Where the offset is in the sorted table, or where it would have to be put in. -/
def binarySearch (starts : List Nat) (offset : Nat) : Except Nat Nat :=
  let next := (starts.takeWhile (· < offset)).length
  if starts[next]? = some offset then .ok next else .error next

/-- The line of an offset, counted from nothing. -/
def lineOf (starts : List Nat) (offset : Nat) : Checked Nat :=
  match binarySearch starts offset with
  | .ok line => return line
  | .error next => checkedSub next 1

/-- The number of characters between two byte offsets, unless one of them is
    inside of a character or they are not in order. -/
def charsBetween (cs : List Char) (start stop : Nat) : Option Nat :=
  if start ≤ stop then
    (charsInBytes start cs).bind fun n => charsInBytes (stop - start) (cs.drop n)
  else
    none

/-- The position of the byte at `offset`, counted to the end of the text at
    most. -/
def linePosition (text : String) (offset : Nat) : Checked Position := do
  let target := min offset (byteLength text.toList)
  let starts := (LineIndex.ofText text).starts.map LineStart.offset
  let line ← lineOf starts target
  let start ← starts[line]?
  return ⟨line + 1, (charsBetween text.toList start target).getD 0 + 1⟩

/-- The cursor at `offset`, counted to the end of the text at most. -/
def advanceTo (cursor : LineCursor) (offset : Nat) : Checked LineCursor := do
  let target := min offset cursor.bytes.length
  let origin := if target < cursor.offset then cursor.rewind else cursor
  let passed ← checkedSlice origin.bytes origin.offset target
  return { origin with
    offset := target
    position := passed.foldl Position.afterByte origin.position }

/-- The positions of the offsets, asked for one after another. -/
def positions (cursor : LineCursor) : List Nat → Checked (List Position)
  | [] => return []
  | offset :: offsets => do
      let reached ← advanceTo cursor offset
      let others ← positions reached offsets
      return reached.position :: others

end Indexed

/-! ## The line table -/

/-- Every line feed is behind the one before it. -/
theorem laterLineStarts_pairwise (offset : Nat) (cs : List Char) :
    (laterLineStarts offset cs).Pairwise (·.offset < ·.offset) := by
  induction cs generalizing offset with
  | nil => exact .nil
  | cons c cs ih =>
      rw [laterLineStarts]
      split
      · exact .cons (fun _ h => lt_of_mem_laterLineStarts h) (ih _)
      · exact ih _

/-- A line begins behind a part of the text, and its offset is the length of that part. -/
theorem exists_front_of_laterLineStarts {offset : Nat} {cs : List Char} {line : LineStart}
    (h : line ∈ laterLineStarts offset cs) :
    ∃ front, cs = front ++ line.text ∧ line.offset = offset + byteLength front := by
  induction cs generalizing offset with
  | nil => cases h
  | cons c cs ih =>
      rw [laterLineStarts] at h
      split at h
      · next hc =>
        subst hc
        rcases List.mem_cons.mp h with rfl | h
        · exact ⟨['\n'], rfl, rfl⟩
        · rcases ih h with ⟨front, rfl, hoffset⟩
          exact ⟨'\n' :: front, rfl, by rw [hoffset, Nat.add_assoc]; rfl⟩
      · rcases ih h with ⟨front, rfl, hoffset⟩
        exact ⟨c :: front, rfl, by rw [hoffset, Nat.add_assoc]; rfl⟩

namespace LineIndex

variable (cs : List Char)

-- The first line begins at nothing, and all others behind a line feed.
theorem starts_pairwise : (ofChars cs).starts.Pairwise (·.offset < ·.offset) :=
  .cons (fun _ h => lt_of_mem_laterLineStarts h) (laterLineStarts_pairwise 0 cs)

theorem exists_front {line : LineStart} (h : line ∈ (ofChars cs).starts) :
    ∃ front, cs = front ++ line.text ∧ line.offset = byteLength front := by
  rcases List.mem_cons.mp h with rfl | h
  · exact ⟨[], rfl, rfl⟩
  · rcases exists_front_of_laterLineStarts h with ⟨front, hcs, hoffset⟩
    exact ⟨front, hcs, by rw [hoffset, Nat.zero_add]⟩

/-- The line of an offset parts the table: it and those in front of it begin at
    the offset or before, and the next one behind. -/
theorem exists_reached (target : Nat) :
    ∃ front line behind, (ofChars cs).starts = front ++ line :: behind ∧
      (ofChars cs).starts.takeWhile (·.offset ≤ target) = front ++ [line] ∧
      line.offset ≤ target ∧ ∀ next ∈ behind.head?, target < next.offset := by
  -- The lines that begin up to the offset are the first one and perhaps others, so there is
  -- a last one.
  rcases List.eq_nil_or_concat ((ofChars cs).starts.takeWhile (·.offset ≤ target)) with
    hnil | ⟨front, line, hreached⟩
  · exact absurd hnil (ofChars_reached_ne_nil cs target)
  rw [List.concat_eq_append] at hreached
  refine ⟨front, line, (ofChars cs).starts.dropWhile (·.offset ≤ target), ?_, hreached, ?_, ?_⟩
  · rw [← List.singleton_append, ← List.append_assoc, ← hreached,
      List.takeWhile_append_dropWhile]
  · have hmem : line ∈ (ofChars cs).starts.takeWhile (·.offset ≤ target) := by
      rw [hreached]
      exact List.mem_append_right _ (.head _)
    have hle := List.all_eq_true.mp List.all_takeWhile _ hmem
    exact of_decide_eq_true hle
  · intro next hnext
    have hhead := List.head?_dropWhile_not (fun line => decide (line.offset ≤ target))
      (ofChars cs).starts
    rw [Option.mem_def.mp hnext] at hhead
    exact Nat.lt_of_not_le (of_decide_eq_false hhead)

end LineIndex

/-! ## The lookup -/

namespace Indexed

/-- The search comes to the line at which the table is parted. -/
theorem lineOf_eq {front behind : List Nat} {start offset : Nat}
    (hsorted : (front ++ start :: behind).Pairwise (· < ·)) (hstart : start ≤ offset)
    (hnext : ∀ next ∈ behind.head?, offset < next) :
    lineOf (front ++ start :: behind) offset = some front.length := by
  -- All lines in front begin below the offset.
  have hfront : ∀ line ∈ front, decide (line < offset) = true := by
    intro line hline
    have hlt := (List.pairwise_append.mp hsorted).2.2 line hline start (.head _)
    exact decide_eq_true (Nat.lt_of_lt_of_le hlt hstart)
  rw [lineOf, binarySearch, List.takeWhile_append_of_pos hfront, List.takeWhile_cons]
  rcases Nat.lt_or_eq_of_le hstart with hlt | rfl
  · -- The offset is inside of the line, and would have to be put in behind its start.
    have hbehind : behind.takeWhile (· < offset) = [] := by
      cases behind with
      | nil => rfl
      | cons next behind =>
          have hle := Nat.le_of_lt (hnext next rfl)
          rw [List.takeWhile_cons, if_neg (by simpa using hle)]
    have hget : (front ++ start :: behind)[(front ++ [start]).length]? ≠ some offset := by
      rw [List.length_append, List.length_singleton,
        List.getElem?_append_right (Nat.le_add_right _ _), Nat.add_sub_cancel_left,
        List.getElem?_cons_succ, ← List.head?_eq_getElem?]
      exact fun h => Nat.lt_irrefl _ (hnext offset h)
    rw [decide_eq_true hlt, if_pos rfl, hbehind, if_neg hget]
    simp [checkedSub]
  · -- The line begins at the offset, and is found in the table.
    rw [decide_eq_false (Nat.lt_irrefl start)]
    simp

-- What is in front of the first cut is left out.
theorem charsBetween_append (front text : List Char) {stop : Nat} (h : byteLength front ≤ stop) :
    charsBetween (front ++ text) (byteLength front) stop =
      charsInBytes (stop - byteLength front) text := by
  rw [charsBetween, if_pos h, charsInBytes_append, Option.bind_some, List.drop_left]

/-- The lookup succeeds for every offset, and gives the position of the library. -/
theorem linePosition_eq (text : String) (offset : Nat) :
    linePosition text offset = some ((LineIndex.ofText text).position offset) := by
  rcases LineIndex.exists_reached text.toList (min offset (byteLength text.toList)) with
    ⟨front, line, behind, hstarts, hreached, hle, hnext⟩
  -- The line is found, and it is the last one that begins up to the offset.
  have hlookup : lineOf ((LineIndex.ofText text).starts.map LineStart.offset)
      (min offset (byteLength text.toList)) = some front.length := by
    have hsorted := List.pairwise_map.mpr (LineIndex.starts_pairwise text.toList)
    rw [hstarts, List.map_append, List.map_cons] at hsorted
    rw [LineIndex.ofText, hstarts, List.map_append, List.map_cons, lineOf_eq hsorted hle ?_,
      List.length_map]
    intro next hmem
    rw [List.head?_map] at hmem
    rcases Option.map_eq_some_iff.mp hmem with ⟨later, hlater, rfl⟩
    exact hnext later hlater
  have hget : ((LineIndex.ofText text).starts.map LineStart.offset)[front.length]? =
      some line.offset := by
    rw [LineIndex.ofText, hstarts, List.getElem?_map, List.getElem?_append_right (Nat.le_refl _),
      Nat.sub_self]
    rfl
  -- The characters from its start to the offset are counted inside of the line.
  have hcolumn : charsBetween text.toList line.offset (min offset (byteLength text.toList)) =
      charsInBytes (min offset (byteLength text.toList) - line.offset) line.text := by
    have hmem : line ∈ (LineIndex.ofChars text.toList).starts := by
      rw [hstarts]
      exact List.mem_append_right _ (.head _)
    rcases LineIndex.exists_front text.toList hmem with ⟨before, htext, hoffset⟩
    rw [hoffset] at hle ⊢
    rw [htext] at hle ⊢
    exact charsBetween_append before line.text hle
  have hposition : (LineIndex.ofText text).position offset =
      ⟨front.length + 1, (charsInBytes (min offset (byteLength text.toList) - line.offset)
        line.text).getD 0 + 1⟩ := by
    rw [LineIndex.ofText, LineIndex.position_eq_positionIn, positionIn, hreached]
    simp
  simp only [linePosition, hlookup, hget, hcolumn, hposition, Checked.bind_some,
    Option.pure_def]

/-! ## The cursor -/

/-- The cursor never slices backwards, since it goes back to the beginning first. -/
theorem advanceTo_eq (cursor : LineCursor) (offset : Nat) :
    advanceTo cursor offset = some (cursor.advanceTo offset) := by
  have hslice : ∀ origin : LineCursor, origin.bytes = cursor.bytes →
      origin.offset ≤ min offset cursor.bytes.length →
      checkedSlice origin.bytes origin.offset (min offset cursor.bytes.length) =
        some ((origin.bytes.drop origin.offset).take
          (min offset cursor.bytes.length - origin.offset)) := by
    intro origin hbytes hle
    rw [checkedSlice, if_pos ⟨hle, hbytes ▸ Nat.min_le_right _ _⟩, List.drop_take]
  unfold advanceTo LineCursor.advanceTo
  by_cases hback : min offset cursor.bytes.length < cursor.offset
  · simp only [if_pos hback, hslice cursor.rewind rfl (Nat.zero_le _), Checked.bind_some,
      Option.pure_def]
  · simp only [if_neg hback, hslice cursor rfl (Nat.le_of_not_lt hback), Checked.bind_some,
      Option.pure_def]

/-- Every offset is looked up from where the cursor stands. -/
theorem positions_eq (cursor : LineCursor) (offsets : List Nat) :
    positions cursor offsets = some (cursor.positions offsets) := by
  induction offsets generalizing cursor with
  | nil => rfl
  | cons offset offsets ih =>
      rw [positions, advanceTo_eq, Checked.bind_some, ih]
      rfl

end Indexed

end StackScript
