import StackScript.Proofs.Indexed.Position
import StackScript.Proofs.Source.LineCursor

/-!
# Positions in Words of 32 Bits

Lines and columns are numbers of 32 bits in the program, while offsets are as large as a
text may be. The cursor counts in 32 bits, byte after byte, and every step of it could
overflow. The line table counts in full and cuts the counts down to 32 bits at the end,
where a part of them could be lost.

Neither comes about in a text of fewer than `2 ^ 32 - 1` bytes, because no count is larger
than the number of bytes in front of the offset. So the two converters give the positions
of the library, for any offsets in any order, and these agree between characters.

## Main definitions

* `checkedSucc`, `lowBits`: One more, and the rest of a number that is cut down.
* `Indexed.wordLinePosition`: The position by the line table, in words.
* `Indexed.wordPositions`: The positions by the running cursor, in words.
* `ConvertersAgree`: What the two converters have to do with each other.

## Theorems

* `wordLinePosition_eq`, `wordPositions_eq`: Nothing overflows and nothing is lost.
* `converters_agree`: The two converters agree on texts that words are large enough for.
-/

namespace StackScript

namespace Indexed

/-- One more, which must fit into 32 bits. -/
def checkedSucc (n : Nat) : Checked Nat :=
  if n + 1 < UInt32.size then some (n + 1) else none

/-- What is left of a number in 32 bits. -/
def lowBits (n : Nat) : Nat :=
  n % UInt32.size

/-- The position behind a byte, counted in words. -/
def wordAfterByte (p : Position) (byte : UInt8) : Checked Position :=
  if byte = 0x0A then do
    let line ← checkedSucc p.line
    return ⟨line, 1⟩
  else if byte &&& 0xC0 ≠ 0x80 then do
    let column ← checkedSucc p.column
    return ⟨p.line, column⟩
  else
    return p

/-- The cursor at `offset`, counted to the end of the text at most. -/
def wordAdvanceTo (cursor : LineCursor) (offset : Nat) : Checked LineCursor := do
  let target := min offset cursor.bytes.length
  let origin := if target < cursor.offset then cursor.rewind else cursor
  let passed ← checkedSlice origin.bytes origin.offset target
  let position ← passed.foldlM wordAfterByte origin.position
  return { origin with offset := target, position := position }

/-- The positions of the offsets, asked for one after another. -/
def wordPositions (cursor : LineCursor) : List Nat → Checked (List Position)
  | [] => return []
  | offset :: offsets => do
      let reached ← wordAdvanceTo cursor offset
      let others ← wordPositions reached offsets
      return reached.position :: others

/-- The position of the byte at `offset`, counted to the end of the text at most. The
    search for the line must not go below the first one. -/
def wordLinePosition (text : String) (offset : Nat) : Checked Position := do
  let target := min offset (byteLength text.toList)
  let starts := (LineIndex.ofText text).starts.map LineStart.offset
  let line ← lineOf starts target
  let start ← starts[line]?
  let column := (charsBetween text.toList start target).getD 0
  return ⟨← checkedSucc (lowBits line), ← checkedSucc (lowBits column)⟩

end Indexed

/-! ## Counts and bytes -/

/-- No count of the position is larger than `n` bytes can make it. -/
def Position.WithinBytes (p : Position) (n : Nat) : Prop :=
  p.line ≤ n + 1 ∧ p.column ≤ n + 1

/-- A byte adds one to the line or to the column, or nothing. -/
theorem Position.WithinBytes.afterByte {p : Position} {n : Nat} (h : p.WithinBytes n)
    (byte : UInt8) : (p.afterByte byte).WithinBytes (n + 1) := by
  rcases h with ⟨hline, hcolumn⟩
  unfold WithinBytes Position.afterByte
  split
  · exact ⟨by simp only []; omega, by simp only []; omega⟩
  split
  · exact ⟨by simp only []; omega, by simp only []; omega⟩
  · exact ⟨by omega, by omega⟩

theorem Position.WithinBytes.foldl {p : Position} {n : Nat} (h : p.WithinBytes n)
    (bytes : List UInt8) : (bytes.foldl Position.afterByte p).WithinBytes (n + bytes.length) := by
  induction bytes generalizing p n with
  | nil => exact h
  | cons byte bytes ih =>
      have hrest := ih (h.afterByte byte)
      rwa [Nat.add_assoc, Nat.add_comm 1] at hrest

/-- From the start on no count is above the number of bytes. -/
theorem positionBehind_within (bytes : List UInt8) (offset : Nat) :
    (positionBehind bytes offset).WithinBytes offset := by
  have hstart : Position.start.WithinBytes 0 := ⟨Nat.le_refl 1, Nat.le_refl 1⟩
  have hcount := hstart.foldl (bytes.take offset)
  have hlength := List.length_take_le offset bytes
  exact ⟨Nat.le_trans hcount.1 (by omega), Nat.le_trans hcount.2 (by omega)⟩

/-- There are no more lines and characters than bytes. -/
theorem LineIndex.position_within (text : String) (offset : Nat) :
    ((ofText text).position offset).WithinBytes text.utf8ByteSize := by
  have hposition := position_front text offset
  have hfront := Position.start_after_le (charsUpTo (min offset text.utf8ByteSize) text.toList)
  have hlength := length_charsUpTo_le (min offset text.utf8ByteSize) text.toList
  have hsize := Nat.min_le_right offset text.utf8ByteSize
  rw [frontPosition] at hposition
  exact ⟨by omega, by omega⟩

namespace Indexed

/-! ## Nothing overflows -/

theorem checkedSucc_eq {n : Nat} (h : n + 1 < UInt32.size) : checkedSucc n = some (n + 1) :=
  if_pos h

theorem checkedSucc_lowBits {n : Nat} (h : n + 1 < UInt32.size) :
    checkedSucc (lowBits n) = some (n + 1) := by
  rw [lowBits, Nat.mod_eq_of_lt (Nat.lt_of_succ_lt h), checkedSucc_eq h]

/-- A step of the cursor fits, if the bytes up to it do. -/
theorem wordAfterByte_eq {p : Position} {n : Nat} (h : p.WithinBytes n) (hn : n + 2 < UInt32.size)
    (byte : UInt8) : wordAfterByte p byte = some (p.afterByte byte) := by
  rcases h with ⟨hline, hcolumn⟩
  unfold wordAfterByte Position.afterByte
  split
  · rw [checkedSucc_eq (by omega)]
    rfl
  split
  · rw [checkedSucc_eq (by omega)]
    rfl
  · rfl

theorem foldlM_wordAfterByte {p : Position} {n : Nat} (h : p.WithinBytes n) {bytes : List UInt8}
    (hn : n + bytes.length + 1 < UInt32.size) :
    bytes.foldlM wordAfterByte p = some (bytes.foldl Position.afterByte p) := by
  induction bytes generalizing p n with
  | nil => rfl
  | cons byte bytes ih =>
      rw [List.length_cons] at hn
      rw [List.foldlM_cons, wordAfterByte_eq h (by omega), Checked.bind_some,
        ih (h.afterByte byte) (by omega), List.foldl_cons]

/-- Moving on from a place in front of the target, no count comes to be too large. -/
theorem foldlM_passed {cursor : LineCursor} {bytes : List UInt8} (h : cursor.Follows bytes)
    {target : Nat} (hle : cursor.offset ≤ target) (htarget : target ≤ bytes.length)
    (hbytes : bytes.length + 1 < UInt32.size) :
    (checkedSlice cursor.bytes cursor.offset target >>= fun passed =>
        passed.foldlM wordAfterByte cursor.position) = some (positionBehind bytes target) := by
  have hwithin := positionBehind_within bytes cursor.offset
  have hlength := List.length_take_le (target - cursor.offset) (cursor.bytes.drop cursor.offset)
  have hinside : target ≤ cursor.bytes.length := by
    rw [h.same]
    exact htarget
  rw [← h.position] at hwithin
  rw [checkedSlice, if_pos ⟨hle, hinside⟩, Checked.bind_some, List.drop_take,
    foldlM_wordAfterByte hwithin (by omega), h.foldl_passed hle]

/-- A cursor that follows its bytes can move on, as long as the words are large enough for
    all of them. -/
theorem wordAdvanceTo_eq {cursor : LineCursor} {bytes : List UInt8} (h : cursor.Follows bytes)
    (hbytes : bytes.length + 1 < UInt32.size) (offset : Nat) :
    wordAdvanceTo cursor offset = some (cursor.advanceTo offset) := by
  have hinside := Nat.min_le_right offset bytes.length
  unfold wordAdvanceTo LineCursor.advanceTo
  dsimp only
  rw [h.same]
  -- The cursor goes on from where it is, or from the beginning.
  by_cases hback : min offset bytes.length < cursor.offset
  · rw [if_pos hback, ← bind_assoc, foldlM_passed h.rewind (Nat.zero_le _) hinside hbytes,
      h.rewind.foldl_passed (Nat.zero_le _)]
    rfl
  · have hle := Nat.le_of_not_lt hback
    rw [if_neg hback, ← bind_assoc, foldlM_passed h hle hinside hbytes, h.foldl_passed hle]
    rfl

/-- After each offset the cursor is still at a place of the text. -/
theorem wordPositions_eq {cursor : LineCursor} {bytes : List UInt8} (h : cursor.Follows bytes)
    (hbytes : bytes.length + 1 < UInt32.size) (offsets : List Nat) :
    wordPositions cursor offsets = some (cursor.positions offsets) := by
  induction offsets generalizing cursor with
  | nil => rfl
  | cons offset offsets ih =>
      rw [wordPositions, wordAdvanceTo_eq h hbytes, Checked.bind_some, ih (h.advanceTo offset).1]
      rfl

/-- The counts of the table are cut down without loss. -/
theorem wordLinePosition_eq (text : String) (htext : text.utf8ByteSize + 1 < UInt32.size)
    (offset : Nat) :
    wordLinePosition text offset = some ((LineIndex.ofText text).position offset) := by
  have hposition := linePosition_eq text offset
  have hwithin := LineIndex.position_within text offset
  unfold linePosition at hposition
  rcases Option.bind_eq_some_iff.mp hposition with ⟨line, hline, hposition⟩
  rcases Option.bind_eq_some_iff.mp hposition with ⟨start, hstart, hposition⟩
  have hsame := Option.some.inj hposition
  rw [← hsame] at hwithin ⊢
  rcases hwithin with ⟨hlines, hcolumns⟩
  simp only [] at hlines hcolumns
  unfold wordLinePosition
  dsimp only
  rw [hline, Checked.bind_some, hstart, Checked.bind_some, checkedSucc_lowBits (by omega),
    Checked.bind_some, checkedSucc_lowBits (by omega)]
  rfl

end Indexed

/-! ## The two converters -/

/-- What the two converters have to do with each other on a text, when they are asked for the
    offsets one after another. -/
structure ConvertersAgree (text : String) (offsets : List Nat) : Prop where
  /-- The line table finds any offset: the search does not go below the first line, and the
      counts fit into words. -/
  searched : ∀ offset, Indexed.wordLinePosition text offset =
    some ((LineIndex.ofText text).position offset)
  /-- The cursor comes to all offsets, and its counts fit into words at every byte. -/
  walked : Indexed.wordPositions (LineCursor.ofText text) offsets =
    some ((LineCursor.ofText text).positions offsets)
  /-- Between characters the two agree, whatever the cursor has been asked before. -/
  agree : ∀ (i offset : Nat), offsets[i]? = some offset → IsBoundary text offset →
    ((LineCursor.ofText text).positions offsets)[i]? =
      some ((LineIndex.ofText text).position offset)
  /-- The line is one more than the line feeds in front of the offset, and the column one
      more than the characters behind the last of them. -/
  counted : ∀ (offset : Nat) (before behind : String), text = before ++ behind →
    before.utf8ByteSize = min offset text.utf8ByteSize →
      (LineIndex.ofText text).position offset =
        ⟨1 + before.toList.count '\n', 1 + (before.toList.rtakeWhile (· ≠ '\n')).length⟩

/-- The two converters agree on texts that words are large enough for. -/
theorem converters_agree {text : String} (htext : text.utf8ByteSize < UInt32.size - 1)
    (offsets : List Nat) : ConvertersAgree text offsets where
  searched := Indexed.wordLinePosition_eq text (by omega)
  walked := by
    refine Indexed.wordPositions_eq (LineCursor.follows_ofText text) ?_ offsets
    rw [length_encode, byteLength_toList]
    omega
  agree i offset hoffset hboundary := by
    rcases hboundary with ⟨before, behind, hsplit, hsize⟩
    rw [LineCursor.positions_ofText, List.getElem?_map, hoffset, Option.map_some,
      positionBehind_between hsplit hsize, LineIndex.position_between text hsplit hsize]
  counted offset before behind hsplit hsize := by
    rw [LineIndex.position_between text hsplit hsize, Position.start_after]

-- The cursor is asked for an offset inside of a character, one in front of it, one behind
-- the end of the text, and the first one.
theorem converters_agree_anyOrder :
    "é\nüb".utf8ByteSize < UInt32.size - 1 ∧ ConvertersAgree "é\nüb" [4, 3, 99, 0] :=
  ⟨by decide +kernel, converters_agree (by decide +kernel) [4, 3, 99, 0]⟩

end StackScript
