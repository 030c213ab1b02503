import StackScript.Proofs.Source.Offset
import StackScript.Proofs.Token.Tiling
import StackScript.Source.LineCursor

/-!
# The Running Cursor Follows the Rule

A cursor is asked for offsets in any order and keeps what it has counted so far. What it
answers must not depend on what it was asked before, even if it has stopped inside of a
character on the way, where its column already counts the character begun.

It does not, because the count is one of bytes: whatever a cursor has been asked, its
position is what the bytes in front of its offset make of the first position,
`LineCursor.Follows`. The answers are then a function of the offsets alone,
`LineCursor.positions_ofText`. Between two characters the bytes are those of whole
characters, of which each moves the position once, by its first byte.

## Main definitions

* `LineCursor.Follows`: The position of a cursor is that of the bytes in front of it.
* `positionBehind`: The position behind the first bytes of a text.

## Theorems

* `foldl_afterByte_encode`: The bytes of some characters move a position as these do.
* `LineCursor.Follows.advanceTo`: A cursor that has moved on follows the bytes still.
* `LineCursor.positions_ofText`: The answers of a cursor, whatever the order of the offsets.
* `LineCursor.advanceTo_le`: The answers rise with the offsets.
* `positionBehind_between`: The position between two characters.
-/

namespace StackScript

namespace Position

/-! ## Bytes and characters -/

/-- The bytes below `0x80` are characters of their own. -/
theorem afterByte_single (p : Position) {n : Nat} (h : n < 128) :
    p.afterByte (UInt8.ofNat n) = if n = 10 then ⟨p.line + 1, 1⟩ else ⟨p.line, p.column + 1⟩ := by
  have hbytes : ∀ n < 128, (UInt8.ofNat n = 0x0A ↔ n = 10) ∧ UInt8.ofNat n &&& 0xC0 ≠ 0x80 := by
    decide +kernel
  simp only [afterByte, hbytes n h, ne_eq, not_false_eq_true, if_true]

/-- The first of several bytes is `0xC0` at least. -/
theorem afterByte_first (p : Position) {n : Nat} (h : n < 64) :
    p.afterByte (UInt8.ofNat (n + 192)) = ⟨p.line, p.column + 1⟩ := by
  have hbytes : ∀ n < 64, UInt8.ofNat (n + 192) ≠ 0x0A ∧ UInt8.ofNat (n + 192) &&& 0xC0 ≠ 0x80 := by
    decide +kernel
  rw [afterByte, if_neg (hbytes n h).1, if_pos (hbytes n h).2]

/-- The later bytes of a character hold six bits of it, behind the bits `10`. -/
theorem afterByte_later (p : Position) (n : Nat) :
    p.afterByte (UInt8.ofNat (n % 64 + 128)) = p := by
  have hbytes : ∀ n < 64, UInt8.ofNat (n + 128) ≠ 0x0A ∧ UInt8.ofNat (n + 128) &&& 0xC0 = 0x80 := by
    decide +kernel
  have hbyte := hbytes (n % 64) (Nat.mod_lt n (by decide))
  rw [afterByte, if_neg hbyte.1, if_neg (not_not.mpr hbyte.2)]

/-- The bytes of a character move a position as the character does. -/
theorem foldl_afterByte_utf8EncodeChar (p : Position) (c : Char) :
    (String.utf8EncodeChar c).foldl afterByte p = p.afterChar c := by
  -- A line feed is known by its number.
  have hnewline : c = '\n' ↔ c.val.toNat = 10 := by
    rw [← Char.val_inj, ← UInt32.toNat_inj]
    rfl
  -- The first of several bytes moves a column on, the later ones do not count.
  have hfirst : ∀ n k, n + k < 64 → p.afterByte (UInt8.ofNat (n + (k + 192))) =
      ⟨p.line, p.column + 1⟩ := by
    intro n k h
    rw [← Nat.add_assoc, afterByte_first p h]
  simp only [String.utf8EncodeChar, afterChar, hnewline]
  generalize c.val.toNat = n
  split
  · rw [List.foldl_cons, List.foldl_nil, afterByte_single p (by omega)]
  have hne : n ≠ 10 := by omega
  rw [if_neg hne]
  split
  · rw [List.foldl_cons, hfirst _ 0 (by omega)]
    simp only [List.foldl_cons, List.foldl_nil, afterByte_later]
  split
  · rw [List.foldl_cons, hfirst _ 32 (by omega)]
    simp only [List.foldl_cons, List.foldl_nil, afterByte_later]
  · rw [List.foldl_cons, hfirst _ 48 (by omega)]
    simp only [List.foldl_cons, List.foldl_nil, afterByte_later]

/-- The bytes of some characters move a position as these do. -/
theorem foldl_afterByte_encode (p : Position) (cs : List Char) :
    (encode cs).foldl afterByte p = p.after cs := by
  induction cs generalizing p with
  | nil => rfl
  | cons c cs ih =>
      rw [encode, List.flatMap_cons, List.foldl_append, foldl_afterByte_utf8EncodeChar, after_cons]
      exact ih (p.afterChar c)

/-- A byte never moves a position back. -/
theorem le_afterByte (p : Position) (byte : UInt8) : p ≤ p.afterByte byte := by
  rw [afterByte, le_def]
  split
  · exact Or.inl (Nat.lt_succ_self _)
  split
  · exact Or.inr ⟨rfl, Nat.le_succ _⟩
  · exact Or.inr ⟨rfl, Nat.le_refl _⟩

/-- Reading on never goes back. -/
theorem le_foldl_afterByte (p : Position) (bytes : List UInt8) : p ≤ bytes.foldl afterByte p := by
  induction bytes generalizing p with
  | nil => exact Or.inr ⟨rfl, Nat.le_refl _⟩
  | cons byte bytes ih => exact le_trans (le_afterByte p byte) (ih (p.afterByte byte))

end Position

/-! ## What a cursor answers -/

/-- The position behind the first bytes of a text, up to the offset. -/
def positionBehind (bytes : List UInt8) (offset : Nat) : Position :=
  (bytes.take offset).foldl Position.afterByte Position.start

/-- A larger offset is not at a smaller position, be it inside of a character or not. -/
theorem positionBehind_le (bytes : List UInt8) {a b : Nat} (h : a ≤ b) :
    positionBehind bytes a ≤ positionBehind bytes b := by
  have hsplit : bytes.take b = bytes.take a ++ (bytes.drop a).take (b - a) := by
    rw [← List.take_add, Nat.add_sub_cancel' h]
  rw [positionBehind, positionBehind, hsplit, List.foldl_append]
  exact Position.le_foldl_afterByte _ _

namespace LineCursor

/-- The position of a cursor over some bytes is that of the bytes in front of its offset. -/
structure Follows (cursor : LineCursor) (bytes : List UInt8) : Prop where
  /-- It is a cursor over these bytes. -/
  same : cursor.bytes = bytes
  /-- It has not left them. -/
  inside : cursor.offset ≤ bytes.length
  /-- It has counted the bytes that it has passed. -/
  position : cursor.position = positionBehind bytes cursor.offset

variable {cursor : LineCursor} {bytes : List UInt8}

theorem follows_ofText (text : String) : (ofText text).Follows (encode text.toList) :=
  ⟨rfl, Nat.zero_le _, rfl⟩

/-- A cursor that goes back begins the count anew, so it cannot be wrong afterwards. -/
theorem Follows.rewind (h : cursor.Follows bytes) : cursor.rewind.Follows bytes :=
  ⟨h.same, Nat.zero_le _, rfl⟩

/-- The bytes between a cursor and a place behind it move its position to that place. -/
theorem Follows.foldl_passed (h : cursor.Follows bytes) {target : Nat}
    (hle : cursor.offset ≤ target) :
    ((cursor.bytes.drop cursor.offset).take (target - cursor.offset)).foldl Position.afterByte
        cursor.position = positionBehind bytes target := by
  rw [h.same, h.position, positionBehind, positionBehind, ← List.foldl_append, ← List.take_add,
    Nat.add_sub_cancel' hle]

/-- A cursor that has moved on is at the offset, and follows the bytes still. -/
theorem Follows.advanceTo (h : cursor.Follows bytes) (offset : Nat) :
    (cursor.advanceTo offset).Follows bytes ∧
      (cursor.advanceTo offset).offset = min offset bytes.length := by
  have hinside := Nat.min_le_right offset bytes.length
  unfold LineCursor.advanceTo
  dsimp only
  rw [h.same]
  by_cases hback : min offset bytes.length < cursor.offset
  · rw [if_pos hback]
    exact ⟨⟨h.same, hinside, h.rewind.foldl_passed (Nat.zero_le _)⟩, rfl⟩
  · rw [if_neg hback]
    exact ⟨⟨h.same, hinside, h.foldl_passed (Nat.le_of_not_lt hback)⟩, rfl⟩

/-- Whatever offsets it is asked for, and in whatever order, a cursor counts the bytes in
    front of each. -/
theorem Follows.positions (h : cursor.Follows bytes) (offsets : List Nat) :
    cursor.positions offsets =
      offsets.map fun offset => positionBehind bytes (min offset bytes.length) := by
  induction offsets generalizing cursor with
  | nil => rfl
  | cons offset offsets ih =>
      rcases h.advanceTo offset with ⟨hfollows, hoffset⟩
      rw [LineCursor.positions, ih hfollows, hfollows.position, hoffset, List.map_cons]

/-- The answers of a cursor over a text: for each offset what stands in front of it, whatever
    has been asked before. -/
theorem positions_ofText (text : String) (offsets : List Nat) :
    (ofText text).positions offsets =
      offsets.map fun offset =>
        positionBehind (encode text.toList) (min offset text.utf8ByteSize) := by
  rw [(follows_ofText text).positions, length_encode, byteLength_toList]

/-- The answers of a cursor rise with the offsets, inside of characters too. -/
theorem advanceTo_le (text : String) {a b : Nat} (h : a ≤ b) :
    ((ofText text).advanceTo a).position ≤ ((ofText text).advanceTo b).position := by
  have hmin : min a (encode text.toList).length ≤ min b (encode text.toList).length := by omega
  rcases (follows_ofText text).advanceTo a with ⟨ha, haOffset⟩
  rcases (follows_ofText text).advanceTo b with ⟨hb, hbOffset⟩
  rw [ha.position, hb.position, haOffset, hbOffset]
  exact positionBehind_le _ hmin

end LineCursor

/-- Between two characters the bytes in front of an offset are those of whole characters. -/
theorem positionBehind_between {text before behind : String} {offset : Nat}
    (htext : text = before ++ behind) (hoffset : before.utf8ByteSize = offset) :
    positionBehind (encode text.toList) offset = Position.start.after before.toList := by
  rw [positionBehind, htext, String.toList_append, encode_append,
    ← hoffset, ← byteLength_toList, ← length_encode, List.take_left,
    Position.foldl_afterByte_encode]

end StackScript
