import StackScript.Proofs.Source.LineIndex

/-!
# Offsets in Rising Order

An offset may lie between two characters or inside of one, and the line table is asked for
both. The characters that end at an offset or in front of it, `charsUpTo`, settle what it
answers: between two characters their position by the rule, inside of a character the first
column of their line.

That makes the order of the answers a matter of prefixes. A larger offset has more
characters in front of it, and reading on never goes back. The answer goes back in one case
only, when the larger offset is inside of a character and the smaller one on the same line
and further than its first column. The running cursor, which counts a character when its
first byte is passed, has no such case.

## Main definitions

* `charsUpTo`: The characters that end at an offset or in front of it.
* `IsBoundary`: An offset does not lie inside of a character.

## Theorems

* `LineIndex.position_between`, `LineIndex.position_of_not_isBoundary`: The position of any
  offset.
* `LineIndex.position_le_iff`: When positions rise with their offsets.
* `LineIndex.position_goesBack`: They do not always.
-/

namespace StackScript

/-- The characters that end at the byte offset or in front of it. -/
def charsUpTo (offset : Nat) : List Char → List Char
  | [] => []
  | c :: cs => if c.utf8Size ≤ offset then c :: charsUpTo (offset - c.utf8Size) cs else []

/-- The offset, counted to the end of the text at most, does not lie inside of a
    character. -/
def IsBoundary (text : String) (offset : Nat) : Prop :=
  ∃ before behind : String, text = before ++ behind ∧
    before.utf8ByteSize = min offset text.utf8ByteSize

/-- The characters up to an offset leave nothing of it, or a part of the next character. -/
theorem charsUpTo_cases (cs : List Char) {offset : Nat} (h : offset ≤ byteLength cs) :
    (∃ behind, cs = charsUpTo offset cs ++ behind ∧ offset = byteLength (charsUpTo offset cs)) ∨
      ∃ c behind n, cs = charsUpTo offset cs ++ c :: behind ∧
        offset = byteLength (charsUpTo offset cs) + n ∧ 0 < n ∧ n < c.utf8Size := by
  induction cs generalizing offset with
  | nil => exact Or.inl ⟨[], rfl, Nat.eq_zero_of_le_zero h⟩
  | cons c cs ih =>
      rw [charsUpTo]
      -- A first character that fits is taken, and one that does not holds the offset
      -- inside.
      by_cases hsize : c.utf8Size ≤ offset
      · rw [byteLength_cons] at h
        have hrest : offset - c.utf8Size ≤ byteLength cs := by omega
        rw [if_pos hsize, byteLength_cons]
        rcases ih hrest with
          ⟨behind, hcs, hoffset⟩ | ⟨d, behind, n, hcs, hoffset, hn⟩
        · exact Or.inl ⟨behind, by rw [List.cons_append, ← hcs], by omega⟩
        · exact Or.inr ⟨d, behind, n, by rw [List.cons_append, ← hcs], by omega, hn⟩
      · rw [if_neg hsize]
        rcases Nat.eq_zero_or_pos offset with rfl | hpos
        · exact Or.inl ⟨c :: cs, rfl, rfl⟩
        · exact Or.inr ⟨c, cs, offset, rfl, (Nat.zero_add _).symm, hpos, Nat.lt_of_not_le hsize⟩

/-- Behind whole characters all of them have been read. -/
theorem charsUpTo_append (cs ds : List Char) : charsUpTo (byteLength cs) (cs ++ ds) = cs := by
  induction cs with
  | nil =>
      cases ds with
      | nil => rfl
      | cons d ds =>
          rw [byteLength_nil, List.nil_append, charsUpTo, if_neg (Nat.not_le_of_lt d.utf8Size_pos)]
  | cons c cs ih =>
      rw [List.cons_append, charsUpTo, byteLength_cons, if_pos (Nat.le_add_right _ _),
        Nat.add_sub_cancel_left, ih]

/-- A character has a byte at least. -/
theorem length_charsUpTo_le (offset : Nat) (cs : List Char) :
    (charsUpTo offset cs).length ≤ offset := by
  induction cs generalizing offset with
  | nil => exact Nat.zero_le offset
  | cons c cs ih =>
      rw [charsUpTo]
      split
      · have hc : 0 < c.utf8Size := c.utf8Size_pos
        have hcs := ih (offset - c.utf8Size)
        rw [List.length_cons]
        omega
      · exact Nat.zero_le offset

/-- A larger offset has more characters in front of it. -/
theorem charsUpTo_prefix (cs : List Char) {a b : Nat} (h : a ≤ b) :
    charsUpTo a cs <+: charsUpTo b cs := by
  induction cs generalizing a b with
  | nil => exact List.prefix_refl []
  | cons c cs ih =>
      rw [charsUpTo, charsUpTo]
      by_cases ha : c.utf8Size ≤ a
      · rw [if_pos ha, if_pos (Nat.le_trans ha h)]
        exact (List.prefix_cons_inj c).mpr (ih (Nat.sub_le_sub_right h _))
      · rw [if_neg ha]
        exact List.nil_prefix

/-- The position by the rule, behind the characters that end at the offset or in front of
    it. -/
def frontPosition (text : String) (offset : Nat) : Position :=
  Position.start.after (charsUpTo (min offset text.utf8ByteSize) text.toList)

/-- More characters in front mean a position further on. -/
theorem frontPosition_le (text : String) {a b : Nat} (h : a ≤ b) :
    frontPosition text a ≤ frontPosition text b := by
  have hmin : min a text.utf8ByteSize ≤ min b text.utf8ByteSize := by omega
  rcases charsUpTo_prefix text.toList hmin with ⟨more, hmore⟩
  rw [frontPosition, frontPosition, ← hmore, Position.after_append]
  exact Position.le_after _ _

namespace LineIndex

variable (text : String)

-- No offset is behind the end of the text.
theorem position_min (offset : Nat) :
    (ofText text).position (min offset text.utf8ByteSize) = (ofText text).position offset := by
  rw [ofText, position_eq_positionIn, position_eq_positionIn, byteLength_toList, Nat.min_assoc,
    Nat.min_self]

/-- Between two characters the position is that behind the first of them. -/
theorem position_between {before behind : String} {offset : Nat} (htext : text = before ++ behind)
    (hoffset : before.utf8ByteSize = min offset text.utf8ByteSize) :
    (ofText text).position offset = Position.start.after before.toList := by
  rw [← position_min, ← hoffset, htext, ofText, String.toList_append, ← byteLength_toList,
    position_append]

/-- Between two characters the line table follows the rule. -/
theorem position_of_isBoundary {offset : Nat} (h : IsBoundary text offset) :
    (ofText text).position offset = frontPosition text offset := by
  rcases h with ⟨before, behind, htext, hoffset⟩
  rw [position_between text htext hoffset, frontPosition, ← hoffset, htext,
    String.toList_append, ← byteLength_toList, charsUpTo_append]

/-- Inside of a character the position is at the first column of the line. -/
theorem position_of_not_isBoundary {offset : Nat} (h : ¬ IsBoundary text offset) :
    (ofText text).position offset = ⟨(frontPosition text offset).line, 1⟩ := by
  have hle : min offset text.utf8ByteSize ≤ byteLength text.toList := by
    rw [byteLength_toList]
    exact Nat.min_le_right _ _
  rw [← position_min, frontPosition]
  rcases charsUpTo_cases text.toList hle with
    ⟨behind, htext, hoffset⟩ | ⟨c, behind, n, htext, hoffset, hpos, hlt⟩
  -- The characters up to the offset are all that matters from here on.
  all_goals
    generalize charsUpTo (min offset text.utf8ByteSize) text.toList = front at *
  · -- Between two characters the offset would be a boundary.
    refine absurd ⟨String.ofList front, String.ofList behind, ?_, ?_⟩ h
    · rw [← String.toList_inj, htext, String.toList_append, String.toList_ofList,
        String.toList_ofList]
    · rw [← byteLength_toList, String.toList_ofList, hoffset]
  · rw [hoffset, ofText, htext]
    exact position_inside front behind hpos hlt

/-- The line is always the one by the rule, and the column is not larger. -/
theorem position_front (offset : Nat) :
    ((ofText text).position offset).line = (frontPosition text offset).line ∧
      1 ≤ ((ofText text).position offset).column ∧
        ((ofText text).position offset).column ≤ (frontPosition text offset).column := by
  have hfront : 1 ≤ (frontPosition text offset).column := by
    rw [frontPosition, Position.start_after]
    exact Nat.le_add_right _ _
  by_cases h : IsBoundary text offset
  · rw [position_of_isBoundary text h]
    exact ⟨rfl, hfront, Nat.le_refl _⟩
  · rw [position_of_not_isBoundary text h]
    exact ⟨rfl, Nat.le_refl _, hfront⟩

/-- Positions rise with their offsets, except from somewhere in a line to the inside of a
    character on the same line. -/
theorem position_le_iff {a b : Nat} (h : a ≤ b) :
    ((ofText text).position a).line ≤ ((ofText text).position b).line ∧
      ((ofText text).position a ≤ (ofText text).position b ↔
        IsBoundary text b ∨ ((ofText text).position a).column = 1 ∨
          ((ofText text).position a).line < ((ofText text).position b).line) := by
  have hfront := frontPosition_le text h
  have hsmaller := position_front text a
  have hlarger := position_front text b
  rw [Position.le_def] at hfront ⊢
  refine ⟨by omega, ?_⟩
  by_cases hb : IsBoundary text b
  · rw [position_of_isBoundary text hb] at hlarger ⊢
    exact iff_of_true (by omega) (Or.inl hb)
  · -- The larger offset is at the first column, which only a first column comes up to.
    have hfirst : ((ofText text).position b).column = 1 := by
      rw [position_of_not_isBoundary text hb]
    simp only [hb, false_or]
    omega

-- Both offsets are inside of a character, and on different lines.
theorem position_le_iff_inside :
    1 ≤ 4 ∧
      ((ofText "é\nüb").position 1).line ≤ ((ofText "é\nüb").position 4).line ∧
        ((ofText "é\nüb").position 1 ≤ (ofText "é\nüb").position 4 ↔
          IsBoundary "é\nüb" 4 ∨ ((ofText "é\nüb").position 1).column = 1 ∨
            ((ofText "é\nüb").position 1).line < ((ofText "é\nüb").position 4).line) :=
  ⟨by decide, position_le_iff "é\nüb" (by decide)⟩

/-- An offset inside of a character has the first column of the line, so the position goes
    back there from the end of the character in front of it. -/
theorem position_goesBack :
    ¬ ∀ (text : String) (a b : Nat), a ≤ b →
      (ofText text).position a ≤ (ofText text).position b := by
  intro h
  exact absurd (h "aé" 1 2 (by decide)) (by decide +kernel)

end LineIndex

end StackScript
