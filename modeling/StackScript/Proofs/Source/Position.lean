import Mathlib.Data.List.DropRight
import StackScript.Source.Position

/-!
# Reading Order

Positions come in an order: the line decides, and within a line the column.
Reading on never goes back in it, because `Position.afterChar` either starts
the next line or moves one column on, and that is all that a later proof has
to know about it.

Positions alone say nothing of bytes. `byteLength_toList` ties the byte counts
of this library to those of `String`, so that a theorem can speak of offsets
into a text as anybody would measure them.

## Main definitions

* The instances `LT Position`, `LE Position`: Reading order.

## Theorems

* `Position.lt_trans`: Reading order is transitive.
* `Position.lt_after`: Behind some characters the position is later.
* `Position.after_line`: The line behind some characters counts their line feeds.
* `Position.start_after`: The position behind the first characters of a text, counted.
* `byteLength_toList`: The byte length of the characters of a text is its size.
-/

namespace StackScript

namespace Position

/-- Reading order: the line decides, and within a line the column. -/
instance : LT Position where
  lt p q := p.line < q.line ∨ p.line = q.line ∧ p.column < q.column

/-- Reading order, where a position may also stay the same. -/
instance : LE Position where
  le p q := p.line < q.line ∨ p.line = q.line ∧ p.column ≤ q.column

instance (p q : Position) : Decidable (p ≤ q) :=
  inferInstanceAs (Decidable (_ ∨ _))

theorem lt_def (p q : Position) :
    p < q ↔ p.line < q.line ∨ p.line = q.line ∧ p.column < q.column := Iff.rfl

theorem le_def (p q : Position) :
    p ≤ q ↔ p.line < q.line ∨ p.line = q.line ∧ p.column ≤ q.column := Iff.rfl

theorem lt_irrefl (p : Position) : ¬ p < p := by
  rw [lt_def]
  omega

theorem lt_trans {p q r : Position} (hpq : p < q) (hqr : q < r) : p < r := by
  rw [lt_def] at hpq hqr ⊢
  omega

theorem le_trans {p q r : Position} (hpq : p ≤ q) (hqr : q ≤ r) : p ≤ r := by
  rw [le_def] at hpq hqr ⊢
  omega

-- An earlier position is on the same line or on one above.
theorem line_le_of_lt {p q : Position} (h : p < q) : p.line ≤ q.line := by
  rw [lt_def] at h
  omega

-- A line feed begins a line, and any other character moves a column on.
@[simp]
theorem afterChar_newline (p : Position) : p.afterChar '\n' = ⟨p.line + 1, 1⟩ := rfl

theorem afterChar_of_ne (p : Position) {c : Char} (h : c ≠ '\n') :
    p.afterChar c = ⟨p.line, p.column + 1⟩ := by
  rw [afterChar, if_neg h]

/-- Reading a character moves the position on. -/
theorem lt_afterChar (p : Position) (c : Char) : p < p.afterChar c := by
  by_cases h : c = '\n'
  · rw [h, afterChar_newline, lt_def]
    exact Or.inl (Nat.lt_succ_self p.line)
  · rw [afterChar_of_ne p h, lt_def]
    exact Or.inr ⟨rfl, Nat.lt_succ_self p.column⟩

/-- Behind some characters the position is later, so two words at different
    places of a text are never at the same position. -/
theorem lt_after (p : Position) {cs : List Char} (h : cs ≠ []) : p < p.after cs := by
  induction cs generalizing p with
  | nil => exact absurd rfl h
  | cons c cs ih =>
      rw [after_cons]
      by_cases hcs : cs = []
      · rw [hcs, after_nil]
        exact lt_afterChar p c
      · exact lt_trans (lt_afterChar p c) (ih (p.afterChar c) hcs)

/-- Reading on never goes back. -/
theorem le_after (p : Position) (cs : List Char) : p ≤ p.after cs := by
  rw [le_def]
  by_cases h : cs = []
  · rw [h]
    exact Or.inr ⟨rfl, Nat.le_refl p.column⟩
  · exact (lt_after p h).imp_right fun hline => ⟨hline.1, Nat.le_of_lt hline.2⟩

/-- Reading on never goes back to a line above. -/
theorem line_le_after (p : Position) (cs : List Char) : p.line ≤ (p.after cs).line := by
  by_cases h : cs = []
  · rw [h]
    exact Nat.le_refl p.line
  · exact line_le_of_lt (lt_after p h)

/-- Every line feed among the characters starts a line, and nothing else
    does. -/
theorem after_line (p : Position) (cs : List Char) :
    (p.after cs).line = p.line + cs.count '\n' := by
  induction cs generalizing p with
  | nil => rfl
  | cons c cs ih =>
      rw [after_cons, ih]
      by_cases h : c = '\n'
      · rw [h, afterChar_newline, List.count_cons_self]
        simp only []
        omega
      · rw [afterChar_of_ne p h, List.count_cons_of_ne h]

/-- The position behind the first characters of a text: their line feeds make the line,
    and the characters behind the last of them the column. -/
theorem start_after (cs : List Char) :
    start.after cs = ⟨1 + cs.count '\n', 1 + (cs.rtakeWhile (· ≠ '\n')).length⟩ := by
  induction cs using List.reverseRecOn with
  | nil => rfl
  | append_singleton cs c ih =>
      rw [after_append, ih, after_cons, after_nil, List.count_append]
      by_cases h : c = '\n'
      · rw [h, afterChar_newline, List.rtakeWhile_concat_neg _ _ _ (by decide)]
        rfl
      · rw [afterChar_of_ne _ h, List.rtakeWhile_concat_pos _ _ _ (by simpa using h),
          List.count_singleton, if_neg (by simpa using h), List.length_append,
          List.length_singleton]
        rfl

/-- No count of a position is larger than the number of characters in front of it. -/
theorem start_after_le (cs : List Char) :
    (start.after cs).line ≤ cs.length + 1 ∧ (start.after cs).column ≤ cs.length + 1 := by
  have hline := List.count_le_length (a := '\n') (l := cs)
  have hcolumn := (List.rtakeWhile_suffix (· ≠ '\n') cs).length_le
  rw [start_after]
  simp only []
  omega

-- Where there is no line feed the line stays.
theorem line_after_of_notMem (p : Position) {cs : List Char} (h : '\n' ∉ cs) :
    (p.after cs).line = p.line := by
  rw [after_line, List.count_eq_zero.mpr h, Nat.add_zero]

-- Behind a line feed comes the first column of a line.
theorem after_newline (p : Position) (cs : List Char) :
    p.after (cs ++ ['\n']) = ⟨p.line + cs.count '\n' + 1, 1⟩ := by
  rw [after_append, after_cons, after_nil, afterChar_newline, after_line]

/-- A position that is put some lines further down stays so while reading on. -/
theorem after_add_line (n : Nat) (p : Position) (cs : List Char) :
    (Position.mk (p.line + n) p.column).after cs =
      ⟨(p.after cs).line + n, (p.after cs).column⟩ := by
  induction cs generalizing p with
  | nil => rfl
  | cons c cs ih =>
      rw [after_cons, after_cons, ← ih]
      by_cases h : c = '\n'
      · rw [h, afterChar_newline, afterChar_newline]
        simp only [Nat.add_right_comm]
      · rw [afterChar_of_ne _ h, afterChar_of_ne _ h]

end Position

/-- The byte length of the characters of a text is the size of the text. -/
theorem byteLength_toList (text : String) : byteLength text.toList = text.utf8ByteSize := by
  have hencode : ∀ cs : List Char, byteLength cs = cs.utf8Encode.size := by
    intro cs
    induction cs with
    | nil => rfl
    | cons c cs ih =>
        rw [byteLength_cons, List.utf8Encode_cons, ByteArray.size_append, ih,
          List.utf8Encode_singleton, List.size_toByteArray, String.length_utf8EncodeChar]
  rw [hencode, String.utf8Encode_toList, String.size_toByteArray]

end StackScript
