import Mathlib.Data.List.Induction
import Mathlib.Data.List.TakeWhile
import StackScript.Text.Trim

/-!
# Texts without Blanks around Them

Trimming takes the blanks off both ends of a text, and what it leaves is a text
that it would leave alone. Both ends have to be looked at together: the
characters are taken off in front before they are taken off behind, and what was
in front then must still be there.

## Main definitions

* `IsTrimmed`: A text without blanks around it.

## Theorems

* `trimBy_of_ends`: When nothing is taken off.
* `trim_of_isTrimmed`: Trimming leaves such a text alone.
* `isTrimmed_trim`: Trimming makes such a text.
* `trim_trim`: Trimming twice is trimming once.
* `trimBy_append`: A character that is taken off makes no difference.
* `trim_between`: Trimming finds a text between blanks.
* `exists_blanks_trim`: A text is what trimming leaves of it, between blanks.
-/

namespace StackScript

namespace Text

/-- The text has no blanks around it. -/
structure IsTrimmed (cs : List Char) : Prop where
  /-- It does not begin with a blank. -/
  first : cs.head?.any Unicode.isBlank = false
  /-- It does not end with one. -/
  last : cs.getLast?.any Unicode.isBlank = false

/-- Nothing is taken off a text that does not begin with a blank. -/
theorem dropWhile_of_head {p : Char → Bool} {cs : List Char} (h : cs.head?.any p = false) :
    cs.dropWhile p = cs := by
  cases cs with
  | nil => rfl
  | cons c cs =>
      have hc : p c = false := h
      exact List.dropWhile_cons_of_neg (by rw [hc]; exact Bool.false_ne_true)

/-- Nothing is taken off a text that has none of the characters at its ends. -/
theorem trimBy_of_ends {p : Char → Bool} {cs : List Char} (hfirst : cs.head?.any p = false)
    (hlast : cs.getLast?.any p = false) : trimBy p cs = cs := by
  rw [← List.head?_reverse] at hlast
  rw [trimBy, trimEndBy, dropWhile_of_head hfirst, dropWhile_of_head hlast, List.reverse_reverse]

theorem trim_of_isTrimmed {cs : List Char} (h : IsTrimmed cs) : trim cs = cs :=
  trimBy_of_ends h.first h.last

/-- What is left does not begin with a character to take off. -/
theorem head?_dropWhile (p : Char → Bool) (cs : List Char) :
    (cs.dropWhile p).head?.any p = false := by
  induction cs with
  | nil => rfl
  | cons c cs ih =>
      by_cases h : p c = true
      · rw [List.dropWhile_cons_of_pos h, ih]
      · rw [List.dropWhile_cons_of_neg h]
        exact Bool.eq_false_iff.mpr h

/-- What is left in front of an end that is taken off begins as before. -/
theorem head?_trimEndBy {p : Char → Bool} {cs : List Char} (h : cs.head?.any p = false) :
    (trimEndBy p cs).head?.any p = false := by
  have hprefix : trimEndBy p cs <+: cs := by
    rw [trimEndBy, ← List.reverse_suffix, List.reverse_reverse]
    exact List.dropWhile_suffix p
  rcases hprefix with ⟨behind, hbehind⟩
  cases htrimmed : trimEndBy p cs with
  | nil => rfl
  | cons c rest =>
      rw [htrimmed] at hbehind
      rw [← hbehind] at h
      exact h

/-- Trimming takes all blanks off both ends. -/
theorem isTrimmed_trim (cs : List Char) : IsTrimmed (trim cs) where
  first := head?_trimEndBy (head?_dropWhile Unicode.isBlank cs)
  last := by
    rw [trim, trimBy, trimEndBy, List.getLast?_reverse]
    exact head?_dropWhile Unicode.isBlank _

/-- Trimming a text twice is trimming it once. -/
theorem trim_trim (cs : List Char) : trim (trim cs) = trim cs :=
  trim_of_isTrimmed (isTrimmed_trim cs)

/-- One character more or less at an end makes no difference, if it is one to take off. -/
theorem trimEndBy_append {p : Char → Bool} {c : Char} (h : p c) (cs : List Char) :
    trimEndBy p (cs ++ [c]) = trimEndBy p cs := by
  rw [trimEndBy, List.reverse_append, List.reverse_singleton, List.singleton_append,
    List.dropWhile_cons_of_pos h]
  rfl

theorem trimBy_cons {p : Char → Bool} {c : Char} (h : p c) (cs : List Char) :
    trimBy p (c :: cs) = trimBy p cs := by
  rw [trimBy, List.dropWhile_cons_of_pos h]
  rfl

/-- A character of the class at the end of a text makes no difference to what is
    left. -/
theorem trimBy_append {p : Char → Bool} {c : Char} (h : p c) (cs : List Char) :
    trimBy p (cs ++ [c]) = trimBy p cs := by
  unfold trimBy
  rw [List.dropWhile_append]
  cases hfront : cs.dropWhile p with
  | nil =>
      rw [List.isEmpty_nil, if_pos rfl, List.dropWhile_cons_of_pos h]
      rfl
  | cons d ds =>
      rw [List.isEmpty_cons, if_neg Bool.false_ne_true, trimEndBy_append h]

theorem trim_cons_blank {c : Char} (h : Unicode.isBlank c) (cs : List Char) :
    trim (c :: cs) = trim cs :=
  trimBy_cons h cs

theorem trim_append_blank {c : Char} (h : Unicode.isBlank c) (cs : List Char) :
    trim (cs ++ [c]) = trim cs :=
  trimBy_append h cs

/-- What does not see a character of a class at either end does not see a run of them
    there. -/
theorem eq_between {α : Type} {f : List Char → α} {P : Char → Prop}
    (hfirst : ∀ c, P c → ∀ cs, f (c :: cs) = f cs)
    (hlast : ∀ c, P c → ∀ cs, f (cs ++ [c]) = f cs) {front behind : List Char}
    (hfront : ∀ c ∈ front, P c) (hbehind : ∀ c ∈ behind, P c) (cs : List Char) :
    f (front ++ cs ++ behind) = f cs := by
  -- The characters behind go first, as `f` sees them last.
  induction behind using List.reverseRecOn with
  | nil =>
      rw [List.append_nil]
      induction front with
      | nil => rfl
      | cons c front ih =>
          rw [List.cons_append, hfirst c (hfront c (.head _))]
          exact ih fun d hd => hfront d (.tail _ hd)
  | append_singleton behind c ih =>
      rw [← List.append_assoc, hlast c (hbehind c (by simp))]
      exact ih fun d hd => hbehind d (List.mem_append_left _ hd)

/-- Trimming finds a text between blanks. -/
theorem trim_between {front text behind : List Char} (hfront : ∀ c ∈ front, Unicode.isBlank c)
    (hbehind : ∀ c ∈ behind, Unicode.isBlank c) (htext : IsTrimmed text) :
    trim (front ++ text ++ behind) = text :=
  (eq_between (fun _ h cs => trim_cons_blank h cs) (fun _ h cs => trim_append_blank h cs)
    hfront hbehind text).trans (trim_of_isTrimmed htext)

/-- A text is what trimming leaves of it, with blanks around that. -/
theorem exists_blanks_trim (cs : List Char) :
    ∃ front behind, cs = front ++ trim cs ++ behind ∧ (∀ c ∈ front, Unicode.isBlank c) ∧
      ∀ c ∈ behind, Unicode.isBlank c := by
  refine ⟨cs.takeWhile Unicode.isBlank,
    ((cs.dropWhile Unicode.isBlank).reverse.takeWhile Unicode.isBlank).reverse, ?_, ?_, ?_⟩
  · rw [trim, trimBy, trimEndBy, List.append_assoc, ← List.reverse_append,
      List.takeWhile_append_dropWhile, List.reverse_reverse, List.takeWhile_append_dropWhile]
  · exact fun c hc => List.mem_takeWhile_imp hc
  · exact fun c hc => List.mem_takeWhile_imp (List.mem_reverse.mp hc)

/-- Nothing is left of blanks only. -/
theorem isBlank_of_trim_eq_nil {cs : List Char} (h : trim cs = []) :
    ∀ c ∈ cs, Unicode.isBlank c := by
  rcases exists_blanks_trim cs with ⟨front, behind, hcs, hfront, hbehind⟩
  rw [h, List.append_nil] at hcs
  rw [hcs]
  exact fun c hc => (List.mem_append.mp hc).elim (hfront c) (hbehind c)

/-- A text without blanks has none at its ends. -/
theorem isTrimmed_of_forall {cs : List Char} (h : ∀ c ∈ cs, Unicode.isBlank c = false) :
    IsTrimmed cs where
  first := by
    rw [Option.any_eq_false]
    exact fun c hc => h c (List.mem_of_head? hc)
  last := by
    rw [Option.any_eq_false]
    exact fun c hc => h c (List.mem_of_getLast? hc)

end Text

end StackScript
