import Mathlib.Logic.Basic
import StackScript.Docs.Summary

/-!
# What a Summary Shows

The summary of a documentation text is its first line of prose. A line in code may look
like prose, so whether a line counts cannot be told from the line alone; it depends on the
fences in front of it. Every fence opens code or closes it, so it is enough to know whether
their number is odd, `inCodeBehind`, and with that a line of prose is found by its index,
without a reader that goes through the lines.

The reader itself remembers one bit. Lines that have no prose in them do no more than
change that bit, `firstProse_append`; and those that close whatever code they open leave it
as it was.

The line that is found is then cut. It fits the width, except when the mark for what was
cut off is wider than that: the mark is never shortened.

## Main definitions

* `linesOf`: The lines of a text, without the blanks around them.
* `inCodeBehind`: Whether code is open behind some lines.
* `IsProseAt`, `IsFirstProse`: Lines of prose, and the first of them.
* `IsCutTo`: What is left of a line that is cut to a width.
* `IsPassedOver`: Lines of which nothing is shown.

## Theorems

* `firstProse_eq_some_iff`: The line that is found is the first line of prose.
* `isCutTo_iff`: What cutting leaves of a line.
* `summarize_eq_some_iff`: The summary of a text.
* `firstProse_append`: Lines without prose are passed over.
* `summarize_behind`: Code and headings in front of a text are not in its summary.
-/

namespace StackScript

namespace Docs

variable {inCode : Bool} {line : List Char} {lines : List (List Char)}

/-- The mark at the front of a fence. -/
def fenceMark : List Char := ['`', '`', '`']

/-- The lines of a text, without the blanks around them. -/
def linesOf (body : String) : List (List Char) :=
  (body.toList.splitOn '\n').map Text.trim

/-- The summary is the first line of prose, cut to the width. -/
theorem summarize_eq (body : String) (width : Nat) :
    summarize body width = (firstProse false (linesOf body)).map fun line =>
      String.ofList (Text.truncateChars width line) :=
  rfl

theorem isFence_iff : isFence line ↔ fenceMark <+: line :=
  List.isPrefixOf_iff_prefix

-- A line of nothing but space is empty once it is trimmed.
theorem isSilent_iff : isSilent line ↔ line = [] ∨ ['#'] <+: line := by
  cases line with
  | nil => simp [isSilent]
  | cons c line => simp [isSilent, List.cons_prefix_cons, eq_comm]

/-! ## Lines of prose -/

/-- Whether code is open behind some lines. Fences come in pairs, so the last one of an odd
    number changes it. -/
def inCodeBehind (inCode : Bool) (lines : List (List Char)) : Bool :=
  inCode ^^ decide (lines.countP isFence % 2 = 1)

theorem inCodeBehind_nil (inCode : Bool) : inCodeBehind inCode [] = inCode :=
  Bool.xor_false inCode

/-- A fence more changes the parity, any other line does not. -/
theorem inCodeBehind_cons (inCode : Bool) (line : List Char) (lines : List (List Char)) :
    inCodeBehind inCode (line :: lines) = inCodeBehind (inCode ^^ isFence line) lines := by
  unfold inCodeBehind
  rw [List.countP_cons, Bool.xor_assoc]
  congr 1
  by_cases hfence : isFence line
  · have hparity : (lines.countP isFence + 1) % 2 = 1 ↔ ¬ lines.countP isFence % 2 = 1 := by omega
    rw [if_pos hfence, hfence, Bool.true_xor, decide_eq_decide.mpr hparity, decide_not]
  · rw [if_neg hfence, Bool.eq_false_iff.mpr hfence, Bool.false_xor]
    rfl

/-- The line at an index is a line of prose: it does not stand in code, and it is no fence,
    not blank and no heading. -/
structure IsProseAt (inCode : Bool) (lines : List (List Char)) (i : Nat) (line : List Char) :
    Prop where
  /-- The line is there. -/
  stands : lines[i]? = some line
  /-- No code is open in front of it. -/
  outside : inCodeBehind inCode (lines.take i) = false
  /-- It opens no code. -/
  noFence : ¬ fenceMark <+: line
  /-- It is not blank. -/
  notBlank : line ≠ []
  /-- It is no heading. -/
  noHeading : ¬ ['#'] <+: line

/-- The line is the first line of prose. -/
def IsFirstProse (inCode : Bool) (lines : List (List Char)) (line : List Char) : Prop :=
  ∃ i, IsProseAt inCode lines i line ∧ ∀ j < i, ∀ other, ¬ IsProseAt inCode lines j other

/-- The first line is prose if the three tests of the reader let it pass. -/
theorem isProseAt_zero (first : List Char) :
    IsProseAt inCode (first :: lines) 0 line ↔
      first = line ∧ (inCode || isFence line || isSilent line) = false := by
  have hquiet : isFence line = false ↔ ¬ fenceMark <+: line := by
    rw [← isFence_iff, Bool.not_eq_true]
  have hsilent : isSilent line = false ↔ line ≠ [] ∧ ¬ ['#'] <+: line := by
    rw [← not_or, ← isSilent_iff, Bool.not_eq_true]
  rw [Bool.or_eq_false_iff, Bool.or_eq_false_iff, hquiet, hsilent]
  constructor
  · rintro ⟨hline, houtside, hfence, hblank, hheading⟩
    rw [List.take_zero, inCodeBehind_nil] at houtside
    exact ⟨Option.some.inj hline, ⟨houtside, hfence⟩, hblank, hheading⟩
  · rintro ⟨rfl, ⟨rfl, hfence⟩, hblank, hheading⟩
    exact ⟨rfl, inCodeBehind_nil false, hfence, hblank, hheading⟩

/-- All other lines are prose exactly if they are behind the first one, with what the first
    one leaves open. -/
theorem isProseAt_succ (first : List Char) (i : Nat) :
    IsProseAt inCode (first :: lines) (i + 1) line ↔
      IsProseAt (inCode ^^ isFence first) lines i line := by
  have houtside := inCodeBehind_cons inCode first (lines.take i)
  constructor
  · rintro ⟨hline, hopen, hfence, hblank, hheading⟩
    exact ⟨hline, houtside ▸ hopen, hfence, hblank, hheading⟩
  · rintro ⟨hline, hopen, hfence, hblank, hheading⟩
    exact ⟨hline, houtside.trans hopen, hfence, hblank, hheading⟩

/-- Which line is the first line of prose can be told from the front. If the first line is
    none, the question is about the lines behind it. -/
theorem isFirstProse_cons (first : List Char) :
    IsFirstProse inCode (first :: lines) line ↔
      if (inCode || isFence first || isSilent first) = false then
        first = line
      else
        IsFirstProse (inCode ^^ isFence first) lines line := by
  split
  · next hprose =>
    constructor
    · rintro ⟨i, hi, hfirst⟩
      cases i with
      | zero => exact ((isProseAt_zero first).mp hi).1
      | succ i =>
          exact absurd ((isProseAt_zero first).mpr ⟨rfl, hprose⟩) (hfirst 0 i.succ_pos first)
    · rintro rfl
      exact ⟨0, (isProseAt_zero first).mpr ⟨rfl, hprose⟩, fun j hj => absurd hj j.not_lt_zero⟩
  · next hother =>
    constructor
    · rintro ⟨i, hi, hfirst⟩
      cases i with
      | zero =>
          -- The first line is no prose, so the line that is found is not this one.
          rcases (isProseAt_zero first).mp hi with ⟨rfl, hprose⟩
          exact absurd hprose hother
      | succ i =>
          refine ⟨i, (isProseAt_succ first i).mp hi, fun j hj other hprose => ?_⟩
          exact hfirst (j + 1) (Nat.succ_lt_succ hj) other ((isProseAt_succ first j).mpr hprose)
    · rintro ⟨i, hi, hfirst⟩
      refine ⟨i + 1, (isProseAt_succ first i).mpr hi, fun j hj other hprose => ?_⟩
      -- No line in front of it is prose: not the first one, and behind that none by what is
      -- assumed.
      cases j with
      | zero =>
          rcases (isProseAt_zero first).mp hprose with ⟨rfl, hprose⟩
          exact hother hprose
      | succ j =>
          exact hfirst j (Nat.lt_of_succ_lt_succ hj) other ((isProseAt_succ first j).mp hprose)

-- One line: it is found, or at most it opens or closes code.
theorem firstProse_cons (inCode : Bool) (first : List Char) (lines : List (List Char)) :
    firstProse inCode (first :: lines) =
      if (inCode || isFence first || isSilent first) = false then
        some first
      else
        firstProse (inCode ^^ isFence first) lines := by
  rw [firstProse]
  cases inCode <;> cases isFence first <;> cases isSilent first <;> rfl

/-- The line that is found is the first line of prose. -/
theorem firstProse_eq_some_iff :
    firstProse inCode lines = some line ↔ IsFirstProse inCode lines line := by
  induction lines generalizing inCode with
  | nil =>
      refine ⟨nofun, ?_⟩
      rintro ⟨i, ⟨hline, -⟩, -⟩
      cases hline
  | cons first lines ih =>
      rw [firstProse_cons, isFirstProse_cons]
      split
      · exact Option.some_inj
      · exact ih

/-! ## Cutting to a width -/

/-- A text is what is left of a line that is cut to a width. -/
structure IsCutTo (width : Nat) (line : List Char) (text : String) : Prop where
  /-- A line that fits is left as it is. -/
  whole : line.length ≤ width → text.toList = line
  /-- Of any other line its front is left, with the mark behind it. -/
  cut : width < line.length →
    ∃ front, front <+: line ∧ front.length = width - 3 ∧ text.toList = front ++ ['.', '.', '.']
  /-- The text fits, unless the line does not and neither does the mark. -/
  fits : text.length ≤ width ↔ line.length ≤ width ∨ 3 ≤ width

/-- A text is cut as it should be exactly if it is what the cutting gives. -/
theorem isCutTo_iff {width : Nat} {text : String} :
    IsCutTo width line text ↔ text = String.ofList (Text.truncateChars width line) := by
  rw [← String.toList_inj, String.toList_ofList, Text.truncateChars]
  split
  · next hfits =>
    refine ⟨fun h => h.whole hfits, fun h => ⟨fun _ => h, fun hlt => ?_, ?_⟩⟩
    · exact absurd hfits (Nat.not_le_of_lt hlt)
    · rw [← String.length_toList, h]
      exact ⟨.inl, fun _ => hfits⟩
  · -- The line is longer than the width, so a part of it is kept and the mark is put
    -- behind.
    next hlong =>
    have hlt : width < line.length := Nat.lt_of_not_le hlong
    have hlength : (line.take (width - 3)).length = width - 3 := by
      rw [List.length_take]
      omega
    constructor
    · intro h
      rcases h.cut hlt with ⟨front, hprefix, hfront, htext⟩
      rw [htext, List.prefix_iff_eq_take.mp hprefix, hfront]
      rfl
    · intro h
      refine ⟨fun hfits => absurd hfits hlong, fun _ => ⟨_, List.take_prefix _ _, hlength, h⟩, ?_⟩
      rw [← String.length_toList, h, List.length_append]
      -- With a width below the mark nothing of the line is kept, and the mark alone is too
      -- wide.
      change (line.take (width - 3)).length + 3 ≤ width ↔ _
      rw [hlength]
      omega

/-! ## Summaries -/

/-- The summary of a text is its first line of prose, cut to the width. It fits the width
    if the line does or the width has room for the mark. -/
theorem summarize_eq_some_iff (body : String) (width : Nat) (text : String) :
    summarize body width = some text ↔
      ∃ line, IsFirstProse false (linesOf body) line ∧ IsCutTo width line text := by
  rw [summarize_eq, Option.map_eq_some_iff]
  refine exists_congr fun line => and_congr firstProse_eq_some_iff ?_
  rw [isCutTo_iff, eq_comm]

/-- The mark alone has three characters. -/
theorem summarize_narrow :
    ¬ ∀ (body : String) (width : Nat) (text : String), summarize body width = some text →
      text.length ≤ width ∧ ∃ line, IsFirstProse false (linesOf body) line ∧
        (line.length ≤ width ∧ text.toList = line ∨
          ∃ front, front <+: line ∧ text.toList = front ++ ['.', '.', '.']) := by
  intro h
  have hwide := (h "abcd" 2 "..." (by decide)).1
  exact absurd hwide (by decide)

/-! ## Lines of which nothing is shown -/

/-- Behind lines without prose the reading goes on, in code or not. -/
theorem firstProse_append (h : firstProse inCode lines = none) (behind : List (List Char)) :
    firstProse inCode (lines ++ behind) = firstProse (inCodeBehind inCode lines) behind := by
  induction lines generalizing inCode with
  | nil => rw [inCodeBehind_nil, List.nil_append]
  | cons first lines ih =>
      rw [firstProse_cons] at h
      rw [List.cons_append, firstProse_cons, inCodeBehind_cons]
      split at h
      · cases h
      · next hother =>
        rw [if_neg hother]
        exact ih h

/-- Code that is not closed has no prose in it. -/
theorem firstProse_code (h : ∀ line ∈ lines, ¬ fenceMark <+: line) :
    firstProse true lines = none := by
  induction lines with
  | nil => rfl
  | cons first lines ih =>
      rw [List.forall_mem_cons] at h
      have hfence : isFence first = false := by
        rw [← Bool.not_eq_true, isFence_iff]
        exact h.1
      rw [firstProse_cons, hfence, if_neg (by simp)]
      exact ih h.2

/-- Lines of which nothing is shown: blank lines, headings and whole blocks of code, whose
    lines may look like anything but a fence. -/
inductive IsPassedOver : List (List Char) → Prop where
  | nil : IsPassedOver []
  | blank {lines : List (List Char)} (rest : IsPassedOver lines) : IsPassedOver ([] :: lines)
  | heading {line : List Char} {lines : List (List Char)} (mark : ['#'] <+: line)
      (rest : IsPassedOver lines) : IsPassedOver (line :: lines)
  | code {opening closing : List Char} {inside lines : List (List Char)}
      (begins : fenceMark <+: opening) (within : ∀ line ∈ inside, ¬ fenceMark <+: line)
      (ends : fenceMark <+: closing) (rest : IsPassedOver lines) :
      IsPassedOver (opening :: (inside ++ closing :: lines))

-- A fence is never shown, it turns code into prose and prose into code.
theorem firstProse_fence {fence : List Char} (h : fenceMark <+: fence) :
    firstProse inCode (fence :: lines) = firstProse (!inCode) lines := by
  rw [firstProse, if_pos (isFence_iff.mpr h)]

/-- Outside of code such a line is passed over. -/
theorem firstProse_silent (h : line = [] ∨ ['#'] <+: line) :
    firstProse false (line :: lines) = firstProse false lines := by
  have hsilent := isSilent_iff.mpr h
  have hfence : ¬ isFence line := by
    rw [isFence_iff]
    rintro ⟨more, rfl⟩
    rcases h with h | h
    · cases h
    · exact absurd (List.cons_prefix_cons.mp h).1 (by decide)
  rw [firstProse, if_neg hfence, hsilent, if_pos (Bool.false_or true)]

/-- The reading goes on behind such lines as if they were not there. -/
theorem IsPassedOver.firstProse_append (h : IsPassedOver lines) (behind : List (List Char)) :
    firstProse false (lines ++ behind) = firstProse false behind := by
  induction h with
  | nil => rfl
  | blank _ ih => rw [List.cons_append, firstProse_silent (.inl rfl), ih]
  | heading mark _ ih => rw [List.cons_append, firstProse_silent (.inr mark), ih]
  | @code opening closing inside lines begins within ends _ ih =>
      -- No line inside is a fence, so the code is open still when the closing one comes.
      have hopen : inCodeBehind true inside = true := by
        have hnone : inside.countP isFence = 0 :=
          List.countP_eq_zero.mpr fun line hline hfence => within line hline (isFence_iff.mp hfence)
        rw [inCodeBehind, hnone]
        rfl
      rw [List.cons_append, List.append_assoc, List.cons_append, firstProse_fence begins,
        Bool.not_false, Docs.firstProse_append (firstProse_code within), hopen,
        firstProse_fence ends, Bool.not_true, ih]

/-- The text of some lines, each with a line feed behind it. -/
def textOf (lines : List (List Char)) : String :=
  String.ofList (lines.flatMap fun line => line ++ ['\n'])

/-- The lines of a text that is put together from lines are those lines, and then the lines
    of what is put behind. -/
theorem linesOf_textOf_append (h : ∀ line ∈ lines, '\n' ∉ line) (rest : String) :
    linesOf (textOf lines ++ rest) = lines.map Text.trim ++ linesOf rest := by
  induction lines with
  | nil =>
      rw [textOf, List.flatMap_nil, List.map_nil, List.nil_append, String.ofList_nil,
        String.empty_append]
  | cons line lines ih =>
      rw [List.forall_mem_cons] at h
      -- The line ends at its own line feed, since there is none in it.
      have hchars : (textOf (line :: lines) ++ rest).toList =
          line ++ '\n' :: (textOf lines ++ rest).toList := by
        simp [textOf, String.toList_append]
      rw [linesOf, hchars, List.splitOn_append_cons_self_of_not_mem h.1, List.map_cons,
        List.map_cons, List.cons_append, ← ih h.2]
      rfl

/-- Blank lines, headings and whole blocks of code in front of a text make no difference to
    its summary, and there is no summary if nothing but code follows them that is never
    closed. -/
theorem summarize_behind {front : List (List Char)} (hlines : ∀ line ∈ front, '\n' ∉ line)
    (hfront : IsPassedOver (front.map Text.trim)) (width : Nat) :
    (∀ rest, summarize (textOf front ++ rest) width = summarize rest width) ∧
      ∀ rest opening inside, linesOf rest = opening :: inside → fenceMark <+: opening →
        (∀ line ∈ inside, ¬ fenceMark <+: line) →
          summarize (textOf front ++ rest) width = none := by
  have hbehind : ∀ rest, summarize (textOf front ++ rest) width = summarize rest width := by
    intro rest
    rw [summarize_eq, linesOf_textOf_append hlines, hfront.firstProse_append, summarize_eq]
  refine ⟨hbehind, fun rest opening inside hrest hopening hinside => ?_⟩
  rw [hbehind, summarize_eq, hrest, firstProse_fence hopening, Bool.not_false,
    firstProse_code hinside, Option.map_none]

/-- In front of the text stand a heading, a blank line and code that has a heading in it;
    the code behind it is not closed. -/
theorem summarize_behind_query :
    summarize (textOf ["# db.query".toList, " ".toList, " ```xs".toList, "# db".toList,
        "```".toList] ++ "Query records.") 80 = summarize "Query records." 80 ∧
      summarize (textOf ["# db.query".toList, " ".toList, " ```xs".toList, "# db".toList,
        "```".toList] ++ "```\nQuery records.") 80 = none := by
  have hlines : ∀ line ∈ ["# db.query".toList, " ".toList, " ```xs".toList, "# db".toList,
      "```".toList], '\n' ∉ line := by decide
  -- A heading, a blank line, and a block of code in which a line looks like a heading.
  have hfront : IsPassedOver (["# db.query".toList, " ".toList, " ```xs".toList, "# db".toList,
      "```".toList].map Text.trim) := by
    have hcode : IsPassedOver ("```xs".toList :: (["# db".toList] ++ "```".toList :: [])) :=
      .code (by decide) (by decide) (by decide) .nil
    exact .heading (by decide) (.blank hcode)
  rcases summarize_behind hlines hfront 80 with ⟨hbehind, hopen⟩
  exact ⟨hbehind "Query records.",
    hopen "```\nQuery records." "```".toList ["Query records.".toList] (by decide) (by decide)
      (by decide)⟩

end Docs

end StackScript
