import StackScript.Json.Print
import StackScript.Json.Record
import StackScript.Proofs.Json.Written

/-!
# Values Written and Read Back

What is read from a written value does not depend on how it is laid out. A text
is first cut into marks, and `marksOf` says which marks a value has: in whatever
way it is laid out, these are the marks of its text. The machine that puts marks
together then knows nothing of the layout any more.

Two things can go wrong where values meet. A number has no end of its own and
goes on for as long as there are characters of numbers, so whatever follows a
value must not begin with one. And the machine does not know what an item of an
array begins with, while it may be told that there is none; but no value begins
with the end of an array.

A string or a number is kept as it is written, and what is written need not be a
string or a number at all. `Proper` rules this out.

## Main definitions

* `marksOf`: The marks of a value.
* `IsStringText`, `IsNumberText`: What a string and a number may look like.
* `Proper`: A value in which they look like this.
* `Takes`: The machine makes a value of some marks.
* `LaysOut`: A value over several lines has its marks.

## Theorems

* `takes_marksOf`: The machine puts the marks of a value together.
* `laysOut_of_proper`: The marks of a value over several lines.
* `parse?_pretty`: A value over several lines is read back.
-/

namespace StackScript

namespace Json

mutual

/-- The marks of a value. -/
def marksOf : Json → List Mark
  | array [] => [.openArray, .closeArray]
  | array (item :: items) => .openArray :: (marksOf item ++ (itemMarks items ++ [.closeArray]))
  | object [] => [.openObject, .closeObject]
  | object ((name, value) :: members) =>
      .openObject :: .atom (.string name) :: .colon ::
        (marksOf value ++ (memberMarks members ++ [.closeObject]))
  | value => [.atom value]

/-- The marks of the items of an array behind the first. -/
def itemMarks : List Json → List Mark
  | [] => []
  | item :: items => .comma :: (marksOf item ++ itemMarks items)

/-- The marks of the members of an object behind the first. -/
def memberMarks : List (List Char × Json) → List Mark
  | [] => []
  | (name, value) :: members =>
      .comma :: .atom (.string name) :: .colon :: (marksOf value ++ memberMarks members)

end

/-- The characters may stand between quotes, and end at the quote behind
    them. -/
def IsStringText (written : List Char) : Prop :=
  ∀ rest, scanString? (written ++ '"' :: rest) = some (written, rest)

/-- The characters write a number. -/
def IsNumberText (written : List Char) : Prop :=
  isNumber written = true ∧ ∀ c ∈ written, isNumberChar c = true

/-- The strings and numbers in the value are written as strings and numbers. -/
inductive Proper : Json → Prop where
  | null : Proper null
  | bool (value : Bool) : Proper (bool value)
  | number {written : List Char} (h : IsNumberText written) : Proper (number written)
  | string {written : List Char} (h : IsStringText written) : Proper (string written)
  | array {items : List Json} (h : ∀ item ∈ items, Proper item) : Proper (array items)
  | object {members : List (List Char × Json)} (names : ∀ member ∈ members, IsStringText member.1)
      (values : ∀ member ∈ members, Proper member.2) : Proper (object members)

/-! ## The machine -/

namespace State

/-- The machine takes the marks for the value, whatever is open around it. -/
def Takes (marks : List Mark) (value : Json) : Prop :=
  ∀ frames, marks.foldlM step? (atValue frames) = some (behind value frames)

theorem takes_atom (value : Json) : Takes [.atom value] value :=
  fun _ => rfl

/-- No value begins with the end of an array, so at its first item an array is read like at
    any other. -/
theorem Takes.atFirstItem {marks : List Mark} {value : Json} (h : Takes marks value)
    (frames : List Frame) :
    marks.foldlM step? (atFirstItem frames) = some (behind value (.array [] :: frames)) := by
  have hvalue := h (.array [] :: frames)
  cases marks with
  | nil => cases hvalue
  | cons mark marks =>
      cases mark with
      | closeArray => cases hvalue
      | _ => exact hvalue

-- What comes behind a value is read with the value done.
theorem Takes.append {marks : List Mark} {value : Json} (h : Takes marks value)
    (others : List Mark) (frames : List Frame) :
    (marks ++ others).foldlM step? (atValue frames) =
      others.foldlM step? (behind value frames) := by
  rw [List.foldlM_append, h frames]
  rfl

/-- Behind a value in an array the machine takes a comma and the next item, again and again,
    and then the bracket. -/
theorem foldlM_itemMarks {items : List Json} (h : ∀ item ∈ items, Takes (marksOf item) item)
    (done : List Json) (value : Json) (frames : List Frame) :
    (itemMarks items ++ [Mark.closeArray]).foldlM step? (behind value (.array done :: frames)) =
      some (behind (.array (done.reverse ++ value :: items)) frames) := by
  induction items generalizing done value with
  | nil =>
      rw [itemMarks, ← List.reverse_cons]
      rfl
  | cons item items ih =>
      rw [List.forall_mem_cons] at h
      have hitems := ih h.2 (value :: done) item
      rw [List.reverse_cons, List.append_assoc, List.singleton_append] at hitems
      rw [itemMarks, List.cons_append, List.append_assoc, ← hitems]
      exact h.1.append _ _

/-- In an object each value has a name in front. -/
theorem foldlM_memberMarks {members : List (List Char × Json)}
    (h : ∀ member ∈ members, Takes (marksOf member.2) member.2)
    (done : List (List Char × Json)) (name : List Char) (value : Json) (frames : List Frame) :
    (memberMarks members ++ [Mark.closeObject]).foldlM step?
        (behind value (.object done name :: frames)) =
      some (behind (.object (done.reverse ++ (name, value) :: members)) frames) := by
  induction members generalizing done name value with
  | nil =>
      rw [memberMarks, ← List.reverse_cons]
      rfl
  | cons member members ih =>
      rw [List.forall_mem_cons] at h
      have hmembers := ih h.2 ((name, value) :: done) member.1 member.2
      rw [List.reverse_cons, List.append_assoc, List.singleton_append] at hmembers
      rw [memberMarks, List.cons_append, List.cons_append, List.cons_append, List.append_assoc,
        ← hmembers]
      exact h.1.append _ _

/-- The machine takes the marks of a value for this value. -/
theorem takes_marksOf {value : Json} (h : Proper value) : Takes (marksOf value) value := by
  induction h with
  | null => exact takes_atom _
  | bool value => exact takes_atom _
  | number h => exact takes_atom _
  | string h => exact takes_atom _
  | @array items h ih =>
      intro frames
      cases items with
      | nil => rfl
      | cons item items =>
          rw [List.forall_mem_cons] at ih
          have hitems := foldlM_itemMarks ih.2 [] item frames
          rw [List.reverse_nil, List.nil_append] at hitems
          -- The first item has no comma in front, and the machine waits for an item or for
          -- the end.
          change (marksOf item ++ (itemMarks items ++ [Mark.closeArray])).foldlM step?
            (atFirstItem frames) = _
          rw [List.foldlM_append, ih.1.atFirstItem frames, ← hitems]
          rfl
  | @object members names values ih =>
      intro frames
      cases members with
      | nil => rfl
      | cons member members =>
          rw [List.forall_mem_cons] at ih
          have hmembers := foldlM_memberMarks ih.2 [] member.1 member.2 frames
          rw [List.reverse_nil, List.nil_append] at hmembers
          rw [← hmembers]
          exact ih.1.append (memberMarks members ++ [Mark.closeObject])
            (.object [] member.1 :: frames)

end State

/-- The marks of a value are put together to this value. -/
theorem ofMarks?_marksOf {value : Json} (h : Proper value) : ofMarks? (marksOf value) = some value := by
  rw [ofMarks?, State.takes_marksOf h []]
  rfl

/-! ## The layout -/

/-- The rest is empty or begins with a character that no number goes on with. -/
def EndsNumber (rest : List Char) : Prop :=
  ∀ c ∈ rest.head?, isNumberChar c = false

/-- The characters are cut into the marks, whatever follows behind their end. -/
def CutsInto (cs : List Char) (marks : List Mark) : Prop :=
  ∀ rest, EndsNumber rest → marks? (cs ++ rest) = (marks? rest).map (marks ++ ·)

theorem marks?_gap {c : Char} (h : isGap c = true) (cs : List Char) :
    marks? (c :: cs) = marks? cs := by
  rw [marks?, if_pos h]

/-- Any other character begins a mark. -/
theorem marks?_mark {c : Char} {cs behind : List Char} {mark : Mark} (hgap : isGap c = false)
    (h : mark? c cs = some (mark, behind)) :
    marks? (c :: cs) = (marks? behind).map (mark :: ·) := by
  rw [marks?, if_neg (by rw [hgap]; exact Bool.false_ne_true)]
  split
  · next hnone => cases h.symm.trans hnone
  · next found rest hfound =>
    cases h.symm.trans hfound
    rfl

theorem cutsInto_nil : CutsInto [] [] := by
  intro rest _
  exact (congrFun Option.map_id (marks? rest)).symm

theorem CutsInto.gap {cs : List Char} {marks : List Mark} (h : CutsInto cs marks) {c : Char}
    (hgap : isGap c = true) : CutsInto (c :: cs) marks := by
  intro rest hrest
  rw [List.cons_append, marks?_gap hgap, h rest hrest]

theorem CutsInto.newLine {cs : List Char} {marks : List Mark} (h : CutsInto cs marks)
    (level : Nat) : CutsInto (Json.newLine level ++ cs) marks := by
  refine CutsInto.gap ?_ rfl
  induction 2 * level with
  | zero => exact h
  | succ n ih => exact ih.gap rfl

/-- A mark that is made of one character. -/
theorem CutsInto.sign {cs : List Char} {marks : List Mark} (h : CutsInto cs marks) {c : Char}
    {mark : Mark} (hgap : isGap c = false) (hmark : ∀ rest, mark? c rest = some (mark, rest)) :
    CutsInto (c :: cs) (mark :: marks) := by
  intro rest hrest
  rw [List.cons_append, marks?_mark hgap (hmark _), h rest hrest, Option.map_map]
  rfl

/-- Two pieces may be put together if no number goes on from the one into the other. -/
theorem CutsInto.append {cs others : List Char} {marks behind : List Mark} {c : Char}
    (h : CutsInto cs marks) (hothers : CutsInto (c :: others) behind)
    (hc : isNumberChar c = false) : CutsInto (cs ++ c :: others) (marks ++ behind) := by
  intro rest hrest
  have hends : EndsNumber (c :: others ++ rest) := by
    intro d hd
    cases hd
    exact hc
  rw [List.append_assoc, h _ hends, hothers rest hrest, Option.map_map]
  congr 1
  funext found
  exact (List.append_assoc marks behind found).symm

/-- A string ends at its quote, so anything may stand behind it. -/
theorem cutsInto_string {written : List Char} (h : IsStringText written) {cs : List Char}
    {marks : List Mark} (hcs : CutsInto cs marks) :
    CutsInto (quote written ++ cs) (.atom (.string written) :: marks) := by
  intro rest hrest
  -- The scan stops at the quote that was put behind the string.
  have hmark : mark? '"' (written ++ '"' :: (cs ++ rest)) =
      some (.atom (.string written), cs ++ rest) := by
    unfold mark?
    rw [h (cs ++ rest)]
    rfl
  have hquote : quote written ++ cs ++ rest = '"' :: (written ++ '"' :: (cs ++ rest)) := by
    rw [quote, List.cons_append, List.cons_append, List.append_assoc, List.append_assoc]
    rfl
  rw [hquote, marks?_mark rfl hmark, hcs rest hrest, Option.map_map]
  rfl

/-- Nothing else begins with a character of numbers. -/
theorem mark?_number {c : Char} (h : isNumberChar c = true) (cs : List Char) :
    mark? c cs =
      if isNumber (c :: cs.takeWhile isNumberChar) then
        some (.atom (.number (c :: cs.takeWhile isNumberChar)), cs.dropWhile isNumberChar)
      else
        none := by
  unfold mark?
  split
  case h_11 => rfl
  all_goals exact absurd h (by decide)

/-- A number goes on for as long as there are characters of numbers. -/
theorem takeWhile_append_of_endsNumber {written rest : List Char}
    (h : ∀ c ∈ written, isNumberChar c = true) (hrest : EndsNumber rest) :
    (written ++ rest).takeWhile isNumberChar = written ∧
      (written ++ rest).dropWhile isNumberChar = rest := by
  rw [List.takeWhile_append_of_pos h, List.dropWhile_append_of_pos h]
  cases rest with
  | nil => exact ⟨List.append_nil _, rfl⟩
  | cons c rest =>
      have hc : ¬ isNumberChar c = true := Bool.eq_false_iff.mp (hrest c rfl)
      rw [List.takeWhile_cons_of_neg hc, List.dropWhile_cons_of_neg hc]
      exact ⟨List.append_nil _, rfl⟩

theorem isGap_of_isNumberChar {c : Char} (h : isNumberChar c = true) : isGap c = false := by
  rw [Bool.eq_false_iff]
  intro hgap
  simp only [isGap, Bool.or_eq_true, decide_eq_true_eq] at hgap
  rcases hgap with ((rfl | rfl) | rfl) | rfl
  all_goals exact absurd h (by decide)

/-- A number ends in front of anything that is no character of numbers. -/
theorem cutsInto_number {written : List Char} (h : IsNumberText written) :
    CutsInto written [.atom (.number written)] := by
  intro rest hrest
  rcases h with ⟨hnumber, hchars⟩
  cases written with
  | nil => cases hnumber
  | cons c cs =>
      rw [List.forall_mem_cons] at hchars
      rcases takeWhile_append_of_endsNumber hchars.2 hrest with ⟨htake, hdrop⟩
      have hmark := mark?_number hchars.1 (cs ++ rest)
      rw [htake, hdrop, if_pos hnumber] at hmark
      rw [List.cons_append, marks?_mark (isGap_of_isNumberChar hchars.1) hmark]
      rfl

/-- The value is cut into its marks on whatever level it stands. -/
def LaysOut (value : Json) : Prop :=
  ∀ level, CutsInto (prettyChars level value) (marksOf value)

/-- Items over several lines have the marks of items in one. -/
theorem cutsInto_prettyItems {item : Json} {items : List Json} (h : LaysOut item)
    (hitems : ∀ item ∈ items, LaysOut item) (level : Nat) :
    CutsInto (prettyItems level (item :: items)) (marksOf item ++ itemMarks items) := by
  induction items generalizing item with
  | nil =>
      rw [prettyItems, itemMarks, List.append_nil]
      exact (h level).newLine level
  | cons next items ih =>
      rw [List.forall_mem_cons] at hitems
      have hrest := (ih hitems.1 hitems.2).sign (c := ',') rfl fun _ => rfl
      rw [prettyItems, itemMarks]
      exact ((h level).newLine level).append hrest (by decide)

/-- A name with its value, where the name is on a line of its own. -/
theorem cutsInto_member {name cs : List Char} {marks : List Mark} (hname : IsStringText name)
    (h : CutsInto cs marks) (level : Nat) :
    CutsInto (newLine level ++ quote name ++ ':' :: ' ' :: cs)
      (.atom (.string name) :: .colon :: marks) := by
  rw [List.append_assoc]
  exact (cutsInto_string hname ((h.gap rfl).sign rfl fun _ => rfl)).newLine level

theorem cutsInto_prettyMembers {member : List Char × Json} {members : List (List Char × Json)}
    (name : IsStringText member.1) (value : LaysOut member.2)
    (names : ∀ member ∈ members, IsStringText member.1)
    (values : ∀ member ∈ members, LaysOut member.2) (level : Nat) :
    CutsInto (prettyMembers level (member :: members))
      (.atom (.string member.1) :: .colon :: (marksOf member.2 ++ memberMarks members)) := by
  induction members generalizing member with
  | nil =>
      rw [prettyMembers, memberMarks, List.append_nil]
      exact cutsInto_member name (value level) level
  | cons next members ih =>
      rw [List.forall_mem_cons] at names values
      have hrest := (ih names.1 values.1 names.2 values.2).sign (c := ',') rfl fun _ => rfl
      rw [prettyMembers, memberMarks, List.append_assoc]
      exact cutsInto_member name ((value level).append hrest (by decide)) level

-- The bracket at the end stands on its own line.
theorem cutsInto_close {c : Char} {mark : Mark} (hgap : isGap c = false)
    (hmark : ∀ rest, mark? c rest = some (mark, rest)) (level : Nat) :
    CutsInto (newLine level ++ [c]) [mark] :=
  (cutsInto_nil.sign hgap hmark).newLine level

/-- Whatever value it is, its marks are those of its text. -/
theorem laysOut_of_proper {value : Json} (h : Proper value) : LaysOut value := by
  intro level
  induction h generalizing level with
  | null => exact fun rest _ => marks?_mark rfl rfl
  | bool value =>
      cases value with
      | false => exact fun rest _ => marks?_mark rfl rfl
      | true => exact fun rest _ => marks?_mark rfl rfl
  | number h => exact cutsInto_number h
  | string h =>
      have hstring := cutsInto_string h cutsInto_nil
      rw [List.append_nil] at hstring
      exact hstring
  | @array items h ih =>
      cases items with
      | nil => exact (cutsInto_nil.sign rfl fun _ => rfl).sign rfl fun _ => rfl
      | cons item items =>
          rw [List.forall_mem_cons] at ih
          have hitems := cutsInto_prettyItems ih.1 ih.2 (level + 1)
          -- The bracket ends the last item, even if that is a number.
          have hclose := cutsInto_close (c := ']') rfl (fun _ => rfl) level
          rw [prettyChars, marksOf, List.append_assoc, ← List.append_assoc (marksOf item)]
          exact (hitems.append hclose (by decide)).sign rfl fun _ => rfl
  | @object members names values ih =>
      cases members with
      | nil => exact (cutsInto_nil.sign rfl fun _ => rfl).sign rfl fun _ => rfl
      | cons member members =>
          rw [List.forall_mem_cons] at names ih
          have hmembers := cutsInto_prettyMembers names.1 ih.1 names.2 ih.2 (level + 1)
          have hclose := cutsInto_close (c := '\x7d') rfl (fun _ => rfl) level
          rw [prettyChars, marksOf, List.append_assoc, ← List.append_assoc (marksOf member.2)]
          exact (hmembers.append hclose (by decide)).sign rfl fun _ => rfl

/-- A value over several lines is read back. -/
theorem parse?_pretty {value : Json} (h : Proper value) : parse? value.pretty = some value := by
  have hmarks := laysOut_of_proper h 0 [] nofun
  rw [List.append_nil] at hmarks
  rw [parse?, pretty, String.toList_ofList, hmarks, marks?]
  exact (congrArg ofMarks? (List.append_nil _)).trans (ofMarks?_marksOf h)

end Json

end StackScript
