import StackScript.Proofs.Json.RoundTrip

/-!
# Values in One Line

A value in one line has the same marks as over several, with nothing between
them. What was shown of the machine that puts marks together holds of it as it
stands, so only the layout is gone through once more. Without blanks a comma or
a bracket has to end the number in front of it, which is the condition under
which `CutsInto.append` joins two pieces.

## Theorems

* `cutsInto_compactChars`: The marks of a value in one line.
* `parse?_compact`: A value in one line is read back.
-/

namespace StackScript

namespace Json

/-- The value is cut into its marks in one line. -/
def LiesFlat (value : Json) : Prop :=
  CutsInto (compactChars value) (marksOf value)

/-- Items are put together with a comma between them, which no number goes on with. -/
theorem cutsInto_compactItems {item : Json} {items : List Json} (h : LiesFlat item)
    (hitems : ∀ item ∈ items, LiesFlat item) :
    CutsInto (compactItems (item :: items)) (marksOf item ++ itemMarks items) := by
  induction items generalizing item with
  | nil =>
      rw [compactItems, itemMarks, List.append_nil]
      exact h
  | cons next items ih =>
      rw [List.forall_mem_cons] at hitems
      have hrest := (ih hitems.1 hitems.2).sign (c := ',') rfl fun _ => rfl
      rw [compactItems, itemMarks]
      exact h.append hrest (by decide)

/-- A name with its value. -/
theorem cutsInto_compactMember {name cs : List Char} {marks : List Mark}
    (hname : IsStringText name) (h : CutsInto cs marks) :
    CutsInto (quote name ++ ':' :: cs) (.atom (.string name) :: .colon :: marks) :=
  cutsInto_string hname (h.sign rfl fun _ => rfl)

/-- Members are put together in the same way, each with its name in front. -/
theorem cutsInto_compactMembers {member : List Char × Json} {members : List (List Char × Json)}
    (name : IsStringText member.1) (value : LiesFlat member.2)
    (names : ∀ member ∈ members, IsStringText member.1)
    (values : ∀ member ∈ members, LiesFlat member.2) :
    CutsInto (compactMembers (member :: members))
      (.atom (.string member.1) :: .colon :: (marksOf member.2 ++ memberMarks members)) := by
  induction members generalizing member with
  | nil =>
      rw [compactMembers, memberMarks, List.append_nil]
      exact cutsInto_compactMember name value
  | cons next members ih =>
      rw [List.forall_mem_cons] at names values
      have hrest := (ih names.1 values.1 names.2 values.2).sign (c := ',') rfl fun _ => rfl
      rw [compactMembers, memberMarks, List.append_assoc]
      exact cutsInto_compactMember name (value.append hrest (by decide))

/-- Whatever value it is, its marks are those of its text. -/
theorem cutsInto_compactChars {value : Json} (h : Proper value) : LiesFlat value := by
  induction h with
  | null => exact fun rest _ => marks?_mark rfl rfl
  | bool value =>
      cases value with
      | false => exact fun rest _ => marks?_mark rfl rfl
      | true => exact fun rest _ => marks?_mark rfl rfl
  | number h => exact cutsInto_number h
  | string h =>
      have hstring := cutsInto_string h cutsInto_nil
      rw [List.append_nil] at hstring
      exact hstring
  | @array items h ih =>
      have hclose : CutsInto [']'] [.closeArray] := cutsInto_nil.sign rfl fun _ => rfl
      cases items with
      | nil => exact hclose.sign rfl fun _ => rfl
      | cons item items =>
          rw [List.forall_mem_cons] at ih
          -- The items, and then the bracket that ends them.
          have hitems := cutsInto_compactItems ih.1 ih.2
          rw [LiesFlat, compactChars, marksOf, ← List.append_assoc (marksOf item)]
          exact (hitems.append hclose (by decide)).sign rfl fun _ => rfl
  | @object members names values ih =>
      have hclose : CutsInto ['\x7d'] [.closeObject] := cutsInto_nil.sign rfl fun _ => rfl
      cases members with
      | nil => exact hclose.sign rfl fun _ => rfl
      | cons member members =>
          rw [List.forall_mem_cons] at names ih
          have hmembers := cutsInto_compactMembers names.1 ih.1 names.2 ih.2
          rw [LiesFlat, compactChars, marksOf, ← List.append_assoc (marksOf member.2)]
          exact (hmembers.append hclose (by decide)).sign rfl fun _ => rfl

/-- A value in one line is read back. -/
theorem parse?_compact {value : Json} (h : Proper value) : parse? value.compact = some value := by
  have hmarks := cutsInto_compactChars h [] nofun
  rw [List.append_nil] at hmarks
  rw [parse?, compact, String.toList_ofList, hmarks, marks?]
  exact (congrArg ofMarks? (List.append_nil _)).trans (ofMarks?_marksOf h)

end Json

end StackScript
