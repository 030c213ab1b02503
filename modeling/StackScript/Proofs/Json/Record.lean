import StackScript.Proofs.Json.RoundTrip
import StackScript.Proofs.OrderedTable

/-!
# Records Read Back

The reader of a record looks for each of its fields by name and refuses a name
that comes twice. A record that was written has each of its names once, so every
field is found with the value that it was written with, in whatever order they
are asked for, and a field that was left out is found to have none.

## Main definitions

* `slots`: The members of some fields, of which some have no value.

## Theorems

* `proper_record`: A record of proper values is proper.
* `members?_record`: The names and values of a written record.
* `fields?_record`: Its fields, by their names.
* `fields?_slots`: Its fields, with those that were left out.
-/

namespace StackScript

namespace Json

-- An escaped text is read up to the quote behind it.
theorem isStringText_escape (cs : List Char) : IsStringText (escape cs) :=
  scanString?_escape cs

theorem proper_ofText (text : String) : Proper (ofText text) :=
  .string (isStringText_escape _)

-- The digits of a number make a number.
theorem proper_ofNat (n : Nat) : Proper (ofNat n) :=
  .number ⟨isNumber_toDigits n, fun c hc => by
    rw [isNumberChar, isDigit_of_mem_toDigits hc]
    rfl⟩

/-- The names of a record are texts. -/
theorem proper_record {members : List (String × Json)} (h : ∀ member ∈ members, Proper member.2) :
    Proper (record members) := by
  refine .object ?_ ?_
  · intro written hwritten
    rcases List.mem_map.mp hwritten with ⟨member, -, rfl⟩
    exact isStringText_escape _
  · intro written hwritten
    rcases List.mem_map.mp hwritten with ⟨member, hmember, rfl⟩
    exact h member hmember

/-- A written record has the names and values that it was written with. -/
theorem members?_record (members : List (String × Json)) :
    (record members).members? = some members := by
  have hmember : (fun written : List Char × Json =>
      (unescape? written.1).map fun name => (String.ofList name, written.2)) ∘
        (fun member : String × Json => (escape member.1.toList, member.2)) = pure := by
    funext member
    rw [Function.comp_apply, unescape?_escape, Option.map_some, String.ofList_toList]
    rfl
  rw [record, members?, List.mapM_map, hmember]
  exact (List.mapM_pure (f := id)).trans (congrArg some (List.map_id _))

/-- A name that does not come twice is found where it is. -/
theorem uniqueMember?_of_nodup {members : List (String × Json)}
    (h : (members.map (·.1)).Nodup) (name : String) :
    uniqueMember? members name = some ((members.find? fun member => member.1 = name).map (·.2)) := by
  rw [uniqueMember?, filter_name_eq_toList h name]
  cases members.find? fun member => member.1 = name with
  | none => rfl
  | some member => rfl

/-- Every field of a written record is found under its name, and nothing is found
    under other names. -/
theorem fields?_record {members : List (String × Json)} (h : (members.map (·.1)).Nodup)
    (names : List String) (droppable : Nat) :
    (record members).fields? names droppable =
      some (names.map fun name => (members.find? fun member => member.1 = name).map (·.2)) := by
  have hunique : uniqueMember? members = fun name =>
      pure ((members.find? fun member => member.1 = name).map (·.2)) :=
    funext (uniqueMember?_of_nodup h)
  change ((record members).members? >>= fun members => names.mapM (uniqueMember? members)) = _
  rw [members?_record]
  change names.mapM (uniqueMember? members) = _
  rw [hunique, List.mapM_pure]
  rfl

/-! ## Fields without a value -/

/-- The members of some fields. One that has no value is left out. -/
def slots (fields : List (String × Option Json)) : List (String × Json) :=
  fields.flatMap fun field => optionalMember field.1 field.2

theorem slots_nil : slots [] = [] :=
  rfl

theorem slots_cons (field : String × Option Json) (fields : List (String × Option Json)) :
    slots (field :: fields) = optionalMember field.1 field.2 ++ slots fields :=
  List.flatMap_cons

/-- What is left are the fields that have a value. -/
theorem mem_slots {fields : List (String × Option Json)} {member : String × Json} :
    member ∈ slots fields ↔ (member.1, some member.2) ∈ fields := by
  rcases member with ⟨name, value⟩
  rw [slots, List.mem_flatMap]
  constructor
  · rintro ⟨⟨other, found⟩, hfield, hmember⟩
    cases found with
    | none => cases hmember
    | some found =>
        cases List.mem_singleton.mp hmember
        exact hfield
  · exact fun hfield => ⟨_, hfield, List.mem_singleton_self _⟩

theorem proper_slots {fields : List (String × Option Json)}
    (h : ∀ field ∈ fields, ∀ value ∈ field.2, Proper value) : Proper (record (slots fields)) :=
  proper_record fun _ hmember => h _ (mem_slots.mp hmember) _ rfl

/-- The names that are left are in the order of the fields. -/
theorem names_slots_sublist (fields : List (String × Option Json)) :
    ((slots fields).map (·.1)).Sublist (fields.map (·.1)) := by
  induction fields with
  | nil => exact List.Sublist.refl _
  | cons field fields ih =>
      rcases field with ⟨name, _ | value⟩
      · exact ih.cons name
      · exact ih.cons_cons name

/-- Every field is found with the value that it has, and with none if it has none. -/
theorem find?_slots {fields : List (String × Option Json)} (h : (fields.map (·.1)).Nodup) :
    (fields.map fun field =>
        ((slots fields).find? fun member => member.1 = field.1).map (·.2)) =
      fields.map (·.2) := by
  refine List.map_congr_left fun field hfield => ?_
  cases hfind : (slots fields).find? fun member => member.1 = field.1 with
  | none =>
      cases hvalue : field.2 with
      | none => rfl
      | some value =>
          have hmember : (field.1, value) ∈ slots fields := mem_slots.mpr (hvalue ▸ hfield)
          exact absurd (decide_eq_true rfl) (List.find?_eq_none.mp hfind _ hmember)
  | some member =>
      -- No two fields have one name, so the member is that of the field.
      have hname : member.1 = field.1 := of_decide_eq_true (List.find?_some hfind :)
      have hsame := mem_slots.mp (List.mem_of_find?_eq_some hfind)
      exact congrArg Prod.snd (List.inj_on_of_nodup_map h hsame hfield hname)

/-- Every field of a written record is found with the value that it was written
    with, and one that was left out without any. -/
theorem fields?_slots {fields : List (String × Option Json)} (h : (fields.map (·.1)).Nodup)
    (droppable : Nat) :
    (record (slots fields)).fields? (fields.map (·.1)) droppable = some (fields.map (·.2)) := by
  rw [fields?_record (h.sublist (names_slots_sublist fields)), List.map_map]
  exact congrArg some (find?_slots h)

end Json

end StackScript
