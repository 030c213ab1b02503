import StackScript.Json.Basic

/-!
# Records in JSON

A record is an object with a name for each of its fields. It may also be
written as an array of the fields in their order. Unknown names of an object
are passed over, whatever their values are; a known name must not come twice.

A text from a fixed list is written as a string, or as an object with the text
as its only name and null as the value.

## Main definitions

* `Json.record`: An object with the given members.
* `Json.fields?`: The fields of a record, in order.
* `Json.members?`: The members of an object used as a table.
* `Json.word?`: The text of a list of texts.
-/

namespace StackScript

namespace Json

/-- The object with the given members. -/
def record (members : List (String × Json)) : Json :=
  object (members.map fun member => (escape member.1.toList, member.2))

/-- The member of an optional field, which is left out without a value. -/
def optionalMember (name : String) : Option Json → List (String × Json)
  | some value => [(name, value)]
  | none => []

/-- The names and values of an object. -/
def members? : Json → Option (List (String × Json))
  | object members =>
      members.mapM fun member => (unescape? member.1).map fun name => (String.ofList name, member.2)
  | _ => none

/-- The value of a name among members that may hold it once. -/
def uniqueMember? (members : List (String × Json)) (name : String) : Option (Option Json) :=
  match members.filter fun member => member.1 = name with
  | [] => some none
  | [member] => some (some member.2)
  | _ => none

/-- The fields of a record with the given names, in their order, each with its
    value if it has one. An array has one item for each field, where the last
    `droppable` ones may be missing. -/
def fields? (names : List String) (droppable : Nat) (value : Json) :
    Option (List (Option Json)) :=
  match value with
  | array items =>
      if items.length ≤ names.length && names.length ≤ items.length + droppable then
        some (items.map some ++ List.replicate (names.length - items.length) none)
      else
        none
  | value => do
      let members ← value.members?
      names.mapM (uniqueMember? members)

/-- The text that a string denotes, or the only name of an object with a null
    behind it. -/
def word? : Json → Option String
  | object [(name, null)] => (unescape? name).map String.ofList
  | value => value.text?

end Json

end StackScript
