import StackScript.Json.Parse
import StackScript.Json.Print
import StackScript.Json.Record
import StackScript.OrderedTable
import StackScript.Source.Position

/-!
# Written Forms

What the values of this library look like in JSON. A type with a written form
has a writer and a reader; the reader accepts more than the writer writes, as
records may come in other shapes, but it takes back whatever the writer wrote.

## Main definitions

* `Wire`: A type with a written form.
* `Wire.encode`, `Wire.decode?`: A value as a JSON text and back.
* `required`, `optional`: Reading a field of a record.
* `smallNat`, `largeNat`: Reading a number of limited size.
-/

namespace StackScript

/-- A type with a written form in JSON. -/
class Wire (α : Type) where
  /-- The written form of a value. -/
  toJson : α → Json
  /-- The value that a written form denotes. -/
  ofJson? : Json → Option α

namespace Wire

/-- The value as a JSON text in one line. -/
def encode {α : Type} [Wire α] (value : α) : String :=
  (toJson value).compact

/-- The value that a JSON text denotes. -/
def decode? {α : Type} [Wire α] (text : String) : Option α :=
  Json.parse? text >>= ofJson?

instance : Wire String where
  toJson := Json.ofText
  ofJson? := Json.text?

instance : Wire Bool where
  toJson := Json.bool
  ofJson? := Json.bool?

instance {α : Type} [Wire α] : Wire (List α) where
  toJson values := .array (values.map toJson)
  ofJson? json := do
    let items ← json.items?
    items.mapM ofJson?

instance {α : Type} [Wire α] : Wire (OrderedTable α) where
  toJson table := .record (table.entries.map fun entry => (entry.1, toJson entry.2))
  ofJson? json := do
    let members ← json.members?
    let entries ← members.mapM fun member => (ofJson? member.2).map fun value => (member.1, value)
    return OrderedTable.ofList entries

/-- A field that has to be there. -/
def required {α : Type} [Wire α] (field : Option Json) : Option α :=
  field >>= ofJson?

/-- A field that may be missing, or null, and then has no value. -/
def optional {α : Type} [Wire α] : Option Json → Option (Option α)
  | none => some none
  | some .null => some none
  | some json => (ofJson? json).map some

/-- The member of a field that is left out without a value. -/
def optionalField {α : Type} [Wire α] (name : String) (value : Option α) :
    List (String × Json) :=
  Json.optionalMember name (value.map toJson)

/-- Lines, columns and versions are numbers of 32 bits. -/
def smallLimit : Nat := UInt32.size

/-- Offsets, indices and identifiers are numbers of 64 bits. -/
def largeLimit : Nat := UInt64.size

/-- A line or a column. -/
def smallNat (field : Option Json) : Option Nat :=
  field >>= Json.natBelow? smallLimit

/-- An offset or an index. -/
def largeNat (field : Option Json) : Option Nat :=
  field >>= Json.natBelow? largeLimit

/-- The members of a position, which is written field by field. -/
def positionMembers (position : Position) : List (String × Json) :=
  [("line", .ofNat position.line), ("column", .ofNat position.column)]

/-- A position that is written field by field. -/
def positionFields (line column : Option Json) : Option Position := do
  return ⟨← smallNat line, ← smallNat column⟩

/-- A value of a list, each of which has a name. -/
def named {α : Type} (all : List α) (name : α → String) (json : Json) : Option α := do
  let word ← json.word?
  all.find? fun value => name value = word

end Wire

end StackScript
