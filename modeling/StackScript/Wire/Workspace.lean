import StackScript.Inspection
import StackScript.Wire.Script

/-!
# Written Forms of Workspaces

The written forms of inventories and of the answers about them. The resolved
references of a script are written as an object whose names are the indices of
the references; read back, they are in the order of the indices, and of an
index that comes twice the last file counts.

## Main definitions

* Instances of `Wire` for the types of an inventory and of
  `StackScript.Inspection`.
-/

namespace StackScript

namespace Wire

instance : Wire ObjectKind where
  toJson kind := .ofText kind.text
  ofJson? json := json.text?.map ObjectKind.ofText

/-- An identifier. -/
def identifier (field : Option Json) : Option UInt64 :=
  (largeNat field).map Nat.toUInt64

instance : Wire WorkspaceObject where
  toJson object := .record
    [("id", .ofNat object.id.toNat), ("path", toJson object.path),
     ("type", toJson object.kind), ("contentHash", toJson object.contentHash)]
  ofJson? json := do
    match ← json.fields? ["id", "path", "type", "contentHash"] 0 with
    | [id, path, kind, contentHash] =>
        return ⟨← identifier id, ← required path, ← required kind, ← required contentHash⟩
    | _ => none

instance : Wire MatchKind where
  toJson kind := .ofText kind.name
  ofJson? := named MatchKind.all MatchKind.name

instance : Wire Match where
  toJson found := .record
    [("filePath", toJson found.path), ("name", toJson found.name),
     ("type", toJson found.kind), ("matchKind", toJson found.found)]
  ofJson? json := do
    match ← json.fields? ["filePath", "name", "type", "matchKind"] 0 with
    | [path, name, kind, found] =>
        return ⟨← required path, ← required name, ← required kind, ← required found⟩
    | _ => none

/-- Files by indices, in the order of the indices, with one more, which
    replaces that of its index. -/
def insertIndexed (index : Nat) (path : String) : List (Nat × String) → List (Nat × String)
  | [] => [(index, path)]
  | entry :: entries =>
      if index < entry.1 then
        (index, path) :: entry :: entries
      else if index = entry.1 then
        (index, path) :: entries
      else
        entry :: insertIndexed index path entries

/-- The written form of files by indices. -/
def indexedToJson (entries : List (Nat × String)) : Json :=
  .object (entries.map fun entry => (Nat.toDigits 10 entry.1, toJson entry.2))

/-- An index with its file, as a member of an object. The index is in plain
    digits. -/
def indexedMember? (member : List Char × Json) : Option (Nat × String) := do
  let index ← (Json.natOfDigits? member.1).filter (· < largeLimit)
  return (index, ← ofJson? member.2)

/-- The files by indices that a written form denotes. -/
def indexedOfJson? : Json → Option (List (Nat × String))
  | .object members => do
      let entries ← members.mapM indexedMember?
      return entries.foldl (fun sorted entry => insertIndexed entry.1 entry.2 sorted) []
  | _ => none

instance : Wire ResolvedRefs where
  toJson refs := .record
    [("db", indexedToJson refs.tables), ("functionRuns", indexedToJson refs.runs)]
  ofJson? json := do
    match ← json.fields? ["db", "functionRuns"] 0 with
    | [tables, runs] =>
        return ⟨← tables >>= indexedOfJson?, ← runs >>= indexedOfJson?⟩
    | _ => none

instance : Wire DocEntry where
  toJson entry := .record [("name", toJson entry.name), ("body", toJson entry.body)]
  ofJson? json := do
    match ← json.fields? ["name", "body"] 0 with
    | [name, body] => return ⟨← required name, ← required body⟩
    | _ => none

/-- A value that is written as null if there is none. -/
def nullable {α : Type} [Wire α] : Option α → Json
  | some value => toJson value
  | none => .null

/-- The written form of an inspection. -/
def ofInspection (inspection : Inspection) : Json :=
  .record
    [("parse", toJson inspection.document), ("functionCalls", toJson inspection.calls),
     ("variableRefs", toJson inspection.variableRefs), ("dbRefs", toJson inspection.tables),
     ("functionRunRefs", toJson inspection.runs), ("resolved", toJson inspection.resolved)]

/-- The written form of an explanation. -/
def ofExplanation (explanation : Explanation) : Json :=
  .record
    [("identifier", toJson explanation.identifier), ("doc", nullable explanation.doc),
     ("summary", nullable explanation.summary), ("related", toJson explanation.related),
     ("matches", toJson explanation.found)]

end Wire

end StackScript
