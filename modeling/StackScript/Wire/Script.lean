import StackScript.Document
import StackScript.Wire.Basic

/-!
# Written Forms of Scripts

The written forms of tokens, outlines, declarations, diagnostics and
references, and of a whole document. Positions are written as a line and a
column next to the other fields. The places of the braces of a section are not
written down; a section read back has none.

## Main definitions

* Instances of `Wire` for the types of `StackScript.Document`.
-/

namespace StackScript

namespace Wire

instance : Wire Position where
  toJson position := .record (positionMembers position)
  ofJson? json := do
    match ← json.fields? ["line", "column"] 0 with
    | [line, column] => positionFields line column
    | _ => none

instance : Wire TokenKind where
  toJson kind := .ofText kind.name
  ofJson? := named TokenKind.all TokenKind.name

instance : Wire Token where
  toJson token := .record <|
    [("kind", toJson token.kind), ("text", toJson token.text)] ++
      positionMembers token.position ++ [("offset", .ofNat token.offset)]
  ofJson? json := do
    match ← json.fields? ["kind", "text", "line", "column", "offset"] 0 with
    | [kind, text, line, column, offset] =>
        return ⟨← required kind, ← required text, ← positionFields line column,
          ← largeNat offset⟩
    | _ => none

instance : Wire Scheme where
  toJson scheme := .ofText scheme.tag
  ofJson? := named Scheme.all Scheme.tag

instance : Wire Header where
  toJson header := .record <|
    [("keyword", toJson header.keyword)] ++ optionalField "name" header.name ++
      optionalField "verb" header.verb ++ positionMembers header.position
  ofJson? json := do
    match ← json.fields? ["keyword", "name", "verb", "line", "column"] 0 with
    | [keyword, name, verb, line, column] =>
        return ⟨← required keyword, ← optional name, ← optional verb,
          ← positionFields line column⟩
    | _ => none

instance : Wire Section where
  toJson heading := .record <|
    [("name", toJson heading.name)] ++ optionalField "label" heading.label ++
      positionMembers heading.position ++ [("terminated", toJson heading.terminated)]
  ofJson? json := do
    match ← json.fields? ["name", "label", "line", "column", "terminated"] 0 with
    | [name, label, line, column, terminated] =>
        return ⟨← required name, ← optional label, ← positionFields line column, none, none,
          ← required terminated⟩
    | _ => none

instance : Wire Severity where
  toJson severity := .ofText severity.name
  ofJson? := named Severity.all Severity.name

instance : Wire Diagnostic where
  toJson diagnostic := .record <|
    [("severity", toJson diagnostic.severity)] ++ positionMembers diagnostic.position ++
      [("message", toJson diagnostic.message)] ++ optionalField "code" diagnostic.code
  ofJson? json := do
    match ← json.fields? ["severity", "line", "column", "message", "code"] 1 with
    | [severity, line, column, message, code] =>
        return ⟨← required severity, ← positionFields line column, ← required message,
          ← optional code⟩
    | _ => none

instance : Wire Declaration where
  toJson declaration := .record <|
    [("type", toJson declaration.type), ("nullable", toJson declaration.nullable),
     ("optional", toJson declaration.optional)] ++
      optionalField "filters" declaration.filters ++
      optionalField "enumValues" declaration.enumValues ++
      optionalField "description" declaration.description ++
      positionMembers declaration.position
  ofJson? json := do
    match ← json.fields?
      ["type", "nullable", "optional", "filters", "enumValues", "description", "line",
       "column"] 0 with
    | [type, nullable, isOptional, filters, enumValues, description, line, column] =>
        return ⟨← required type, ← required nullable, ← required isOptional,
          ← optional filters, ← optional enumValues, ← optional description,
          ← positionFields line column⟩
    | _ => none

instance : Wire Binding where
  toJson binding := .record <|
    [("type", toJson binding.type), ("nullable", toJson binding.nullable),
     ("optional", toJson binding.optional)] ++
      optionalField "description" binding.description ++ positionMembers binding.position
  ofJson? json := do
    match ← json.fields? ["type", "nullable", "optional", "description", "line", "column"] 0 with
    | [type, nullable, isOptional, description, line, column] =>
        return ⟨← required type, ← required nullable, ← required isOptional,
          ← optional description, ← positionFields line column⟩
    | _ => none

/-- The fields of a table are written only if there are any. -/
def tableFields (fields : OrderedTable Declaration) : List (String × Json) :=
  if fields.entries.isEmpty then [] else [("fields", toJson fields)]

instance : Wire SymbolTable where
  toJson table := .record <|
    [("input", toJson table.inputs), ("var", toJson table.vars)] ++ tableFields table.fields
  ofJson? json := do
    match ← json.fields? ["input", "var", "fields"] 1 with
    | [inputs, vars, none] => return ⟨← required inputs, ← required vars, .empty⟩
    | [inputs, vars, fields] => return ⟨← required inputs, ← required vars, ← required fields⟩
    | _ => none

instance : Wire Document where
  toJson document := .record <|
    [("scheme", toJson document.scheme)] ++ optionalField "header" document.header ++
      [("blocks", toJson document.blocks), ("symbols", toJson document.symbols),
       ("diagnostics", toJson document.diagnostics), ("tokens", toJson document.tokens)]
  ofJson? json := do
    match ← json.fields?
      ["scheme", "header", "blocks", "symbols", "diagnostics", "tokens"] 0 with
    | [scheme, header, blocks, symbols, diagnostics, tokens] =>
        return ⟨← required scheme, ← optional header, ← required blocks, ← required symbols,
          ← required diagnostics, ← required tokens⟩
    | _ => none

instance : Wire CallKind where
  toJson kind := .ofText kind.name
  ofJson? := named CallKind.all CallKind.name

instance : Wire Call where
  toJson call := .record <|
    [("name", toJson call.name)] ++ positionMembers call.position ++
      [("kind", toJson call.kind)]
  ofJson? json := do
    match ← json.fields? ["name", "line", "column", "kind"] 0 with
    | [name, line, column, kind] =>
        return ⟨← required name, ← positionFields line column, ← required kind⟩
    | _ => none

instance : Wire VariableRef where
  toJson ref := .record ([("name", toJson ref.name)] ++ positionMembers ref.position)
  ofJson? json := do
    match ← json.fields? ["name", "line", "column"] 0 with
    | [name, line, column] => return ⟨← required name, ← positionFields line column⟩
    | _ => none

instance : Wire TableRef where
  toJson ref := .record <|
    [("operation", toJson ref.operation), ("table", toJson ref.table)] ++
      positionMembers ref.position
  ofJson? json := do
    match ← json.fields? ["operation", "table", "line", "column"] 0 with
    | [operation, table, line, column] =>
        return ⟨← required operation, ← required table, ← positionFields line column⟩
    | _ => none

instance : Wire RunRef where
  toJson ref := .record ([("name", toJson ref.name)] ++ positionMembers ref.position)
  ofJson? json := do
    match ← json.fields? ["name", "line", "column"] 0 with
    | [name, line, column] => return ⟨← required name, ← positionFields line column⟩
    | _ => none

end Wire

end StackScript
