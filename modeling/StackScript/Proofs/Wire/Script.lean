import StackScript.Proofs.Symbols.Place
import StackScript.Proofs.Wire.Basic
import StackScript.Wire.Script

/-!
# Scripts Read Back

The law of written forms for everything that is said about a script. For each
type it has to be told which values can be written, and this is a matter of the
numbers: lines and columns have 32 bits, offsets 64. Only two types ask for
more. The names of a table must differ, since of two members with one name the
reader would keep one place and the last value. And of a section the places of
its braces are not written at all, so that only a section without them can be
what is read.

## Main definitions

* `Token.Fits`, `Section.Fits`, `Document.Fits`: Which values can be written.
* `placedName?`: The reading of a reference that is a name and a position.

## Theorems

* `readsBack_document`: Documents, and by other theorems of this form their parts.
* `readsBack_placedName`: References that are a name and a position.
* `readsBack_call`, `readsBack_variableRef`, `readsBack_runRef`,
  `readsBack_tableRef`: References.
-/

namespace StackScript

/-- The offset is a number of 64 bits. -/
def Token.Fits (token : Token) : Prop :=
  token.position.Fits ∧ token.offset < Wire.largeLimit

/-- The places of the braces are not written. -/
def Section.Fits (heading : Section) : Prop :=
  heading.position.Fits ∧ heading.openIndex = none ∧ heading.closeIndex = none

/-- All parts of the document can be written. -/
structure Document.Fits (document : Document) : Prop where
  header : ∀ header ∈ document.header, header.position.Fits
  blocks : ∀ heading ∈ document.blocks, heading.Fits
  symbols : document.symbols.HoldsAt Position.Fits
  diagnostics : ∀ diagnostic ∈ document.diagnostics, diagnostic.position.Fits
  tokens : ∀ token ∈ document.tokens, token.Fits

namespace Wire

/-! ## Words and outlines -/

/-- A position fits if its line and column have 32 bits. -/
theorem readsBack_position : ReadsBack Position Position.Fits := by
  refine readsBack_record ["line", "column"] 0
    (fun position =>
      [("line", some (.ofNat position.line)), ("column", some (.ofNat position.column))])
    (by decide) (fun _ => rfl) (fun _ => rfl) (fun _ => rfl) ?proper
    (fun _ => positionFields_ofNat) ?fits
  case proper =>
    intro position
    simp only [List.forall_mem_cons]
    exact ⟨proper_number _, proper_number _, nofun⟩
  case fits =>
    intro found position h
    split at h
    · exact fits_positionFields h
    · cases h

theorem readsBack_tokenKind : ReadsBack TokenKind fun _ => True :=
  readsBack_named TokenKind.all TokenKind.name (fun _ => rfl) (fun _ => rfl)
    fun kind => by cases kind <;> decide

/-- A token has its position among its own fields, and an offset of 64 bits. -/
theorem readsBack_token : ReadsBack Token Token.Fits := by
  refine readsBack_record ["kind", "text", "line", "column", "offset"] 0
    (fun token =>
      [("kind", some (toJson token.kind)), ("text", some (toJson token.text)),
       ("line", some (.ofNat token.position.line)),
       ("column", some (.ofNat token.position.column)), ("offset", some (.ofNat token.offset))])
    (by decide) (fun _ => rfl) (fun _ => rfl) (fun _ => rfl) ?proper ?back ?fits
  case proper =>
    intro token
    simp only [List.forall_mem_cons]
    exact ⟨readsBack_tokenKind.proper_some _, readsBack_text.proper_some _, proper_number _,
      proper_number _, proper_number _, nofun⟩
  -- Each field is read as what was written into it.
  case back =>
    intro token h
    simp only [List.map_cons, List.map_nil]
    rw [required_toJson readsBack_tokenKind trivial, required_text, positionFields_ofNat h.1,
      largeNat_ofNat h.2]
    rfl
  -- Of what was read, only the numbers have limits.
  case fits =>
    intro found token h
    split at h
    · simp only [Option.bind_eq_bind, Option.bind_eq_some_iff, Option.pure_def,
        Option.some.injEq] at h
      obtain ⟨kind, -, text, -, position, hposition, offset, hoffset, rfl⟩ := h
      exact ⟨fits_positionFields hposition, lt_of_natBelow? hoffset⟩
    · cases h

theorem readsBack_scheme : ReadsBack Scheme fun _ => True :=
  readsBack_named Scheme.all Scheme.tag (fun _ => rfl) (fun _ => rfl) Scheme.ofTag?_tag

/-- A header may have neither name nor verb, and then these fields are left out. -/
theorem readsBack_header : ReadsBack Header fun header => header.position.Fits := by
  refine readsBack_record ["keyword", "name", "verb", "line", "column"] 0
    (fun header =>
      [("keyword", some (toJson header.keyword)), ("name", header.name.map toJson),
       ("verb", header.verb.map toJson), ("line", some (.ofNat header.position.line)),
       ("column", some (.ofNat header.position.column))])
    (by decide) (fun _ => rfl) ?write (fun _ => rfl) ?proper ?back ?fits
  case write =>
    intro header
    simp only [toJson, optionalField, List.append_assoc]
    rfl
  case proper =>
    intro header
    simp only [List.forall_mem_cons]
    exact ⟨readsBack_text.proper_some _, readsBack_text.proper_map _,
      readsBack_text.proper_map _, proper_number _, proper_number _, nofun⟩
  case back =>
    intro header h
    simp only [List.map_cons, List.map_nil]
    rw [required_text, optional_text, optional_text, positionFields_ofNat h]
    rfl
  case fits =>
    intro found header h
    split at h
    · simp only [Option.bind_eq_bind, Option.bind_eq_some_iff, Option.pure_def,
        Option.some.injEq] at h
      obtain ⟨keyword, -, name, -, verb, -, position, hposition, rfl⟩ := h
      exact fits_positionFields hposition
    · cases h

/-- A section comes back without the places of its braces. -/
theorem readsBack_section : ReadsBack Section Section.Fits := by
  refine readsBack_record ["name", "label", "line", "column", "terminated"] 0
    (fun heading =>
      [("name", some (toJson heading.name)), ("label", heading.label.map toJson),
       ("line", some (.ofNat heading.position.line)),
       ("column", some (.ofNat heading.position.column)),
       ("terminated", some (toJson heading.terminated))])
    (by decide) (fun _ => rfl) ?write (fun _ => rfl) ?proper ?back ?fits
  case write =>
    intro heading
    simp only [toJson, optionalField, List.append_assoc]
    rfl
  case proper =>
    intro heading
    simp only [List.forall_mem_cons]
    exact ⟨readsBack_text.proper_some _, readsBack_text.proper_map _, proper_number _,
      proper_number _, readsBack_bool.proper_some _, nofun⟩
  case back =>
    intro heading h
    simp only [List.map_cons, List.map_nil]
    rw [required_text, optional_text, positionFields_ofNat h.1,
      required_toJson readsBack_bool trivial]
    rcases heading with ⟨name, label, position, openIndex, closeIndex, terminated⟩
    -- The reader leaves these places open, and so the section must.
    rcases h with ⟨-, rfl, rfl⟩
    rfl
  case fits =>
    intro found heading h
    split at h
    · simp only [Option.bind_eq_bind, Option.bind_eq_some_iff, Option.pure_def,
        Option.some.injEq] at h
      obtain ⟨name, -, label, -, position, hposition, terminated, -, rfl⟩ := h
      exact ⟨fits_positionFields hposition, rfl, rfl⟩
    · cases h

/-! ## Diagnostics -/

theorem readsBack_severity : ReadsBack Severity fun _ => True :=
  readsBack_named Severity.all Severity.name (fun _ => rfl) (fun _ => rfl)
    fun severity => by cases severity <;> decide

/-- A diagnostic may be without a code. -/
theorem readsBack_diagnostic : ReadsBack Diagnostic fun diagnostic => diagnostic.position.Fits := by
  refine readsBack_record ["severity", "line", "column", "message", "code"] 1
    (fun diagnostic =>
      [("severity", some (toJson diagnostic.severity)),
       ("line", some (.ofNat diagnostic.position.line)),
       ("column", some (.ofNat diagnostic.position.column)),
       ("message", some (toJson diagnostic.message)), ("code", diagnostic.code.map toJson)])
    (by decide) (fun _ => rfl) ?write (fun _ => rfl) ?proper ?back ?fits
  case write =>
    intro diagnostic
    simp only [toJson, optionalField, List.append_assoc, Json.slots_cons, Json.slots_nil,
      List.append_nil]
    rfl
  case proper =>
    intro diagnostic
    simp only [List.forall_mem_cons]
    exact ⟨readsBack_severity.proper_some _, proper_number _, proper_number _,
      readsBack_text.proper_some _, readsBack_text.proper_map _, nofun⟩
  case back =>
    intro diagnostic h
    simp only [List.map_cons, List.map_nil]
    rw [required_toJson readsBack_severity trivial, positionFields_ofNat h,
      required_text, optional_text]
    rfl
  case fits =>
    intro found diagnostic h
    split at h
    · simp only [Option.bind_eq_bind, Option.bind_eq_some_iff, Option.pure_def,
        Option.some.injEq] at h
      obtain ⟨severity, -, position, hposition, message, -, code, -, rfl⟩ := h
      exact fits_positionFields hposition
    · cases h

/-! ## Symbols -/

/-- Of a declaration the lists and the description may be missing. -/
theorem readsBack_declaration :
    ReadsBack Declaration fun declaration => declaration.position.Fits := by
  have htexts := readsBack_list readsBack_text
  refine readsBack_record
    ["type", "nullable", "optional", "filters", "enumValues", "description", "line", "column"] 0
    (fun declaration =>
      [("type", some (toJson declaration.type)),
       ("nullable", some (toJson declaration.nullable)),
       ("optional", some (toJson declaration.optional)),
       ("filters", declaration.filters.map toJson),
       ("enumValues", declaration.enumValues.map toJson),
       ("description", declaration.description.map toJson),
       ("line", some (.ofNat declaration.position.line)),
       ("column", some (.ofNat declaration.position.column))])
    (by decide) (fun _ => rfl) ?write (fun _ => rfl) ?proper ?back ?fits
  case write =>
    intro declaration
    simp only [toJson, optionalField, List.append_assoc]
    rfl
  case proper =>
    intro declaration
    simp only [List.forall_mem_cons]
    exact ⟨readsBack_text.proper_some _, readsBack_bool.proper_some _,
      readsBack_bool.proper_some _, htexts.proper_map _, htexts.proper_map _,
      readsBack_text.proper_map _, proper_number _, proper_number _, nofun⟩
  case back =>
    intro declaration h
    simp only [List.map_cons, List.map_nil]
    rw [required_text, required_toJson readsBack_bool trivial,
      required_toJson readsBack_bool trivial, optional_texts, optional_texts, optional_text,
      positionFields_ofNat h]
    rfl
  case fits =>
    intro found declaration h
    split at h
    · simp only [Option.bind_eq_bind, Option.bind_eq_some_iff, Option.pure_def,
        Option.some.injEq] at h
      obtain ⟨type, -, nullable, -, isOptional, -, filters, -, enumValues, -, description, -,
        position, hposition, rfl⟩ := h
      exact fits_positionFields hposition
    · cases h

/-- A binding has neither filters nor values. -/
theorem readsBack_binding : ReadsBack Binding fun binding => binding.position.Fits := by
  refine readsBack_record ["type", "nullable", "optional", "description", "line", "column"] 0
    (fun binding =>
      [("type", some (toJson binding.type)), ("nullable", some (toJson binding.nullable)),
       ("optional", some (toJson binding.optional)),
       ("description", binding.description.map toJson),
       ("line", some (.ofNat binding.position.line)),
       ("column", some (.ofNat binding.position.column))])
    (by decide) (fun _ => rfl) ?write (fun _ => rfl) ?proper ?back ?fits
  case write =>
    intro binding
    simp only [toJson, optionalField, List.append_assoc]
    rfl
  case proper =>
    intro binding
    simp only [List.forall_mem_cons]
    exact ⟨readsBack_text.proper_some _, readsBack_bool.proper_some _,
      readsBack_bool.proper_some _, readsBack_text.proper_map _, proper_number _,
      proper_number _, nofun⟩
  case back =>
    intro binding h
    simp only [List.map_cons, List.map_nil]
    rw [required_text, required_toJson readsBack_bool trivial,
      required_toJson readsBack_bool trivial, optional_text, positionFields_ofNat h]
    rfl
  case fits =>
    intro found binding h
    split at h
    · simp only [Option.bind_eq_bind, Option.bind_eq_some_iff, Option.pure_def,
        Option.some.injEq] at h
      obtain ⟨type, -, nullable, -, isOptional, -, description, -, position, hposition, rfl⟩ := h
      exact fits_positionFields hposition
    · cases h

/-- The fields of a table are there to be read only if there are any. -/
def writtenFields (table : SymbolTable) : Option Json :=
  if table.fields.entries.isEmpty then none else some (toJson table.fields)

/-- A table of fields is written only if it has any, so an empty one is what is read if
    there is none. -/
theorem readsBack_symbols : ReadsBack SymbolTable (SymbolTable.HoldsAt Position.Fits) := by
  have hdeclarations := readsBack_table readsBack_declaration
  have hbindings := readsBack_table readsBack_binding
  refine readsBack_record ["input", "var", "fields"] 1
    (fun table =>
      [("input", some (toJson table.inputs)), ("var", some (toJson table.vars)),
       ("fields", writtenFields table)])
    (by decide) (fun _ => rfl) ?write (fun _ => rfl) ?proper ?back ?fits
  case write =>
    intro table
    simp only [toJson, tableFields, Json.slots_cons, writtenFields]
    split <;> rfl
  case proper =>
    intro table
    simp only [List.forall_mem_cons]
    refine ⟨hdeclarations.proper_some _, hbindings.proper_some _, ?_, nofun⟩
    unfold writtenFields
    split
    · exact nofun
    · exact hdeclarations.proper_some _
  case back =>
    intro table h
    rcases table with ⟨inputs, vars, fields⟩
    simp only [List.map_cons, List.map_nil, writtenFields]
    -- An empty table of fields is left out.
    by_cases hempty : fields.entries = []
    · rcases fields with ⟨entries⟩
      cases hempty
      simp only [List.isEmpty_nil, if_true]
      rw [required_toJson hdeclarations h.inputs, required_toJson hbindings h.vars]
      rfl
    · rw [if_neg (by rwa [List.isEmpty_iff])]
      simp only
      rw [required_toJson hdeclarations h.inputs, required_toJson hbindings h.vars,
        required_toJson hdeclarations h.fields]
      rfl
  case fits =>
    intro found table h
    split at h
    · simp only [Option.bind_eq_bind, Option.bind_eq_some_iff, Option.pure_def,
        Option.some.injEq] at h
      obtain ⟨inputs, hinputs, vars, hvars, rfl⟩ := h
      exact ⟨fits_required hdeclarations hinputs, fits_required hbindings hvars,
        OrderedTable.holds_empty⟩
    · simp only [Option.bind_eq_bind, Option.bind_eq_some_iff, Option.pure_def,
        Option.some.injEq] at h
      obtain ⟨inputs, hinputs, vars, hvars, fields, hfields, rfl⟩ := h
      exact ⟨fits_required hdeclarations hinputs, fits_required hbindings hvars,
        fits_required hdeclarations hfields⟩
    · cases h

/-! ## Documents -/

/-- A document is made of the records above, in lists where there are several. -/
theorem readsBack_document : ReadsBack Document Document.Fits := by
  have hblocks := readsBack_list readsBack_section
  have hdiagnostics := readsBack_list readsBack_diagnostic
  have htokens := readsBack_list readsBack_token
  refine readsBack_record ["scheme", "header", "blocks", "symbols", "diagnostics", "tokens"] 0
    (fun document =>
      [("scheme", some (toJson document.scheme)), ("header", document.header.map toJson),
       ("blocks", some (toJson document.blocks)), ("symbols", some (toJson document.symbols)),
       ("diagnostics", some (toJson document.diagnostics)),
       ("tokens", some (toJson document.tokens))])
    (by decide) (fun _ => rfl) ?write (fun _ => rfl) ?proper ?back ?fits
  case write =>
    intro document
    simp only [toJson, optionalField, List.append_assoc]
    rfl
  case proper =>
    intro document
    simp only [List.forall_mem_cons]
    exact ⟨readsBack_scheme.proper_some _, readsBack_header.proper_map _,
      hblocks.proper_some _, readsBack_symbols.proper_some _, hdiagnostics.proper_some _,
      htokens.proper_some _, nofun⟩
  case back =>
    intro document h
    simp only [List.map_cons, List.map_nil]
    rw [required_toJson readsBack_scheme trivial, optional_toJson readsBack_header h.header,
      required_toJson hblocks h.blocks, required_toJson readsBack_symbols h.symbols,
      required_toJson hdiagnostics h.diagnostics, required_toJson htokens h.tokens]
    rfl
  case fits =>
    intro found document h
    split at h
    · simp only [Option.bind_eq_bind, Option.bind_eq_some_iff, Option.pure_def,
        Option.some.injEq] at h
      obtain ⟨scheme, -, header, hheader, blocks, hfound, symbols, hsymbols, diagnostics,
        hreports, tokens, hwords, rfl⟩ := h
      exact ⟨fits_optional readsBack_header hheader, fits_required hblocks hfound,
        fits_required readsBack_symbols hsymbols, fits_required hdiagnostics hreports,
        fits_required htokens hwords⟩
    · cases h

/-! ## References -/

theorem readsBack_callKind : ReadsBack CallKind fun _ => True :=
  readsBack_named CallKind.all CallKind.name (fun _ => rfl) (fun _ => rfl)
    fun kind => by cases kind <;> decide

/-- A call has its kind behind its position. -/
theorem readsBack_call : ReadsBack Call fun call => call.position.Fits := by
  refine readsBack_record ["name", "line", "column", "kind"] 0
    (fun call =>
      [("name", some (toJson call.name)), ("line", some (.ofNat call.position.line)),
       ("column", some (.ofNat call.position.column)), ("kind", some (toJson call.kind))])
    (by decide) (fun _ => rfl) (fun _ => rfl) (fun _ => rfl) ?proper ?back ?fits
  case proper =>
    intro call
    simp only [List.forall_mem_cons]
    exact ⟨readsBack_text.proper_some _, proper_number _, proper_number _,
      readsBack_callKind.proper_some _, nofun⟩
  case back =>
    intro call h
    simp only [List.map_cons, List.map_nil]
    rw [required_text, positionFields_ofNat h, required_toJson readsBack_callKind trivial]
    rfl
  case fits =>
    intro found call h
    split at h
    · simp only [Option.bind_eq_bind, Option.bind_eq_some_iff, Option.pure_def,
        Option.some.injEq] at h
      obtain ⟨name, -, position, hposition, kind, -, rfl⟩ := h
      exact fits_positionFields hposition
    · cases h

/-- What is made of a name and a position, if these are read. -/
def placedName? {α : Type} (make : String → Position → α) : List (Option Json) → Option α
  | [name, line, column] => do return make (← required name) (← positionFields line column)
  | _ => none

/-- References that are a name and a position, and are written as no more than these. -/
theorem readsBack_placedName {α : Type} [Wire α] {make : String → Position → α}
    {name : α → String} {position : α → Position}
    (hmake : ∀ ref, make (name ref) (position ref) = ref)
    (hposition : ∀ text place, position (make text place) = place)
    (hwrite : ∀ ref : α, toJson ref =
      .record ([("name", toJson (name ref))] ++ positionMembers (position ref)))
    (hread : ∀ json, ofJson? json =
      json.fields? ["name", "line", "column"] 0 >>= placedName? make) :
    ReadsBack α fun ref => (position ref).Fits := by
  refine readsBack_record ["name", "line", "column"] 0
    (fun ref =>
      [("name", some (toJson (name ref))), ("line", some (.ofNat (position ref).line)),
       ("column", some (.ofNat (position ref).column))])
    (by decide) (fun _ => rfl) hwrite hread ?proper ?back ?fits
  case proper =>
    intro ref
    simp only [List.forall_mem_cons]
    exact ⟨readsBack_text.proper_some _, proper_number _, proper_number _, nofun⟩
  case back =>
    intro ref h
    simp only [List.map_cons, List.map_nil, placedName?]
    rw [required_text, positionFields_ofNat h]
    exact congrArg some (hmake ref)
  case fits =>
    intro found ref h
    unfold placedName? at h
    split at h
    · simp only [Option.bind_eq_bind, Option.bind_eq_some_iff, Option.pure_def,
        Option.some.injEq] at h
      obtain ⟨text, -, place, hplace, rfl⟩ := h
      rw [hposition]
      exact fits_positionFields hplace
    · cases h

theorem readsBack_variableRef : ReadsBack VariableRef fun ref => ref.position.Fits :=
  readsBack_placedName (fun _ => rfl) (fun _ _ => rfl) (fun _ => rfl) (fun _ => rfl)

theorem readsBack_runRef : ReadsBack RunRef fun ref => ref.position.Fits :=
  readsBack_placedName (fun _ => rfl) (fun _ _ => rfl) (fun _ => rfl) (fun _ => rfl)

/-- A table has two texts, so it is no name at a position. -/
theorem readsBack_tableRef : ReadsBack TableRef fun ref => ref.position.Fits := by
  refine readsBack_record ["operation", "table", "line", "column"] 0
    (fun ref =>
      [("operation", some (toJson ref.operation)), ("table", some (toJson ref.table)),
       ("line", some (.ofNat ref.position.line)),
       ("column", some (.ofNat ref.position.column))])
    (by decide) (fun _ => rfl) (fun _ => rfl) (fun _ => rfl) ?proper ?back ?fits
  case proper =>
    intro ref
    simp only [List.forall_mem_cons]
    exact ⟨readsBack_text.proper_some _, readsBack_text.proper_some _, proper_number _,
      proper_number _, nofun⟩
  case back =>
    intro ref h
    simp only [List.map_cons, List.map_nil]
    rw [required_text, required_text, positionFields_ofNat h]
    rfl
  case fits =>
    intro found ref h
    split at h
    · simp only [Option.bind_eq_bind, Option.bind_eq_some_iff, Option.pure_def,
        Option.some.injEq] at h
      obtain ⟨operation, -, table, -, position, hposition, rfl⟩ := h
      exact fits_positionFields hposition
    · cases h

end Wire

end StackScript
