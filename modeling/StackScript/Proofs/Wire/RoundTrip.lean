import StackScript.Proofs.Document.Place
import StackScript.Proofs.Wire.Script
import StackScript.Proofs.Wire.Workspace

/-!
# Written Forms Come Back

Every type that is written down has the law of `ReadsBack`, so whatever has been
read from a text can be written, and comes back when it is read again. A reading
of a script has not been read from a text of this kind. It can be written all
the same: its lines and columns are those of its tokens, its tables have each
name once, and only the places of braces are lost, because they are not written
at all.

`Form` lists the types, so that the law can be stated once for all of them.

## Main definitions

* `Section.bare`, `Document.bare`: What is kept when the places of braces are
  not.
* `Form`: The types that are written down.
* `Document.ComesBack`: A document and its references come back.

## Theorems

* `readsBack_form`: All types are read back.
* `Document.fits_bare`: A reading of a script can be written.
* `written_comesBack`: Whatever was read once comes back.
-/

namespace StackScript

/-! ## The places of braces -/

/-- The section without the places of its braces. -/
def Section.bare (heading : Section) : Section :=
  { heading with openIndex := none, closeIndex := none }

/-- The document without the places of the braces of its sections. -/
def Document.bare (document : Document) : Document :=
  { document with blocks := document.blocks.map Section.bare }

/-- A section that fits has no places to lose. -/
theorem Section.bare_of_fits {heading : Section} (h : heading.Fits) : heading.bare = heading := by
  rcases heading with ⟨name, label, position, openIndex, closeIndex, terminated⟩
  rcases h with ⟨-, rfl, rfl⟩
  rfl

theorem Document.bare_of_fits {document : Document} (h : document.Fits) :
    document.bare = document := by
  have hblocks : document.blocks.map Section.bare = document.blocks :=
    (List.map_congr_left fun heading hheading =>
      Section.bare_of_fits (h.blocks heading hheading)).trans (List.map_id _)
  rw [bare, hblocks]

namespace Wire

/-- Without the places of the braces, a document is written as it was. -/
theorem toJson_bare (document : Document) : toJson document.bare = toJson document := by
  have hblocks : toJson (document.blocks.map Section.bare) = toJson document.blocks := by
    change Json.array ((document.blocks.map Section.bare).map toJson) = _
    rw [List.map_map]
    rfl
  simp only [toJson, Document.bare] at hblocks ⊢
  rw [hblocks]

end Wire

/-- A reading whose lines and columns can be written can be written as a
    whole. -/
theorem Document.fits_bare {document : Document} (h : document.HoldsAt Position.Fits)
    (htokens : ∀ token ∈ document.tokens, token.Fits) : document.bare.Fits where
  header := h.header
  blocks := by
    intro heading hheading
    rcases List.mem_map.mp hheading with ⟨block, hblock, rfl⟩
    exact ⟨h.blocks block hblock, rfl, rfl⟩
  symbols := h.symbols
  diagnostics := h.diagnostics
  tokens := htokens

/-! ## Types -/

/-- The types that are written down. -/
inductive Form where
  | position
  | token
  | tokenKind
  | scheme
  | header
  | heading
  | severity
  | diagnostic
  | declaration
  | binding
  | symbols
  | document
  | callKind
  | call
  | variableRef
  | tableRef
  | runRef
  | objectKind
  | object
  | matchKind
  | found
  | resolvedRefs
  | docEntry
  deriving DecidableEq, Repr

namespace Form

/-- The values of the type. -/
def Value : Form → Type
  | position => Position
  | token => Token
  | tokenKind => TokenKind
  | scheme => Scheme
  | header => Header
  | heading => Section
  | severity => Severity
  | diagnostic => Diagnostic
  | declaration => Declaration
  | binding => Binding
  | symbols => SymbolTable
  | document => Document
  | callKind => CallKind
  | call => Call
  | variableRef => VariableRef
  | tableRef => TableRef
  | runRef => RunRef
  | objectKind => ObjectKind
  | object => WorkspaceObject
  | matchKind => MatchKind
  | found => Match
  | resolvedRefs => ResolvedRefs
  | docEntry => DocEntry

instance wire : (form : Form) → Wire form.Value
  | position => inferInstanceAs (Wire Position)
  | token => inferInstanceAs (Wire Token)
  | tokenKind => inferInstanceAs (Wire TokenKind)
  | scheme => inferInstanceAs (Wire Scheme)
  | header => inferInstanceAs (Wire Header)
  | heading => inferInstanceAs (Wire Section)
  | severity => inferInstanceAs (Wire Severity)
  | diagnostic => inferInstanceAs (Wire Diagnostic)
  | declaration => inferInstanceAs (Wire Declaration)
  | binding => inferInstanceAs (Wire Binding)
  | symbols => inferInstanceAs (Wire SymbolTable)
  | document => inferInstanceAs (Wire Document)
  | callKind => inferInstanceAs (Wire CallKind)
  | call => inferInstanceAs (Wire Call)
  | variableRef => inferInstanceAs (Wire VariableRef)
  | tableRef => inferInstanceAs (Wire TableRef)
  | runRef => inferInstanceAs (Wire RunRef)
  | objectKind => inferInstanceAs (Wire ObjectKind)
  | object => inferInstanceAs (Wire WorkspaceObject)
  | matchKind => inferInstanceAs (Wire MatchKind)
  | found => inferInstanceAs (Wire Match)
  | resolvedRefs => inferInstanceAs (Wire ResolvedRefs)
  | docEntry => inferInstanceAs (Wire DocEntry)

/-- The values that can be written. -/
def Fits : (form : Form) → form.Value → Prop
  | position => Position.Fits
  | token => Token.Fits
  | header => fun header : Header => header.position.Fits
  | heading => Section.Fits
  | diagnostic => fun diagnostic : Diagnostic => diagnostic.position.Fits
  | declaration => fun declaration : Declaration => declaration.position.Fits
  | binding => fun binding : Binding => binding.position.Fits
  | symbols => SymbolTable.HoldsAt Position.Fits
  | document => Document.Fits
  | call => fun call : Call => call.position.Fits
  | variableRef => fun ref : VariableRef => ref.position.Fits
  | tableRef => fun ref : TableRef => ref.position.Fits
  | runRef => fun ref : RunRef => ref.position.Fits
  | objectKind => ObjectKind.Fits
  | object => fun object : WorkspaceObject => object.kind.Fits
  | found => fun found : Match => found.kind.Fits
  | resolvedRefs => fun refs : ResolvedRefs => Rising refs.tables ∧ Rising refs.runs
  | tokenKind | scheme | severity | callKind | matchKind | docEntry => fun _ => True

/-- What is kept of a value: everything but the places of braces. -/
def kept : (form : Form) → form.Value → form.Value
  | heading => Section.bare
  | document => Document.bare
  | _ => id

/-- What can be written is kept as it is. -/
theorem kept_of_fits {form : Form} {value : form.Value} (h : form.Fits value) :
    form.kept value = value := by
  cases form with
  | heading => exact Section.bare_of_fits h
  | document => exact Document.bare_of_fits h
  | _ => rfl

end Form

namespace Wire

/-- All types are read back. -/
theorem readsBack_form (form : Form) : ReadsBack form.Value form.Fits := by
  cases form with
  | position => exact readsBack_position
  | token => exact readsBack_token
  | tokenKind => exact readsBack_tokenKind
  | scheme => exact readsBack_scheme
  | header => exact readsBack_header
  | heading => exact readsBack_section
  | severity => exact readsBack_severity
  | diagnostic => exact readsBack_diagnostic
  | declaration => exact readsBack_declaration
  | binding => exact readsBack_binding
  | symbols => exact readsBack_symbols
  | document => exact readsBack_document
  | callKind => exact readsBack_callKind
  | call => exact readsBack_call
  | variableRef => exact readsBack_variableRef
  | tableRef => exact readsBack_tableRef
  | runRef => exact readsBack_runRef
  | objectKind => exact readsBack_kind
  | object => exact readsBack_object
  | matchKind => exact readsBack_matchKind
  | found => exact readsBack_match
  | resolvedRefs => exact readsBack_resolvedRefs
  | docEntry => exact readsBack_docEntry

/-- Whatever was read once comes back. -/
theorem roundTrips_of_decode? {form : Form} {text : String} {value : form.Value}
    (h : decode? text = some value) : RoundTrips form.kept value := by
  have hback := readsBack_form form
  have hfits : form.Fits value := hback.fits_of_decode? h
  have hkept : form.kept value = value := Form.kept_of_fits hfits
  exact hback.roundTrips (hkept.symm ▸ hfits) (congrArg toJson hkept)

/-! ## Scripts -/

/-- References come back if their positions can be written, and these are among
    the positions of tokens. -/
theorem roundTrips_references {α : Type} [Wire α] {position : α → Position} {tokens : List Token}
    {refs : List α} (h : ReadsBack α fun ref => (position ref).Fits)
    (hrefs : (refs.map position).Sublist (tokens.map Token.position))
    (htokens : ∀ token ∈ tokens, token.position.Fits) : RoundTrips id refs := by
  refine (readsBack_list h).roundTrips (fun ref href => ?_) rfl
  rcases List.mem_map.mp (hrefs.subset (List.mem_map_of_mem href)) with ⟨token, htoken, hposition⟩
  rw [← hposition]
  exact htokens token htoken

end Wire

/-- The document comes back but for the places of its braces, and so do the four
    lists of references that are read from it. -/
structure Document.ComesBack (document : Document) : Prop where
  reading : Wire.RoundTrips Document.bare document
  calls : Wire.RoundTrips id (readCalls document.tokens)
  variableRefs : Wire.RoundTrips id (readVariables document.tokens)
  tables : Wire.RoundTrips id (readTables document.tokens)
  runs : Wire.RoundTrips id (readRuns document.tokens)

/-- A reading of a script comes back if its lines and columns can be written. -/
theorem parseWith_comesBack (asked : Option String) {text : String}
    (hsize : text.utf8ByteSize < Wire.largeLimit)
    (hplaces : ∀ token ∈ tokenize text, token.position.Fits) :
    (parseWith asked text).ComesBack where
  reading := by
    have hstart : Position.start.Fits := ⟨by decide, by decide⟩
    refine Wire.readsBack_document.roundTrips ?_ (Wire.toJson_bare _)
    -- The positions of a reading are those of its tokens, or the first.
    refine Document.fits_bare (holdsAt_parseWith hplaces hstart asked) fun token htoken => ?_
    exact ⟨hplaces token htoken, (offset_lt_of_mem_tokenize htoken).trans hsize⟩
  calls := Wire.roundTrips_references Wire.readsBack_call (readCalls_positions_sublist _) hplaces
  variableRefs :=
    Wire.roundTrips_references Wire.readsBack_variableRef (readVariables_positions_sublist _)
      hplaces
  tables :=
    Wire.roundTrips_references Wire.readsBack_tableRef (readTables_positions_sublist _) hplaces
  runs := Wire.roundTrips_references Wire.readsBack_runRef (readRuns_positions_sublist _) hplaces

/-- A value of any written type that was read from a text comes back, and so does
    the reading of any script, with the references in it, whose lines and columns
    are numbers of 32 bits. Its offsets are numbers of 64 bits, as they are in
    any text that fits into memory. -/
theorem written_comesBack :
    (∀ (form : Form) (text : String) (value : form.Value), Wire.decode? text = some value →
      Wire.RoundTrips form.kept value) ∧
      ∀ (asked : Option String) (text : String), text.utf8ByteSize < Wire.largeLimit →
        (∀ token ∈ tokenize text, token.position.Fits) → (parseWith asked text).ComesBack :=
  ⟨fun _ _ _ => Wire.roundTrips_of_decode?, fun asked _ => parseWith_comesBack asked⟩

/-- An index comes twice, and out of order; and a script with a block and a reference. -/
theorem written_comesBack_input :
    (Wire.decode?
        "\x7b\"functionRuns\":\x7b\x7d,\"db\":\x7b\"10\":\"a\",\"2\":\"b\",\"2\":\"c\"\x7d\x7d" :
        Option ResolvedRefs) = some ⟨[(2, "c"), (10, "a")], []⟩ ∧
      Wire.RoundTrips (Form.kept .resolvedRefs) ⟨[(2, "c"), (10, "a")], []⟩ ∧
      (parseWith none
        "function f \x7b\n  input \x7b\n    int b\n  \x7d\n  $b\n\x7d").ComesBack := by
  have hread : (Wire.decode?
      "\x7b\"functionRuns\":\x7b\x7d,\"db\":\x7b\"10\":\"a\",\"2\":\"b\",\"2\":\"c\"\x7d\x7d" :
      Option ResolvedRefs) = some ⟨[(2, "c"), (10, "a")], []⟩ := by
    decide +kernel
  exact ⟨hread, written_comesBack.1 .resolvedRefs _ _ hread,
    written_comesBack.2 none _ (by decide +kernel) (by decide +kernel)⟩

end StackScript
