import StackScript.Proofs.Indexed.Binding
import StackScript.Proofs.Indexed.Outline
import StackScript.Proofs.Indexed.Position
import StackScript.Proofs.Indexed.Reference
import StackScript.Inspection

/-!
# Documents by Index

The parts of the program come together here. A document is read from the tokens
of its text, section by section, between the indices that the outline gives:
behind the opening brace of a section and up to its closing brace or, if it has
none, up to the end of the script.

No check fails in all this, for any text and whatever scheme is asked for. So
the program never reaches outside of a text or of its tokens, and it gives the
document that the library gives.

## Main definitions

* `Indexed.parseWith`: The reading of a text.
* `ReadsInBounds`: No check fails in reading a text.

## Theorems

* `parseWith_eq`: The program reads the document of the library.
* `readsInBounds`: No check fails in reading any text.
-/

namespace StackScript

namespace Indexed

/-- One more section is read, by the grammar of its scheme. -/
def readSection (tokens : List Token) (grammar : Grammar) (report : SymbolReport)
    (heading : Section) : Checked SymbolReport := do
  match heading.bodyRange tokens.length with
  | none => return report
  | some (start, stop) =>
      let name := heading.name
      if grammar.declarationBlock = some name then
        if name = "schema" then
          let fields ← declarations tokens start stop name report.table.fields
          return ⟨{ report.table with fields := fields.table },
            report.problems ++ fields.problems⟩
        else
          let inputs ← declarations tokens start stop name report.table.inputs
          return ⟨{ report.table with inputs := inputs.table },
            report.problems ++ inputs.problems⟩
      else if name = "stack" && grammar.hasStack then
        let vars ← bindings tokens stop report.table.vars start
        return { report with table := { report.table with vars := vars } }
      else
        return report

/-- The symbols of the sections of a script. -/
def symbols (tokens : List Token) (grammar : Grammar) (headings : List Section) :
    Checked SymbolReport :=
  headings.foldlM (readSection tokens grammar) ⟨.empty, []⟩

/-- The reading of a text; a scheme may be asked for. -/
def parseWith (asked : Option String) (text : String) : Checked Document := do
  let tokens := tokenize text
  let scheme := (asked.bind Scheme.ofName?).getD (declaredScheme tokens)
  let outline ← outline tokens ((detectKeyword tokens).map (·.2))
  let symbols ← symbols tokens scheme.grammar outline.sections
  return {
    scheme := scheme
    header := outline.header
    blocks := outline.sections
    symbols := symbols.table
    diagnostics :=
      wordProblems tokens ++ braceProblems tokens ++ schemeProblems tokens asked ++
        sectionProblems scheme outline.sections ++ symbols.problems
    tokens := tokens }

end Indexed

/-! ## The sections of a script -/

/-- A partner is in the script, and its end is the end of the script. -/
theorem getD_blockEnd_le (tokens : List Token) (start : Nat) :
    (blockEnd tokens start).getD tokens.length ≤ tokens.length := by
  cases hend : blockEnd tokens start with
  | none => exact Nat.le_refl _
  | some close =>
      rcases Option.map_eq_some_iff.mp (kindAt_blockEnd hend) with ⟨token, hget, -⟩
      exact Nat.le_of_lt (List.getElem?_eq_some_iff.mp hget).1

/-- The body of a section lies between the indices that the section gives, and
    they are not beyond the end of the script. -/
theorem body_eq_span {tokens : List Token} {keyword : Option Nat} {part : Part}
    (h : part ∈ (outline tokens keyword).parts) :
    part.body = (part.heading.bodyRange tokens.length).map (fun range =>
        span tokens range.1 range.2) ∧
      ∀ range, part.heading.bodyRange tokens.length = some range → range.2 ≤ tokens.length := by
  have hblock := body_outline h
  have hplaces := places_eq_inside h
  rw [Section.hasBlock] at hblock
  unfold Part.places Section.inside Section.bodyRange at hplaces
  unfold Section.bodyRange
  cases hopen : part.heading.openIndex with
  | none =>
      rw [hopen, Option.isSome_none] at hblock
      have hnone : part.body = none := by simpa using hblock.symm
      exact ⟨hnone, fun range hrange => by cases hrange⟩
  | some start =>
      -- The section ends at the partner of its brace, or at the end of the script.
      have hclose := (closeIndex_outline (List.mem_map_of_mem h) hopen).2.1
      rw [hopen, Option.isSome_some] at hblock
      rw [hopen] at hplaces
      rcases Option.isSome_iff_exists.mp hblock.symm with ⟨body, hbody⟩
      rw [hbody] at hplaces ⊢
      refine ⟨congrArg some hplaces, fun range hrange => ?_⟩
      rw [Option.map_some, Option.some.injEq] at hrange
      rw [← hrange, hclose]
      exact getD_blockEnd_le tokens start

/-- The keyword of a script is one of its tokens. -/
theorem lt_of_detectKeyword {tokens : List Token} {index : Nat}
    (h : (detectKeyword tokens).map (·.2) = some index) : index < tokens.length := by
  rw [detectKeyword] at h
  cases hfind : tokens.findIdx? Token.isSignificant with
  | none =>
      rw [hfind] at h
      cases h
  | some first =>
      rw [hfind] at h
      rcases Option.map_eq_some_iff.mp h with ⟨found, hfound, rfl⟩
      rcases Option.map_eq_some_iff.mp hfound with ⟨scheme, -, rfl⟩
      exact (List.findIdx?_eq_some_iff_getElem.mp hfind).1

namespace Indexed

variable {tokens : List Token}

/-- A section is read from its range, and the range is in the script. -/
theorem readSection_eq (grammar : Grammar) (report : SymbolReport) {keyword : Option Nat}
    {part : Part} (h : part ∈ (StackScript.outline tokens keyword).parts) :
    readSection tokens grammar report part.heading = some (report.read grammar part) := by
  rcases body_eq_span h with ⟨hbody, hstop⟩
  rw [readSection, SymbolReport.read, hbody]
  cases hrange : part.heading.bodyRange tokens.length with
  | none => rfl
  | some range =>
      rcases range with ⟨start, stop⟩
      simp only [Option.map_some, declarations_eq, bindings_eq (hstop _ hrange), Checked.bind_some]
      split
      · split <;> rfl
      · split <;> rfl

theorem symbols_eq (grammar : Grammar) (keyword : Option Nat) :
    symbols tokens grammar (StackScript.outline tokens keyword).sections =
      some (readSymbols grammar (StackScript.outline tokens keyword).parts) := by
  rw [symbols, StackScript.Outline.sections, List.foldlM_map]
  exact Checked.foldlM_eq (fun part h report => readSection_eq grammar report h) _

/-- The program reads the document of a text. -/
theorem parseWith_eq (asked : Option String) (text : String) :
    parseWith asked text = some (StackScript.parseWith asked text) := by
  rw [parseWith, outline_eq _ fun index h => lt_of_detectKeyword h]
  simp only [Checked.bind_some, ofOutline, symbols_eq]
  rfl

end Indexed

/-! ## Reading in bounds -/

/-- No check of the program fails, whatever it reads: it gives what the library
    gives. -/
structure ReadsInBounds (asked : Option String) (text : String) : Prop where
  /-- The document of the text is read. -/
  document : Indexed.parseWith asked text = some (parseWith asked text)
  /-- The calls of the document are read. -/
  calls : Indexed.calls (parseWith asked text).tokens =
    some (readCalls (parseWith asked text).tokens)
  /-- The variables of the document are read. -/
  variableRefs : Indexed.variableRefs (parseWith asked text).tokens =
    some (readVariables (parseWith asked text).tokens)
  /-- The tables of the document are read. -/
  tables : Indexed.tables (parseWith asked text).tokens =
    some (readTables (parseWith asked text).tokens)
  /-- The functions that the document runs are read. -/
  runs : Indexed.runs (parseWith asked text).tokens =
    some (readRuns (parseWith asked text).tokens)
  /-- Any offset has a line and a column in the text. -/
  position : ∀ offset, Indexed.linePosition text offset =
    some ((LineIndex.ofText text).position offset)
  /-- The cursor over the text comes to all offsets, in whatever order. -/
  positions : ∀ offsets, Indexed.positions (LineCursor.ofText text) offsets =
    some ((LineCursor.ofText text).positions offsets)
  /-- Any literal can be stripped of its quotes. -/
  unquote : ∀ literal, Indexed.unquote literal = some (Text.unquote literal)
  /-- Any path has a file name without its extension. -/
  fileStem : ∀ path, Indexed.fileStem path = some (Text.fileStem path)
  /-- Any path can be stripped of its extension. -/
  stripExtension : ∀ path, Indexed.stripExtension path = some (Text.stripExtension path)

/-- No check fails in reading any text, whatever scheme is asked for. -/
theorem readsInBounds (asked : Option String) (text : String) : ReadsInBounds asked text where
  document := Indexed.parseWith_eq asked text
  calls := Indexed.calls_eq _ ((tokenizeAt_pairwise _ _).imp And.right)
  variableRefs := Indexed.variableRefs_eq _
  tables := Indexed.tables_eq _
  runs := Indexed.runs_eq _
  position := Indexed.linePosition_eq text
  positions := Indexed.positions_eq _
  unquote := Indexed.unquote_eq
  fileStem := Indexed.fileStem_eq
  stripExtension := Indexed.stripExtension_eq

end StackScript
