import StackScript.Proofs.Document.Comment
import StackScript.Proofs.Document.Error
import StackScript.Proofs.Script.Enclosed
import StackScript.Proofs.Script.Header
import StackScript.Proofs.Token.Line

/-!
# Fragments

A text without a keyword is read as the body of a function. It is read no
differently when it is put into a function that somebody writes around it, on
the lines between the first and the last: what is found is the same, one line
further down.

The two readings have little in common. The one takes the whole text for the
body, the other looks for the body in the words of a header and for its end by
counting braces. What the body is made of is then read by the same readers, and
those have been shown not to mind the words around it.

The braces of the text have to be in order. A closing brace too much would end
the function early, and an opening brace too much would take the closing brace
of the function for its own.

## Main definitions

* `enclose`: A text as the body of a function.
* `Recast.fragment`: The words of the text in the function.
* `Diagnostic.down`, `Declaration.down`, `Binding.down`: What is found, some
  lines further down.
* `Document.SameBody`: A document of which another is the body.

## Theorems

* `tokenize_enclose`: The words of a function around a text.
* `partsOfText_enclose`: The sections of the function are those of the text.
* `readCalls_enclose`, `readVariables_enclose`, `readTables_enclose`,
  `readRuns_enclose`: The references are those of the text.
* `parse_enclose`: A text is read like the body of a function.
-/

namespace StackScript

/-- The text as the body of a function. -/
def enclose (body : String) : String :=
  "function f \x7b\n" ++ body ++ "\n\x7d"

/-- The words of the line in front of the body. -/
def headerTokens : List Token :=
  [⟨.ident, "function", ⟨1, 1⟩, 0⟩, ⟨.ident, "f", ⟨1, 10⟩, 9⟩, ⟨.lBrace, "\x7b", ⟨1, 12⟩, 11⟩]

/-- The same words behind the first line of a function. -/
def TokenShift.below : TokenShift where
  lines := 1
  token := Token.moved 1 13
  kind_token _ := rfl
  text_token _ := rfl
  position_token _ := rfl

/-- The words of a function are those of its first line, those of its body, and
    the closing brace. -/
theorem tokenize_enclose (body : String) :
    ∃ close : Token, close.kind = .rBrace ∧
      tokenize (enclose body) =
        headerTokens ++ ((tokenize body).map TokenShift.below.token ++ [close]) := by
  have hchars : (enclose body).toList =
      "function f \x7b".toList ++ '\n' :: (body.toList ++ '\n' :: ['\x7d']) := by
    unfold enclose
    rw [String.toList_append, String.toList_append, List.append_assoc]
    rfl
  have hheader : tokenizeAt Place.start "function f \x7b".toList = headerTokens := by
    decide +kernel
  have hclose : ∀ place, tokenizeAt place ['\x7d'] =
      [⟨.rBrace, "\x7d", place.position, place.offset⟩] := by
    intro place
    rw [tokenizeAt_word place (by decide), List.drop_nil, tokenizeAt]
    rfl
  unfold tokenize
  -- The text is split at its two line feeds, and each piece is read on its own.
  rw [hchars, tokenizeAt_append_newline, hheader, Place.start_after_newline, tokenizeAt_moved,
    tokenizeAt_append_newline, hclose, List.map_append]
  exact ⟨_, rfl, rfl⟩

/-- The first word of the text is the keyword. -/
theorem detectKeyword_enclose (body : String) :
    detectKeyword (tokenize (enclose body)) = some (.function, 0) := by
  rcases tokenize_enclose body with ⟨close, -, htokens⟩
  rw [htokens]
  rfl

/-! ## Sections -/

/-- The words of a text in the function around it. -/
def Recast.fragment : Recast :=
  @Recast.enclosed .below headerTokens.reverse fun brace h => by
    cases h
    exact ⟨rfl, Nat.le_refl 1⟩

-- Every place of the fragment is a place of the body of the function.
theorem fragment_occurrences (body : String) :
    (occurrences (tokenize body)).map Recast.fragment.place =
      occurrencesAfter headerTokens.reverse ((tokenize body).map TokenShift.below.token) :=
  Recast.enclosed_occurrences .below _ (fun _ hmem => absurd hmem List.not_mem_nil)
    fun _ hmem => (isCounted_of_mem_tokenize hmem).1

/-- The header ends at the first brace behind the name. -/
theorem readHeader_name {header : Header} {name brace : Occurrence} (words : List Occurrence)
    (hnone : header.name = none) (hname : name.token.kind = .ident)
    (hbrace : brace.token.kind = .lBrace) :
    readHeader header (name :: brace :: words) =
      ({ header with name := some (Text.unquote name.token.text) }, some brace) := by
  have hisName : name.token.isName := by
    rw [Token.isName, hname]
    rfl
  rw [readHeader_takeName _ hnone hisName, readHeader.eq_def]
  dsimp only
  rw [if_pos hbrace]

/-- The sections are read from the block of the header. -/
theorem parts_outline {tokens : List Token} {index : Nat} {place opening : Occurrence}
    {header : Header} (hplace : ((occurrences tokens).drop index).head? = some place)
    (hheader : readHeader ⟨place.token.text, none, none, place.token.position⟩
      (significant ((occurrences tokens).drop (place.index + 1))) = (header, some opening)) :
    (outline tokens (some index)).parts =
      partsOf (untilClose 0 ((occurrences tokens).drop (opening.index + 1))).body := by
  unfold outline
  dsimp only
  rw [Option.bind_some, hplace]
  dsimp only
  rw [hheader]

/-- The sections of a function are read from its block. -/
theorem parts_function {inside : List Token} {close : Token} (hinside : checkBraces inside = [])
    (hclose : close.kind = .rBrace) :
    (outline (headerTokens ++ (inside ++ [close])) (some 0)).parts =
      partsOf (occurrencesAfter headerTokens.reverse inside) := by
  -- The braces inside are in order, so the block ends at the brace that was put behind
  -- them.
  have hblock : (untilClose 0 (occurrencesAfter headerTokens.reverse
      (inside ++ [close]))).body = occurrencesAfter headerTokens.reverse inside := by
    have hbalanced : checkBraces ((occurrencesAfter headerTokens.reverse inside).map
        Occurrence.token) = [] := by
      rwa [occurrencesAfter_map_token]
    rw [occurrencesAfter_append]
    exact congrArg Block.body (@untilClose_balanced _ [] _ hbalanced hclose)
  rw [← hblock]
  generalize inside ++ [close] = behind
  have hwords : significant ((occurrences (headerTokens ++ behind)).drop 1) =
      ⟨[headerTokens[0]], headerTokens[1]⟩ ::
        ⟨[headerTokens[1], headerTokens[0]], headerTokens[2]⟩ ::
          significant (occurrencesAfter headerTokens.reverse behind) := rfl
  -- The header ends at the brace behind the name.
  have hheader : readHeader ⟨"function", none, none, ⟨1, 1⟩⟩
      (significant ((occurrences (headerTokens ++ behind)).drop 1)) =
        (⟨"function", some (Text.unquote "f"), none, ⟨1, 1⟩⟩,
          some ⟨[headerTokens[1], headerTokens[0]], headerTokens[2]⟩) := by
    rw [hwords]
    exact readHeader_name _ rfl rfl rfl
  exact @parts_outline _ 0 ⟨[], headerTokens[0]⟩ _ _ rfl hheader

/-- The sections of a function are those of its body. -/
theorem partsOfText_enclose {body : String} (hbraces : checkBraces (tokenize body) = []) :
    partsOfText (enclose body) =
      partsOf ((occurrences (tokenize body)).map Recast.fragment.place) := by
  rcases tokenize_enclose body with ⟨close, hclose, htokens⟩
  have hinside : checkBraces ((tokenize body).map TokenShift.below.token) = [] := by
    rw [TokenShift.checkBraces_map, hbraces]
  unfold partsOfText
  rw [detectKeyword_enclose, htokens, fragment_occurrences]
  exact parts_function hinside hclose

/-- A text without a keyword is all body. -/
theorem partsOfText_eq {body : String} (hkeyword : detectKeyword (tokenize body) = none) :
    partsOfText body = partsOf (occurrences (tokenize body)) := by
  unfold partsOfText
  rw [hkeyword]
  rfl

/-! ## References -/

-- The last of the three is an opening brace.
theorem opens_headerTokens : Opens headerTokens.reverse :=
  ⟨headerTokens[2], [headerTokens[1], headerTokens[0]], rfl, rfl⟩

section Reference

variable {close : Token}

/-- No word of the first line is a comment, and neither is the closing brace. -/
theorem filter_enclose (hclose : close.kind = .rBrace) (tokens : List Token) :
    (headerTokens ++ (tokens ++ [close])).filter Token.isSignificant =
      headerTokens ++ (tokens.filter Token.isSignificant ++ [close]) := by
  have hlast : close.isSignificant := by
    rw [Token.isSignificant, hclose]
    rfl
  rw [List.filter_append, List.filter_append, List.filter_cons_of_pos hlast]
  rfl

/-- The header calls nothing, and its brace in front of the text means no more to the reader
    of calls than the beginning of a text. -/
theorem readCalls_enclose (hclose : close.kind = .rBrace) (tokens : List Token) :
    readCalls (headerTokens ++ (tokens ++ [close])) = readCalls tokens := by
  have hheader : ∀ words : List Token, callsAfter [] [] (headerTokens ++ words) =
      callsAfter [false] headerTokens.reverse words := by
    intro words
    rfl
  rw [readCalls, filter_enclose hclose, hheader]
  exact callsAfter_enclosed opens_headerTokens hclose (by decide) [] [] _

/-- The other readers look ahead only, and find no reference in the header. -/
theorem readVariables_enclose (hclose : close.kind = .rBrace) (tokens : List Token) :
    readVariables (headerTokens ++ (tokens ++ [close])) = readVariables tokens := by
  have hlast : [close].filter (fun token => token.kind = .variable) = [] := by
    simp [hclose]
  rw [readVariables, List.filter_append, List.filter_append, hlast, List.append_nil]
  rfl

/-- A name and a brace are no table. -/
theorem readTables_enclose (hclose : close.kind = .rBrace) (tokens : List Token) :
    readTables (headerTokens ++ (tokens ++ [close])) = readTables tokens := by
  have hheader : ∀ words : List Token,
      readWords tableRef? (headerTokens ++ words) = readWords tableRef? words := by
    intro words
    rfl
  rw [readTables, filter_enclose hclose, hheader,
    readWords_enclosed (tableRef?_enclosed hclose) (tableRef?_close hclose)]
  rfl

/-- The header runs nothing. -/
theorem readRuns_enclose (hclose : close.kind = .rBrace) (tokens : List Token) :
    readRuns (headerTokens ++ (tokens ++ [close])) = readRuns tokens := by
  have hheader : ∀ words : List Token,
      readWords runRef? (headerTokens ++ words) = readWords runRef? words := by
    intro words
    rfl
  rw [readRuns, filter_enclose hclose, hheader,
    readWords_enclosed (runRef?_enclosed hclose) (runRef?_close hclose)]
  rfl

end Reference

/-! ## Problems -/

/-- The diagnostic some lines further down. -/
def Diagnostic.down (lines : Nat) (diagnostic : Diagnostic) : Diagnostic :=
  { diagnostic with position := diagnostic.position.down lines }

/-- Moving a position down keeps it counted from one. -/
theorem ofProblem_down (problem : Problem) {p : Position} (h : p.IsCounted) (lines : Nat) :
    Diagnostic.ofProblem problem (p.down lines) =
      (Diagnostic.ofProblem problem p).down lines := by
  have hdown : (p.down lines).IsCounted := ⟨Nat.le_add_right_of_le h.1, h.2⟩
  rw [ofProblem_eq problem hdown, ofProblem_eq problem h]
  rfl

/-- What is wrong with a word is told by its text, which stays the same. -/
theorem errorReport_below (token : Token) :
    (TokenShift.below.token token).errorReport = token.errorReport.down 1 := by
  unfold Token.errorReport
  rw [TokenShift.text_token, TokenShift.position_token]
  split <;> rfl

/-- The header and the last brace are words as they should be. -/
theorem wordProblems_enclose (body : String) :
    wordProblems (tokenize (enclose body)) =
      (wordProblems (tokenize body)).map (Diagnostic.down 1) := by
  rcases tokenize_enclose body with ⟨close, hclose, htokens⟩
  have herrors : errorTokens (tokenize (enclose body)) =
      (errorTokens (tokenize body)).map TokenShift.below.token := by
    have hlast : [close].filter (fun token => token.kind = .error) = [] := by
      simp [hclose]
    rw [htokens, errorTokens, List.filter_append, List.filter_append, hlast, List.append_nil,
      TokenShift.filter_map_of_kind _ (by simp)]
    rfl
  rw [wordProblems_eq_map, wordProblems_eq_map, herrors, List.map_map, List.map_map]
  congr 1
  funext token
  exact errorReport_below token

/-- The two braces of the function close each other, since none of the text closes the first
    one. -/
theorem checkBraces_enclose {body : String} (hbraces : checkBraces (tokenize body) = []) :
    checkBraces (tokenize (enclose body)) = [] := by
  rcases tokenize_enclose body with ⟨close, hclose, htokens⟩
  have hbody : checkBraces ((tokenize body).map TokenShift.below.token) = [] := by
    rw [TokenShift.checkBraces_map, hbraces]
  have hpass : LooseBraces.passAll ⟨[], []⟩ 0 (tokenize (enclose body)) = ⟨[], []⟩ := by
    rw [htokens, passAll_append, passAll_append, passAll_balanced hbody, LooseBraces.passAll,
      hclose]
    rfl
  exact checkBraces_of_passAll hpass

/-- The function has a keyword. -/
theorem schemeProblems_enclose (body : String) :
    schemeProblems (tokenize (enclose body)) none = [] := by
  unfold schemeProblems
  rw [detectKeyword_enclose]
  rfl

/-- Without a scheme asked for, the missing keyword is all that is reported. -/
theorem filter_schemeProblems (tokens : List Token) :
    (schemeProblems tokens none).filter (fun diagnostic => diagnostic.code ≠ some "X101") = [] := by
  refine List.filter_eq_nil_iff.mpr fun diagnostic h => ?_
  rcases List.mem_append.mp h with h | h
  · cases h
  · split at h
    · split at h
      · rw [List.mem_singleton.mp h]
        exact fun hcode => of_decide_eq_true hcode rfl
      · cases h
    · cases h

theorem filter_of_isFrom {reader : Reader} {diagnostics : List Diagnostic} (hne : reader ≠ .scheme)
    (h : ∀ diagnostic ∈ diagnostics, diagnostic.IsFrom reader) :
    diagnostics.filter (fun diagnostic => diagnostic.code ≠ some "X101") = diagnostics :=
  List.filter_eq_self.mpr fun diagnostic hmem => decide_eq_true <|
    (h diagnostic hmem).code_ne hne fun hcode => Problem.reader_of_code_scheme (Or.inl hcode)

theorem filter_wordProblems (tokens : List Token) :
    (wordProblems tokens).filter (fun diagnostic => diagnostic.code ≠ some "X101") =
      wordProblems tokens :=
  filter_of_isFrom Reader.noConfusion fun _ => isFrom_of_mem_wordProblems

theorem filter_sectionProblems (scheme : Scheme) (blocks : List Section) :
    (sectionProblems scheme blocks).filter (fun diagnostic => diagnostic.code ≠ some "X101") =
      sectionProblems scheme blocks :=
  filter_of_isFrom Reader.noConfusion fun _ => isFrom_of_mem_sectionProblems

theorem filter_symbolProblems (grammar : Grammar) (parts : List Part) :
    (readSymbols grammar parts).problems.filter
        (fun diagnostic => diagnostic.code ≠ some "X101") =
      (readSymbols grammar parts).problems :=
  filter_of_isFrom Reader.noConfusion fun _ => isFrom_of_mem_readSymbols

/-! ## Documents -/

theorem scheme_enclose (body : String) : (parse (enclose body)).scheme = .function := by
  change declaredScheme (tokenize (enclose body)) = .function
  rw [declaredScheme, detectKeyword_enclose]

-- A text without a keyword is read as a function too.
theorem scheme_eq_function {body : String} (h : detectKeyword (tokenize body) = none) :
    (parse body).scheme = .function := by
  change declaredScheme (tokenize body) = .function
  rw [declaredScheme, h]

/-- The declaration some lines further down. -/
def Declaration.down (lines : Nat) (declaration : Declaration) : Declaration :=
  { declaration with position := declaration.position.down lines }

/-- The binding some lines further down. -/
def Binding.down (lines : Nat) (binding : Binding) : Binding :=
  { binding with position := binding.position.down lines }

namespace Document

/-- The other document has this one for its body: it says the same, one line
    further down, except that it has a keyword. -/
structure SameBody (document other : Document) : Prop where
  scheme : other.scheme = document.scheme
  /-- The sections have the same names, labels and blocks. -/
  blocks : other.blocks.map Section.unindexed =
    document.blocks.map fun block => block.unindexed.down 1
  inputs : other.symbols.inputs = document.symbols.inputs.map (Declaration.down 1)
  fields : other.symbols.fields = document.symbols.fields.map (Declaration.down 1)
  vars : other.symbols.vars = document.symbols.vars.map (Binding.down 1)
  calls : readCalls other.tokens = (readCalls document.tokens).map (Call.down 1)
  mentions : readVariables other.tokens =
    (readVariables document.tokens).map (VariableRef.down 1)
  tables : readTables other.tokens = (readTables document.tokens).map (TableRef.down 1)
  runs : readRuns other.tokens = (readRuns document.tokens).map (RunRef.down 1)
  /-- Only the hint that there is no keyword is missing. -/
  diagnostics : other.diagnostics =
    (document.diagnostics.filter fun diagnostic => diagnostic.code ≠ some "X101").map
      (Diagnostic.down 1)

end Document

-- Statements do not know the indices of their part.
theorem readSymbols_unindexed (grammar : Grammar) (parts : List Part) :
    readSymbols grammar (parts.map Part.unindexed) = readSymbols grammar parts := by
  rw [readSymbols, List.foldl_map]
  rfl

section Document

variable {body : String} (hbraces : checkBraces (tokenize body) = [])
  (hkeyword : detectKeyword (tokenize body) = none)

include hbraces hkeyword

/-- The parts of the function are those of the fragment, one line further down. -/
theorem parts_enclose :
    (partsOfText (enclose body)).map Part.unindexed =
      (partsOfText body).map Recast.fragment.part := by
  rw [partsOfText_enclose hbraces, partsOfText_eq hkeyword]
  exact Recast.fragment.partsOf_map _

theorem blocks_enclose :
    (parse (enclose body)).blocks.map Section.unindexed =
      (parse body).blocks.map fun block => block.unindexed.down 1 := by
  have hheadings := congrArg (List.map Part.heading) (parts_enclose hbraces hkeyword)
  rw [List.map_map, List.map_map] at hheadings
  change ((partsOfText (enclose body)).map Part.heading).map Section.unindexed =
    ((partsOfText body).map Part.heading).map _
  rw [List.map_map, List.map_map]
  exact hheadings

/-- An unknown section is reported a line further down. -/
theorem sectionProblems_enclose :
    sectionProblems .function (parse (enclose body)).blocks =
      (sectionProblems .function (parse body).blocks).map (Diagnostic.down 1) := by
  have hdown : ∀ blocks : List Section,
      sectionProblems .function (blocks.map fun block => block.unindexed.down 1) =
        (blocks.filter fun block => !Scheme.function.grammar.knows block.name).map fun block =>
          Diagnostic.ofProblem (.unknownSection block.name Scheme.function.tag)
            (block.position.down 1) := by
    intro blocks
    unfold sectionProblems
    rw [List.filter_map, List.map_map]
    rfl
  rw [← sectionProblems_unindexed, blocks_enclose hbraces hkeyword, hdown, sectionProblems,
    List.map_map]
  refine List.map_congr_left fun block hblock => ?_
  rcases List.mem_map.mp (List.mem_filter.mp hblock).1 with ⟨part, hpart, rfl⟩
  -- The section stands at a token, and positions of tokens are counted from one.
  rcases exists_place_of_heading hpart with ⟨place, hplace, hposition⟩
  refine ofProblem_down _ ?_ 1
  rw [hposition]
  exact isCounted_of_mem_tokenize (mem_tokens_of_occurrence hplace)

/-- A problem with a declaration is reported a line further down, and nothing else changes about
    the declarations. -/
theorem symbols_enclose (grammar : Grammar) :
    (readSymbols grammar (partsOfText (enclose body))).table =
        Recast.fragment.table (readSymbols grammar (partsOfText body)).table ∧
      (readSymbols grammar (partsOfText (enclose body))).problems =
        (readSymbols grammar (partsOfText body)).problems.map (Diagnostic.down 1) := by
  rw [← readSymbols_unindexed, parts_enclose hbraces hkeyword]
  refine ⟨(Recast.fragment.readSymbols_map grammar _).1, ?_⟩
  rw [readSymbols_causes, readSymbols_causes, Recast.causesOf_declaring_map, List.map_map,
    List.map_map]
  refine List.map_congr_left fun cause hcause => ?_
  -- A problem stands at a token as well.
  rcases exists_place_of_declaring _ _ _ _ _ cause hcause with ⟨place, hplace, hposition⟩
  refine ofProblem_down _ ?_ 1
  rw [hposition]
  exact isCounted_of_mem_tokenize (mem_tokens_of_occurrence hplace)

/-- The table is read by the grammar of a function in both cases. -/
theorem table_enclose :
    (parse (enclose body)).symbols = Recast.fragment.table (parse body).symbols := by
  have hscheme : (parse (enclose body)).scheme = (parse body).scheme :=
    (scheme_enclose body).trans (scheme_eq_function hkeyword).symm
  change (parseWith none (enclose body)).symbols =
    Recast.fragment.table (parseWith none body).symbols
  rw [symbols_parseWith, symbols_parseWith]
  change (readSymbols (parse (enclose body)).scheme.grammar _).table = _
  rw [hscheme]
  exact (symbols_enclose hbraces hkeyword _).1

/-- All diagnostics but the one about the missing keyword are found again, one line further
    down, and nothing else is. -/
theorem diagnostics_enclose :
    (parse (enclose body)).diagnostics =
      ((parse body).diagnostics.filter fun diagnostic => diagnostic.code ≠ some "X101").map
        (Diagnostic.down 1) := by
  have hscheme : (parse (enclose body)).scheme = .function := scheme_enclose body
  have hscheme' : (parse body).scheme = .function := scheme_eq_function hkeyword
  change (parseWith none (enclose body)).diagnostics = _
  rw [parse, diagnostics_parseWith, diagnostics_parseWith]
  change wordProblems _ ++ _ ++ _ ++
    sectionProblems (parse (enclose body)).scheme (parse (enclose body)).blocks ++
      (readSymbols (parse (enclose body)).scheme.grammar _).problems =
    ((wordProblems _ ++ _ ++ _ ++ sectionProblems (parse body).scheme (parse body).blocks ++
      (readSymbols (parse body).scheme.grammar _).problems).filter _).map _
  -- Both are read as functions; the braces are in order in both, and report nothing.
  rw [hscheme, hscheme', wordProblems_enclose, schemeProblems_enclose,
    sectionProblems_enclose hbraces hkeyword,
    (symbols_enclose hbraces hkeyword Scheme.function.grammar).2]
  simp only [braceProblems, checkBraces_enclose hbraces, hbraces, List.map_nil, List.append_nil,
    List.filter_append, filter_schemeProblems, filter_wordProblems, filter_sectionProblems,
    filter_symbolProblems, List.map_append]

end Document

/-- A text whose braces are in order is read like the body of a function. -/
theorem parse_enclose (body : String) (hbraces : checkBraces (tokenize body) = [])
    (hkeyword : detectKeyword (tokenize body) = none) :
    (parse body).SameBody (parse (enclose body)) := by
  have hsymbols := table_enclose hbraces hkeyword
  rcases tokenize_enclose body with ⟨close, hclose, htokens⟩
  have htokens' : (parse (enclose body)).tokens = headerTokens ++
      ((tokenize body).map TokenShift.below.token ++ [close]) := htokens
  exact {
    scheme := (scheme_enclose body).trans (scheme_eq_function hkeyword).symm
    blocks := blocks_enclose hbraces hkeyword
    inputs := congrArg SymbolTable.inputs hsymbols
    fields := congrArg SymbolTable.fields hsymbols
    vars := congrArg SymbolTable.vars hsymbols
    calls := by
      rw [htokens', readCalls_enclose hclose, TokenShift.readCalls_map]
      rfl
    mentions := by
      rw [htokens', readVariables_enclose hclose, TokenShift.readVariables_map]
      rfl
    tables := by
      rw [htokens', readTables_enclose hclose, TokenShift.readTables_map]
      rfl
    runs := by
      rw [htokens', readRuns_enclose hclose, TokenShift.readRuns_map]
      rfl
    diagnostics := diagnostics_enclose hbraces hkeyword }

-- A body with a section, a comment in it and a text that is not closed.
theorem parse_enclose_input :
    checkBraces (tokenize "input \x7b\n  // Who asks.\n  int user_id\n\x7d\n\"open") = [] ∧
      detectKeyword (tokenize "input \x7b\n  // Who asks.\n  int user_id\n\x7d\n\"open") = none ∧
      (parse "input \x7b\n  // Who asks.\n  int user_id\n\x7d\n\"open").SameBody
        (parse (enclose "input \x7b\n  // Who asks.\n  int user_id\n\x7d\n\"open")) :=
  ⟨by decide +kernel, by decide +kernel, parse_enclose _ (by decide +kernel) (by decide +kernel)⟩

end StackScript
