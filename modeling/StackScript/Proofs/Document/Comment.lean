import StackScript.Proofs.Document.Problem
import StackScript.Proofs.Script.Loose
import StackScript.Proofs.Script.Reference
import StackScript.Proofs.Symbols.Comment

/-!
# Comments Are Invisible

Taking the comments out of a text changes nothing but descriptions, whatever
the text is and wherever the comments stand.

The proof goes through the words of the text. A document is made from a list of
tokens, and the comments among them make no difference to any part of it; that
was shown reader by reader. The text without its comments has the same words at
the same lines and columns, `tokenize_withoutComments`. What is left between
the two scripts are byte offsets and the tokens that stand before a word, and
`Recast.undescribed` forgets both.

Indices are compared nowhere. A comment counts as a token, so all indices
behind it change when it goes.

## Main definitions

* `Recast.Alike`: The words of two scripts are the same when they are recast.
* `Recast.undescribed`: The words alone.
* `Declaration.undescribed`, `Binding.undescribed`: What has been declared,
  without its description.
* `Document.SameAnalysis`: Two documents that differ in comments only.

## Theorems

* `detectKeyword_words`: The scheme that a script declares, by its words.
* `braceProblems_eq`: What is wrong with the braces, by their positions.
* `Recast.Alike.symbols_eq`: The symbols of two scripts that are alike.
* `comments_invisible`: Taking out the comments changes descriptions only.
-/

namespace StackScript

open TokenShift

/-! ## Problems of words, braces and schemes -/

/-- The scheme is declared by the first word or not at all. -/
theorem detectKeyword_words (tokens : List Token) :
    (detectKeyword tokens).map (·.1) =
      (tokens.filter Token.isSignificant).head?.bind Token.declares? := by
  rw [← map_token_words]
  cases hwords : significant (occurrences tokens) with
  | nil =>
      rw [detectKeyword_none hwords]
      rfl
  | cons first words =>
      rcases exists_first_word hwords with ⟨l, r, hscript, hl, hfirst, -⟩
      rw [detectKeyword_some hscript hl hfirst, Option.map_map]
      exact Option.map_id'

theorem wordProblems_filter (tokens : List Token) :
    wordProblems (tokens.filter Token.isSignificant) = wordProblems tokens := by
  rw [wordProblems, wordProblems, filter_kind_isSignificant TokenKind.noConfusion]

/-- What is wrong with a word does not depend on where the word stands. So the problems of
    moved words are the problems of the words, at places that have moved. -/
theorem TokenShift.wordProblems_map (shift : TokenShift) (tokens : List Token) :
    MovedDown shift.lines (wordProblems tokens) (wordProblems (tokens.map shift.token)) := by
  let cause := fun token : Token =>
    if token.isUnterminatedString then
      (Problem.unterminatedString, token.position)
    else
      (Problem.unexpectedCharacter token.text, token.position)
  -- The problems are taken apart into what is wrong and where it is.
  have hreport : ∀ tokens : List Token, wordProblems tokens =
      ((tokens.filter fun token => token.kind = .error).map cause).map reportOf := by
    intro tokens
    unfold wordProblems
    rw [List.map_map]
    congr 1
    funext token
    simp only [Function.comp_apply, cause]
    split <;> rfl
  refine ⟨(tokens.filter fun token => token.kind = .error).map cause, hreport tokens, ?_⟩
  rw [hreport, shift.filter_map_of_kind (by simp), List.map_map, List.map_map, List.map_map]
  congr 1
  funext token
  simp only [Function.comp_apply, cause, isUnterminatedString_token, text_token, position_token]
  split <;> rfl

/-- What is wrong with the braces: the loose closing braces come first, then
    the opening ones. -/
theorem braceProblems_eq (tokens : List Token) :
    braceProblems tokens =
      (loosePositions tokens).2.reverse.map (Diagnostic.ofProblem .unmatchedBrace) ++
        (loosePositions tokens).1.reverse.map (Diagnostic.ofProblem .unterminatedBlock) := by
  have hposition : ∀ i token, tokens[i]? = some token →
      positionAt tokens (0 + i) = token.position := by
    intro i token hget
    rw [Nat.zero_add, positionAt, hget]
  have hpositions : _ = loosePositions tokens := passAll_positions hposition ⟨[], []⟩
  rw [← hpositions, braceProblems, checkBraces_eq]
  simp only [List.map_append, List.map_map, List.map_reverse]
  rfl

theorem braceProblems_filter (tokens : List Token) :
    braceProblems (tokens.filter Token.isSignificant) = braceProblems tokens := by
  rw [braceProblems_eq, braceProblems_eq, loosePositions_filter]

/-- Byte offsets are no part of what is reported. -/
theorem braceProblems_unplaced (tokens : List Token) :
    braceProblems (tokens.map Token.unplaced) = braceProblems tokens := by
  have hsame : loosePositions (tokens.map Token.unplaced) = loosePositions tokens := by
    unfold loosePositions
    rw [List.foldl_map]
    rfl
  rw [braceProblems_eq, braceProblems_eq, hsame]

-- A section is reported by its name and position, without indices.
theorem sectionProblems_unindexed (scheme : Scheme) (blocks : List Section) :
    sectionProblems scheme (blocks.map Section.unindexed) = sectionProblems scheme blocks := by
  unfold sectionProblems
  rw [List.filter_map, List.map_map]
  rfl

/-! ## Scripts that are alike -/

/-- The words of two scripts are the same when they are recast. -/
def Recast.Alike (recast : Recast) (tokens others : List Token) : Prop :=
  (significant (occurrences others)).map recast.place =
    (significant (occurrences tokens)).map recast.place

namespace Recast.Alike

variable {recast : Recast}

/-- The outlines agree in their headers, and in their sections up to indices and what the
    recast leaves out. -/
theorem outline_eq {tokens others : List Token} (h : recast.Alike tokens others)
    (hlines : recast.lines = 0) (hordered : LineOrdered (occurrences tokens))
    (hordered' : LineOrdered (occurrences others)) :
    (outline others ((detectKeyword others).map (·.2))).header =
        (outline tokens ((detectKeyword tokens).map (·.2))).header ∧
      ((outline others ((detectKeyword others).map (·.2))).parts.map Part.plain).map recast.part =
        ((outline tokens ((detectKeyword tokens).map (·.2))).parts.map
          Part.plain).map recast.part := by
  have hdown : ∀ header : Option Header, header.map (Header.down recast.lines) = header := by
    rw [hlines]
    exact fun _ => Option.map_id'
  -- Each script is read by its words alone, and the words of the two are the same.
  rcases outline_words hordered with ⟨hheader, hparts⟩
  rcases outline_words hordered' with ⟨hheader', hparts'⟩
  rcases recast.outlineOfWords_map (significant (occurrences tokens)) with
    ⟨hrecast, hrecastParts⟩
  rcases recast.outlineOfWords_map (significant (occurrences others)) with
    ⟨hrecast', hrecastParts'⟩
  rw [hdown] at hrecast hrecast'
  refine ⟨?_, ?_⟩
  · rw [hheader, hheader', ← hrecast, ← hrecast', h]
  · rw [hparts, hparts', ← hrecastParts, ← hrecastParts', h]

/-- The symbols agree up to what the recast leaves out, and so do the problems in them. -/
theorem symbols_eq {text other : String} (h : recast.Alike (tokenize text) (tokenize other))
    (hlines : recast.lines = 0) (grammar : Grammar) :
    recast.table (readSymbols grammar (partsOfText other)).table =
        recast.table (readSymbols grammar (partsOfText text)).table ∧
      (readSymbols grammar (partsOfText other)).problems =
        (readSymbols grammar (partsOfText text)).problems := by
  have hordered := lineOrdered_occurrences text
  have hordered' := lineOrdered_occurrences other
  -- Both tables are made from parts that agree up to what is recast.
  rcases h.outline_eq hlines hordered hordered' with ⟨-, hparts⟩
  rcases recast.readSymbols_map grammar ((partsOfText text).map Part.plain) with
    ⟨htable, hproblems⟩
  rcases recast.readSymbols_map grammar ((partsOfText other).map Part.plain) with
    ⟨htable', hproblems'⟩
  have hplain := readSymbols_plain grammar (lineOrdered_body hordered
    ((detectKeyword (tokenize text)).map (·.2)))
  have hplain' := readSymbols_plain grammar (lineOrdered_body hordered'
    ((detectKeyword (tokenize other)).map (·.2)))
  change readSymbols grammar ((partsOfText text).map Part.plain) = _ at hplain
  change readSymbols grammar ((partsOfText other).map Part.plain) = _ at hplain'
  change ((partsOfText other).map Part.plain).map _ =
    ((partsOfText text).map Part.plain).map _ at hparts
  rw [hlines] at hproblems hproblems'
  refine ⟨?_, ?_⟩
  · rw [hplain, ← hparts] at htable
    rw [hplain'] at htable'
    exact htable'.symm.trans htable
  · -- The problems have no description, so they are equal as they are.
    have heq := hproblems.eq
    have heq' := hproblems'.eq
    rw [hplain, ← hparts] at heq
    rw [hplain'] at heq'
    exact heq'.symm.trans heq

end Recast.Alike

/-! ## The words alone -/

/-- The words alone, without byte offsets and without what stands before
    them. -/
def Recast.undescribed : Recast where
  toTokenShift := TokenShift.unplaced
  place occurrence := ⟨[], occurrence.token.unplaced⟩
  describe _ := none
  token_place _ := rfl
  description_place _ := rfl
  describe_none := rfl

/-- The declaration without its description. -/
def Declaration.undescribed (declaration : Declaration) : Declaration :=
  { declaration with description := none }

/-- The binding without its description. -/
def Binding.undescribed (binding : Binding) : Binding :=
  { binding with description := none }

/-- Two scripts have the same words. -/
def SameWords (tokens others : List Token) : Prop :=
  (others.filter Token.isSignificant).map Token.unplaced =
    (tokens.filter Token.isSignificant).map Token.unplaced

-- Taking the offset away leaves the kind as it is.
theorem filter_map_unplaced (tokens : List Token) :
    (tokens.map Token.unplaced).filter Token.isSignificant =
      (tokens.filter Token.isSignificant).map Token.unplaced :=
  TokenShift.unplaced.filter_map_of_kind TokenShift.unplaced.isSignificant_token tokens

/-- A text without its comments has the same words. -/
theorem sameWords_withoutComments (text : String) :
    SameWords (tokenize text) (tokenize (withoutComments text)) := by
  unfold SameWords
  rw [← filter_map_unplaced, tokenize_withoutComments, filter_map_unplaced,
    filter_isSignificant_twice]

namespace SameWords

variable {tokens others : List Token}

-- Whatever is read from the words alone is the same.
theorem eq_of_words {α : Type} {f : List Token → α} (h : SameWords tokens others)
    (hfilter : ∀ tokens, f (tokens.filter Token.isSignificant) = f tokens)
    (hunplaced : ∀ tokens, f (tokens.map Token.unplaced) = f tokens) : f others = f tokens := by
  rw [← hfilter others, ← hfilter tokens, ← hunplaced, h, hunplaced]

/-- Two texts with the same words at the same lines and columns are alike, once the
    descriptions are forgotten. -/
theorem alike (h : SameWords tokens others) : Recast.undescribed.Alike tokens others := by
  have hwords : ∀ tokens : List Token,
      (significant (occurrences tokens)).map Recast.undescribed.place =
        ((tokens.filter Token.isSignificant).map Token.unplaced).map (Occurrence.mk []) := by
    intro tokens
    rw [← map_token_words, List.map_map, List.map_map]
    rfl
  rw [Recast.Alike, hwords, hwords, h]

/-- The keyword is the first word, if it is one of the known words. -/
theorem keyword_eq (h : SameWords tokens others) :
    (detectKeyword others).map (·.1) = (detectKeyword tokens).map (·.1) := by
  have hfirst : ∀ tokens : List Token,
      (tokens.filter Token.isSignificant).head?.bind Token.declares? =
        ((tokens.filter Token.isSignificant).map Token.unplaced).head?.bind Token.declares? := by
    intro tokens
    rw [List.head?_map, Option.bind_map]
    rfl
  rw [detectKeyword_words, detectKeyword_words, hfirst, hfirst, h]

/-- The scheme is that of the keyword. -/
theorem scheme_eq (h : SameWords tokens others) :
    declaredScheme others = declaredScheme tokens := by
  have hscheme : ∀ tokens, declaredScheme tokens =
      ((detectKeyword tokens).map (·.1)).getD .function := by
    intro tokens
    unfold declaredScheme
    rcases detectKeyword tokens with _ | ⟨scheme, index⟩ <;> rfl
  rw [hscheme, hscheme, h.keyword_eq]

/-- What is reported about the scheme are the keyword and the position of the first word. -/
theorem schemeProblems_eq (h : SameWords tokens others) (asked : Option String) :
    schemeProblems others asked = schemeProblems tokens asked := by
  have hkeyword : (detectKeyword others).isNone =
      (detectKeyword tokens).isNone := by
    rw [← Option.isNone_map, h.keyword_eq, Option.isNone_map]
  have hfirst : (others.find? Token.isSignificant).map Token.unplaced =
      (tokens.find? Token.isSignificant).map Token.unplaced := by
    rw [← List.head?_filter, ← List.head?_filter, ← List.head?_map, ← List.head?_map, h]
  unfold schemeProblems
  rw [hkeyword]
  -- The first words are equal up to their byte offsets, and so are their positions.
  rcases hother : others.find? Token.isSignificant with _ | other
  · rcases htoken : tokens.find? Token.isSignificant with _ | token
    · rfl
    · rw [hother, htoken] at hfirst
      cases hfirst
  · rcases htoken : tokens.find? Token.isSignificant with _ | token
    · rw [hother, htoken] at hfirst
      cases hfirst
    · rw [hother, htoken, Option.map_some, Option.map_some, Option.some.injEq] at hfirst
      have hposition := congrArg Token.position hfirst
      change other.position = token.position at hposition
      dsimp only
      rw [hposition]

end SameWords

/-! ## Documents -/

namespace Document

/-- Two documents that differ in comments only: the same in everything but
    descriptions, and indices where comments count. -/
structure SameAnalysis (document other : Document) : Prop where
  scheme : other.scheme = document.scheme
  header : other.header = document.header
  /-- The sections have the same names, labels, positions and blocks. -/
  blocks : other.blocks.map Section.unindexed = document.blocks.map Section.unindexed
  diagnostics : other.diagnostics = document.diagnostics
  inputs : other.symbols.inputs.map Declaration.undescribed =
    document.symbols.inputs.map Declaration.undescribed
  fields : other.symbols.fields.map Declaration.undescribed =
    document.symbols.fields.map Declaration.undescribed
  vars : other.symbols.vars.map Binding.undescribed = document.symbols.vars.map Binding.undescribed
  calls : readCalls other.tokens = readCalls document.tokens
  mentions : readVariables other.tokens = readVariables document.tokens
  tables : readTables other.tokens = readTables document.tokens
  runs : readRuns other.tokens = readRuns document.tokens

end Document

namespace SameWords

variable {text other : String}

/-- Two texts with the same words are read alike. -/
theorem sameAnalysis (h : SameWords (tokenize text) (tokenize other)) (asked : Option String) :
    (parseWith asked text).SameAnalysis (parseWith asked other) := by
  -- The document is made from its outline, from its table, and from four lists of
  -- references.
  rcases h.alike.outline_eq rfl (lineOrdered_occurrences text) (lineOrdered_occurrences other) with
    ⟨hheader, hparts⟩
  have hscheme : (parseWith asked other).scheme = (parseWith asked text).scheme := by
    change (asked.bind Scheme.ofName?).getD _ = (asked.bind Scheme.ofName?).getD _
    rw [h.scheme_eq]
  have hblocks : (parseWith asked other).blocks.map Section.unindexed =
      (parseWith asked text).blocks.map Section.unindexed := by
    have hheadings := congrArg (List.map Part.heading) hparts
    simp only [List.map_map] at hheadings
    change (List.map Part.heading _).map Section.unindexed =
      (List.map Part.heading _).map Section.unindexed
    rw [List.map_map, List.map_map]
    exact hheadings
  rcases h.alike.symbols_eq rfl (parseWith asked text).scheme.grammar with ⟨htable, hproblems⟩
  -- Word by word, brace by brace and part by part nothing else is reported.
  have hdiagnostics : (parseWith asked other).diagnostics = (parseWith asked text).diagnostics := by
    have hwords : wordProblems (tokenize other) = wordProblems (tokenize text) :=
      h.eq_of_words wordProblems_filter fun tokens =>
        (TokenShift.unplaced.wordProblems_map tokens).eq
    have hbraces : braceProblems (tokenize other) = braceProblems (tokenize text) :=
      h.eq_of_words braceProblems_filter braceProblems_unplaced
    rw [diagnostics_parseWith, diagnostics_parseWith, hwords, hbraces, h.schemeProblems_eq, hscheme,
      hproblems, ← sectionProblems_unindexed, hblocks, sectionProblems_unindexed]
  have hsymbols : Recast.undescribed.table (parseWith asked other).symbols =
      Recast.undescribed.table (parseWith asked text).symbols := by
    rw [symbols_parseWith, symbols_parseWith, hscheme]
    exact htable
  exact {
    scheme := hscheme
    header := hheader
    blocks := hblocks
    diagnostics := hdiagnostics
    inputs := congrArg SymbolTable.inputs hsymbols
    fields := congrArg SymbolTable.fields hsymbols
    vars := congrArg SymbolTable.vars hsymbols
    calls := h.eq_of_words readCalls_filter fun tokens =>
      (TokenShift.unplaced.readCalls_map tokens).trans (List.map_id'' (fun _ => rfl) _)
    mentions := h.eq_of_words readVariables_filter fun tokens =>
      (TokenShift.unplaced.readVariables_map tokens).trans (List.map_id'' (fun _ => rfl) _)
    tables := h.eq_of_words readTables_filter fun tokens =>
      (TokenShift.unplaced.readTables_map tokens).trans (List.map_id'' (fun _ => rfl) _)
    runs := h.eq_of_words readRuns_filter fun tokens =>
      (TokenShift.unplaced.readRuns_map tokens).trans (List.map_id'' (fun _ => rfl) _) }

end SameWords

/-- Comments are invisible: taking them out of a text changes nothing but
    descriptions. -/
theorem comments_invisible (asked : Option String) (text : String) :
    (parseWith asked text).SameAnalysis (parseWith asked (withoutComments text)) :=
  (sameWords_withoutComments text).sameAnalysis asked

end StackScript
