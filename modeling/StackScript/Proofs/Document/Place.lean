import StackScript.Proofs.Document.Error
import StackScript.Proofs.Script.Argument
import StackScript.Proofs.Script.Object
import StackScript.Proofs.Symbols.Place

/-!
# Where Things Stand

Whatever a document says of a script, it says where it is, and it never makes up
a place. Header, sections and symbols stand at tokens of the script, and so do
the references that are read from it, each at a token of its own and in the
order of the script. A diagnostic stands at a token as well, or at the start of
the script if it is not about the script at all.

So a property of positions has to be shown of the tokens, and of the start, and
then it holds throughout.

## Main definitions

* `Document.HoldsAt`: A property of all positions in a document.

## Theorems

* `position_readHeader`: A header stays at its keyword.
* `holdsAt_parseWith`: The positions of a document.
* `readCalls_positions_sublist`, `readVariables_positions_sublist`,
  `readTables_positions_sublist`, `readRuns_positions_sublist`: The positions of
  references.
-/

namespace StackScript

/-- The positions of everything that is said about a script have the property,
    and no name is declared twice. -/
structure Document.HoldsAt (p : Position → Prop) (document : Document) : Prop where
  header : ∀ header ∈ document.header, p header.position
  blocks : ∀ block ∈ document.blocks, p block.position
  symbols : document.symbols.HoldsAt p
  diagnostics : ∀ diagnostic ∈ document.diagnostics, p diagnostic.position

/-! ## Documents -/

/-- A header stays where its keyword stands, whatever is read behind it. -/
theorem position_readHeader (header : Header) (words : List Occurrence) :
    (readHeader header words).1.position = header.position := by
  fun_induction readHeader header words with
  | case1 => rfl
  | case2 => rfl
  | case3 header place places token hbrace hname ih => exact ih
  | case4 header place token hbrace hname hverb sign value rest hsign ih => exact ih
  | case5 header place token hbrace hname hverb sign value rest hsign ih => exact ih
  | case6 header place token hbrace hname hverb rest hshort ih => exact ih
  | case7 header place places token hbrace hname hverb ih => exact ih

/-- A header stands where its keyword does. -/
theorem exists_token_of_header {tokens : List Token} {keyword : Option Nat} {header : Header}
    (h : header ∈ (outline tokens keyword).header) :
    ∃ token ∈ tokens, header.position = token.position := by
  unfold outline at h
  dsimp only at h
  split at h
  · cases h
  · next place hplace =>
    rcases Option.bind_eq_some_iff.mp hplace with ⟨index, -, hhead⟩
    have hmem : place ∈ occurrences tokens := List.mem_of_mem_drop (List.mem_of_head? hhead)
    refine ⟨place.token, mem_tokens_of_occurrence hmem, ?_⟩
    -- Whatever the header is read to be, its position is kept.
    have hposition := position_readHeader place.header
      (significant ((occurrences tokens).drop (place.index + 1)))
    split at h
    · next found hread =>
      cases h
      exact (congrArg (fun read => read.1.position) hread).symm.trans hposition
    · next found opening hread =>
      cases h
      exact (congrArg (fun read => read.1.position) hread).symm.trans hposition

/-- A diagnostic is a report of a word, of a brace or a note, and the reports stand at
    tokens. -/
theorem position_of_mem_diagnostics {asked : Option String} {text : String}
    {diagnostic : Diagnostic} (h : diagnostic ∈ (parseWith asked text).diagnostics) :
    (∃ token ∈ tokenize text, diagnostic.position = token.position) ∨
      diagnostic.position = Position.start := by
  rw [diagnostics_eq_append_notes] at h
  rcases List.mem_append.mp h with h | h
  · rcases List.mem_append.mp h with h | h
    · rcases List.mem_map.mp h with ⟨token, htoken, rfl⟩
      exact Or.inl ⟨token, (List.mem_filter.mp htoken).1, position_errorReport token⟩
    · rcases List.mem_map.mp h with ⟨index, hindex, rfl⟩
      rw [position_braceReport]
      exact Or.inl (exists_token_of_unpartnered ((mem_checkBraces_index _ index).mp hindex))
  · exact (position_of_mem_notes h).imp_right And.right

/-- A property of the positions of all tokens, and of the start, is one of all
    positions in the document. -/
theorem holdsAt_parseWith {p : Position → Prop} {text : String}
    (htokens : ∀ token ∈ tokenize text, p token.position) (hstart : p Position.start)
    (asked : Option String) : (parseWith asked text).HoldsAt p where
  header := by
    intro header h
    rcases exists_token_of_header h with ⟨token, htoken, hposition⟩
    rw [hposition]
    exact htokens token htoken
  blocks := by
    intro block h
    rcases List.mem_map.mp h with ⟨part, hpart, rfl⟩
    rcases exists_place_of_heading hpart with ⟨place, hplace, hposition⟩
    rw [hposition]
    exact htokens place.token (mem_tokens_of_occurrence hplace)
  symbols := holdsAt_readSymbols fun place hplace =>
    htokens place.token (mem_tokens_of_occurrence ((places_sublist_outline _ _).subset hplace))
  diagnostics := by
    intro diagnostic h
    rcases position_of_mem_diagnostics h with ⟨token, htoken, hposition⟩ | hposition
    · rw [hposition]
      exact htokens token htoken
    · rwa [hposition]

/-! ## References -/

/-- A word gives one call or none, at its own place. -/
theorem callsAfter_positions_sublist (blocks : List Bool) (before words : List Token) :
    ((callsAfter blocks before words).map Call.position).Sublist (words.map Token.position) := by
  induction words generalizing blocks before with
  | nil => exact List.Sublist.refl _
  | cons word after ih =>
      rw [callsAfter, List.map_cons]
      split
      · exact (ih _ _).cons _
      · exact (ih _ _).cons _
      · dsimp only
        split
        · exact (ih _ _).cons_cons _
        · split
          · exact (ih _ _).cons_cons _
          · exact (ih _ _).cons _
      · exact (ih _ _).cons _

-- A reader that goes from word to word takes its positions from the words.
theorem readWords_positions_sublist {α : Type} {read : Token → List Token → Option α}
    {position : α → Position}
    (h : ∀ word after, ∀ found ∈ read word after, position found = word.position)
    (words : List Token) :
    ((readWords read words).map position).Sublist (words.map Token.position) := by
  induction words with
  | nil => exact List.Sublist.refl _
  | cons word after ih =>
      rw [readWords, List.map_cons]
      split
      · next found hfound =>
        rw [List.map_cons, h word after found hfound]
        exact ih.cons_cons _
      · exact ih.cons _

theorem significant_positions_sublist (tokens : List Token) :
    ((tokens.filter Token.isSignificant).map Token.position).Sublist
      (tokens.map Token.position) :=
  List.filter_sublist.map _

/-- Every call stands at a token of its own, in the order of the script. -/
theorem readCalls_positions_sublist (tokens : List Token) :
    ((readCalls tokens).map Call.position).Sublist (tokens.map Token.position) :=
  (callsAfter_positions_sublist [] [] _).trans (significant_positions_sublist tokens)

theorem readVariables_positions_sublist (tokens : List Token) :
    ((readVariables tokens).map VariableRef.position).Sublist (tokens.map Token.position) := by
  rw [readVariables, List.map_map]
  exact List.filter_sublist.map Token.position

/-- Tables stand at the word of their operation. -/
theorem readTables_positions_sublist (tokens : List Token) :
    ((readTables tokens).map TableRef.position).Sublist (tokens.map Token.position) := by
  refine (readWords_positions_sublist ?_ _).trans (significant_positions_sublist tokens)
  intro word after found h
  rcases tableRef?_eq_some_iff.mp h with ⟨argument, more, -, hsaid⟩
  exact hsaid.position.symm

/-- Runs stand at the name of the function that runs them. -/
theorem readRuns_positions_sublist (tokens : List Token) :
    ((readRuns tokens).map RunRef.position).Sublist (tokens.map Token.position) := by
  refine (readWords_positions_sublist ?_ _).trans (significant_positions_sublist tokens)
  intro word after found h
  rcases runRef?_eq_some_iff.mp h with ⟨argument, more, -, hsaid⟩
  exact hsaid.position.symm

end StackScript
