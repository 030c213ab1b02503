import StackScript.Proofs.Document.Comment
import StackScript.Proofs.Token.Return

/-!
# Line Endings Are Invisible

A script may come from a system that ends its lines with a carriage return and a
line feed. It is read as if it had line feeds only, up to the byte offsets and
the texts of comments, none of which a document shows: not even a description
gets a carriage return from the comment that it is taken from.

This is more than is true of comments, which may be left out but take the
descriptions with them. `Recast.bare` therefore keeps what the comments above a
word say.

## Main definitions

* `Recast.bare`: The words with what the comments before them say.
* `Document.SameReading`: Two documents that are the same in all that they show.

## Theorems

* `alike_of_bare`: Scripts with the same bare tokens are alike.
* `returns_invisible`: Carriage returns at the ends of lines change nothing.
-/

namespace StackScript

/-! ## What comments say -/

/-- Kind and line are kept, and these decide which comments are above a word. -/
theorem commentsAbove_bare (line : Nat) (before : List Token) :
    commentsAbove line (before.map Token.bare) =
      (commentsAbove line before).map Token.bare := by
  induction before generalizing line with
  | nil => rfl
  | cons comment before ih =>
      rw [List.map_cons, commentsAbove, commentsAbove, List.head?_map, Option.all_map,
        apply_ite (List.map Token.bare), List.map_cons, ← ih]
      rfl

/-- What the comments above a word say is kept. -/
theorem description_bare (occurrence : Occurrence) :
    (Occurrence.mk (occurrence.before.map Token.bare) occurrence.token.unplaced).description =
      occurrence.description := by
  have hremark : Token.remark ∘ Token.bare = Token.remark := funext Token.remark_bare
  unfold Occurrence.description
  dsimp only
  rw [commentsAbove_bare, ← List.map_reverse, List.map_map, hremark]
  rfl

/-- The words without byte offsets, with what the comments before them say. -/
def Recast.bare : Recast where
  toTokenShift := TokenShift.unplaced
  place occurrence := ⟨occurrence.before.map Token.bare, occurrence.token.unplaced⟩
  describe := id
  token_place _ := rfl
  description_place := description_bare
  describe_none := id_eq none

/-- Symbols are kept with their descriptions. -/
theorem Recast.table_bare (table : SymbolTable) : Recast.bare.table table = table := by
  have hdeclaration : Recast.bare.declaration = id := funext fun _ => rfl
  have hbinding : Recast.bare.binding = id := funext fun _ => rfl
  have hmap : ∀ {α : Type} (table : OrderedTable α), table.map id = table :=
    fun table => congrArg OrderedTable.mk (List.map_id _)
  rw [Recast.table, hdeclaration, hbinding, hmap, hmap, hmap]

/-! ## Scripts -/

/-- Bare tokens are in bare places. -/
theorem occurrencesAfter_bare (before tokens : List Token) :
    occurrencesAfter (before.map Token.bare) (tokens.map Token.bare) =
      (occurrencesAfter before tokens).map fun place =>
        ⟨place.before.map Token.bare, place.token.bare⟩ := by
  induction tokens generalizing before with
  | nil => rfl
  | cons token tokens ih => exact congrArg (_ :: ·) (ih (token :: before))

section Bare

variable {tokens others : List Token}

/-- Scripts with the same bare tokens are alike. -/
theorem alike_of_bare (h : others.map Token.bare = tokens.map Token.bare) :
    Recast.bare.Alike tokens others := by
  have hwords : ∀ tokens : List Token,
      (significant (occurrences tokens)).map Recast.bare.place =
        significant (occurrences (tokens.map Token.bare)) := by
    intro tokens
    have hplaces : occurrences (tokens.map Token.bare) =
        (occurrences tokens).map fun place =>
          ⟨place.before.map Token.bare, place.token.bare⟩ := occurrencesAfter_bare [] tokens
    rw [hplaces, significant, significant, List.filter_map]
    refine List.map_congr_left fun place hmem => ?_
    -- A word is no comment, and of a word all but the offset is kept.
    rw [Token.bare_of_ne (kind_ne_comment (List.mem_filter.mp hmem).2)]
    rfl
  rw [Recast.Alike, hwords, hwords, h]

/-- Without the comments nothing but offsets has been changed. -/
theorem sameWords_of_bare (h : others.map Token.bare = tokens.map Token.bare) :
    SameWords tokens others := by
  have hwords : ∀ tokens : List Token,
      (tokens.filter Token.isSignificant).map Token.unplaced =
        (tokens.map Token.bare).filter Token.isSignificant := by
    intro tokens
    rw [List.filter_map]
    refine List.map_congr_left fun token hmem => (Token.bare_of_ne fun hcomment => ?_).symm
    have hsignificant := (List.mem_filter.mp hmem).2
    rw [Token.isSignificant, hcomment] at hsignificant
    cases hsignificant
  rw [SameWords, hwords, hwords, h]

end Bare

/-! ## Documents -/

/-- Two documents are the same in all that they show. What may differ are the byte
    offsets of their tokens and the texts of their comments. -/
structure Document.SameReading (document other : Document) : Prop
    extends document.SameAnalysis other where
  /-- The symbols are the same with their descriptions. -/
  symbols : other.symbols = document.symbols

/-- Carriage returns at the ends of lines change nothing that a document shows. -/
theorem returns_invisible (asked : Option String) {text : String}
    (h : ∀ token ∈ tokenize text, token.kind ≠ .error) :
    (parseWith asked text).SameReading (parseWith asked (withReturns text)) := by
  have htokens := tokenize_withReturns h
  have hanalysis := (sameWords_of_bare htokens).sameAnalysis asked
  refine ⟨hanalysis, ?_⟩
  have hsymbols := ((alike_of_bare htokens).symbols_eq rfl (parseWith asked text).scheme.grammar).1
  rw [symbols_parseWith, symbols_parseWith, hanalysis.scheme]
  rw [Recast.table_bare, Recast.table_bare] at hsymbols
  exact hsymbols

/-- The comment above the declaration takes a carriage return in, and so does the one behind
    it, in a script that is not complete. -/
theorem returns_invisible_input :
    (∀ token ∈ tokenize ("function f \x7b\n  input \x7b\n    // the owner\n" ++
        "    int id filters=min:1 // from 1\n  \x7d\n  db.get users"), token.kind ≠ .error) ∧
      withReturns "// a\n\nint id" = "// a\r\n\r\nint id" ∧
      (parseWith none ("function f \x7b\n  input \x7b\n    // the owner\n" ++
          "    int id filters=min:1 // from 1\n  \x7d\n  db.get users")).SameReading
        (parseWith none (withReturns ("function f \x7b\n  input \x7b\n    // the owner\n" ++
          "    int id filters=min:1 // from 1\n  \x7d\n  db.get users"))) := by
  have h : ∀ token ∈ tokenize ("function f \x7b\n  input \x7b\n    // the owner\n" ++
      "    int id filters=min:1 // from 1\n  \x7d\n  db.get users"), token.kind ≠ .error := by
    decide +kernel
  exact ⟨h, by decide +kernel, returns_invisible none h⟩

end StackScript
