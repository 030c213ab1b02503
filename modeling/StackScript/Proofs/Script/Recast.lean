import StackScript.Proofs.Script.Statement
import StackScript.Proofs.Token.Shift
import StackScript.Script.Outline

/-!
# Recasting a Script

The same words can stand in two texts: behind other comments, at other byte
offsets, a line further down. A reader of occurrences looks at the kind and the
text of a word, compares lines, and hands positions and descriptions on. So it
reads the two scripts alike, and what it hands on differs as the places do.

`Recast` collects what a reader may rely on when it is shown the same words in
another script, and the rest of the file goes through the readers, from the
inside to the outside, one law each. A law says that reading the recast words
is recasting what has been read. The laws know nothing of texts; who wants to
compare two texts provides a recast of their words and has all laws at once.

Indices are not kept. They count comments, and comments are not words, so a
section is compared without its indices, `Section.unindexed`.

## Main definitions

* `Recast`: The words of a script in another script.
* `Block.map`, `Statement.map`, `Extent.down`: What the readers pass around.
* `Header.down`, `Section.unindexed`, `Recast.part`: What they find.
* `headerWords`: Reading a header, with the words that are left.

## Theorems

* `Recast.untilClose_map`, `Recast.statementsAfter_map`: Blocks and statements.
* `Recast.part?_map`, `Recast.partsOf_map`: Sections.
* `readHeader_eq`, `Recast.headerWords_map`: Headers.
-/

namespace StackScript

open TokenShift

/-- The words of a script in another script: some lines further down, and with
    descriptions that depend on the old ones only. -/
structure Recast extends TokenShift where
  /-- A word with what stands before it in the other script. -/
  place : Occurrence → Occurrence
  /-- The description in the other script. -/
  describe : Option String → Option String
  token_place : ∀ occurrence, (place occurrence).token = token occurrence.token
  description_place : ∀ occurrence, (place occurrence).description = describe occurrence.description
  describe_none : describe none = none

namespace Recast

attribute [simp] token_place description_place describe_none

variable (recast : Recast)

@[simp]
theorem isSignificant_place (occurrence : Occurrence) :
    (recast.place occurrence).isSignificant = occurrence.isSignificant := by
  simp [Occurrence.isSignificant]

/-- Looking for occurrences by kind and text finds the same ones. -/
theorem significant_map (places : List Occurrence) :
    significant (places.map recast.place) = (significant places).map recast.place := by
  have hsame : Occurrence.isSignificant ∘ recast.place = Occurrence.isSignificant :=
    funext recast.isSignificant_place
  rw [significant, List.filter_map, hsame]
  rfl

-- The next word is found at the same distance.
theorem skipComments_map (places : List Occurrence) :
    (places.map recast.place).dropWhile (fun place => !place.isSignificant) =
      (places.dropWhile fun place => !place.isSignificant).map recast.place := by
  rw [List.dropWhile_map]
  congr 2
  funext place
  simp

end Recast

/-! ## Blocks -/

/-- The block with all its occurrences replaced. -/
def Block.map (f : Occurrence → Occurrence) (block : Block) : Block :=
  ⟨block.body.map f, block.ending.map fun ending => (f ending.1, ending.2.map f)⟩

@[simp]
theorem Block.map_cons (f : Occurrence → Occurrence) (block : Block) (place : Occurrence) :
    (block.cons place).map f = (block.map f).cons (f place) := rfl

@[simp]
theorem Block.map_rest (f : Occurrence → Occurrence) (block : Block) :
    (block.map f).rest = block.rest.map f := by
  rcases block with ⟨body, _ | ending⟩ <;> rfl

/-- A block ends at the same brace, because kinds are kept. -/
theorem Recast.untilClose_map (recast : Recast) (depth : Nat) (places : List Occurrence) :
    untilClose depth (places.map recast.place) = (untilClose depth places).map recast.place := by
  induction places generalizing depth with
  | nil => rfl
  | cons place places ih =>
      have hkind : (recast.place place).token.kind = place.token.kind := by simp
      rw [List.map_cons]
      -- Braces alone decide, and each of them is one in both scripts.
      by_cases hl : place.token.kind = .lBrace
      · rw [untilClose_lBrace _ _ hl, untilClose_lBrace _ _ (hkind.trans hl), ih, Block.map_cons]
      by_cases hr : place.token.kind = .rBrace
      · cases depth with
        | zero =>
            rw [untilClose_rBrace_zero _ hr, untilClose_rBrace_zero _ (hkind.trans hr)]
            rfl
        | succ depth =>
            rw [untilClose_rBrace _ _ hr, untilClose_rBrace _ _ (hkind.trans hr), ih,
              Block.map_cons]
      · rw [untilClose_of_ne _ _ hl hr, untilClose_of_ne _ _ (hkind ▸ hl) (hkind ▸ hr), ih,
          Block.map_cons]

/-! ## Statements -/

/-- The statement with all its occurrences replaced. -/
def Statement.map (f : Occurrence → Occurrence) (statement : Statement) : Statement :=
  ⟨statement.comments.map f, f statement.first, statement.others.map f⟩

namespace Extent

/-- The extent of a statement some lines further down. -/
def down (lines : Nat) (extent : Extent) : Extent :=
  { extent with line := extent.line + lines }

-- An extent that is moved down counts the same brackets.
@[simp]
theorem isLevel_down (lines : Nat) (extent : Extent) :
    (extent.down lines).isLevel = extent.isLevel := rfl

end Extent

namespace Recast

variable (recast : Recast)

/-- Taking a word compares no lines, it remembers the new one. -/
theorem take_down (extent : Extent) (word : Token) :
    (extent.down recast.lines).take (recast.token word) =
      (extent.take word).down recast.lines := by
  unfold Extent.take
  simp only [kind_token, position_token, Position.line_down, Extent.down]
  split <;> rfl

theorem ofFirst_token (word : Token) :
    Extent.ofFirst (recast.token word) = (Extent.ofFirst word).down recast.lines := by
  rw [Extent.ofFirst, position_token]
  exact recast.take_down ⟨word.position.line, 0, 0⟩ word

/-- Lines are compared and never measured, so a statement ends where it did. -/
theorem endsBefore_down (extent : Extent) (word : Token) :
    (extent.down recast.lines).endsBefore (recast.token word) = extent.endsBefore word := by
  have hline : extent.line + recast.lines < word.position.line + recast.lines ↔
      extent.line < word.position.line := Nat.add_lt_add_iff_right
  unfold Extent.endsBefore
  rw [Extent.isLevel_down, kind_token, position_token, Position.line_down,
    ← decide_eq_decide.mpr hline]
  rfl

-- Two words are on one line in both scripts or in neither.
theorem endsWith_down (extent : Extent) (word : Token) :
    (extent.down recast.lines).endsWith (recast.token word) = extent.endsWith word := by
  simp [Extent.endsWith]

/-- A statement takes as many words as it takes in the other script. -/
theorem restOfStatement_map (extent : Extent) (places : List Occurrence) :
    restOfStatement (extent.down recast.lines) (places.map recast.place) =
      ((restOfStatement extent places).1.map recast.place,
        (restOfStatement extent places).2.map recast.place) := by
  induction places generalizing extent with
  | nil => rfl
  | cons place places ih =>
      rw [List.map_cons, restOfStatement, restOfStatement, token_place, endsBefore_down,
        endsWith_down, take_down, ih]
      split
      · rfl
      · split <;> rfl

/-- The statements of the recast words are the recast statements, comments in front
    included. -/
theorem statementsAfter_map (comments places : List Occurrence) :
    statementsAfter (comments.map recast.place) (places.map recast.place) =
      (statementsAfter comments places).map (Statement.map recast.place) := by
  fun_induction statementsAfter comments places with
  | case1 => rw [List.map_nil, statementsAfter, List.map_nil]
  | case2 comments place rest hcomment ih =>
      rw [List.map_cons, statementsAfter, isSignificant_place, if_pos hcomment, ← ih]
      simp
  | case3 comments place rest hcomment hsemicolon ih =>
      rw [List.map_cons, statementsAfter, isSignificant_place, if_neg hcomment, token_place,
        kind_token, if_pos hsemicolon, ← ih]
  -- The first word opens a statement, and what it leaves is recast as well.
  | case4 comments place rest hcomment hsemicolon others ih =>
      rw [List.map_cons, statementsAfter, isSignificant_place, if_neg hcomment, token_place,
        kind_token, if_neg hsemicolon, ofFirst_token, restOfStatement_map, List.map_cons, ← ih]
      rfl

end Recast

/-! ## Sections -/

namespace Section

/-- The section without its indices, which depend on the comments around it. -/
def unindexed (heading : Section) : Section :=
  { heading with openIndex := heading.openIndex.map fun _ => 0, closeIndex := none }

/-- The section some lines further down. -/
def down (lines : Nat) (heading : Section) : Section :=
  { heading with position := heading.position.down lines }

end Section

/-- The section without its indices. -/
def Part.unindexed (part : Part) : Part :=
  { part with heading := part.heading.unindexed }

namespace Recast

variable (recast : Recast)

/-- A section in the other script, without its indices. -/
def part (part : Part) : Part :=
  ⟨part.heading.unindexed.down recast.lines, part.body.map (List.map recast.place)⟩

/-- Name, label and brace of a section are read off kinds and texts. -/
theorem partOf_map (name : Token) (label : Option String) (words : List Occurrence) :
    (partOf (recast.token name) label (words.map recast.place)).map Part.unindexed =
      (partOf name label words).map recast.part := by
  cases words with
  | nil => rfl
  | cons word words =>
      unfold partOf
      simp only [List.map_cons, token_place, kind_token, text_token, position_token,
        untilClose_map]
      split
      · simp [Part.unindexed, part, Section.unindexed, Section.down, Block.map]
      · split <;> rfl
      · rfl

/-- A statement is a section in both scripts or in neither. -/
theorem part?_map (statement : Statement) :
    (statement.map recast.place).part?.map Part.unindexed = statement.part?.map recast.part := by
  unfold Statement.part? Statement.map
  simp only [token_place, kind_token, skipComments_map]
  split
  · cases statement.others.dropWhile fun place => !place.isSignificant with
    | nil => rfl
    | cons word words =>
        simp only [List.map_cons, token_place, kind_token, text_token, skipComments_map]
        split
        · exact recast.partOf_map _ _ _
        · exact recast.partOf_map _ _ (word :: words)
  · rfl

/-- The sections of a body are those of the recast body, but for their indices. -/
theorem partsOf_map (body : List Occurrence) :
    (partsOf (body.map recast.place)).map Part.unindexed = (partsOf body).map recast.part := by
  unfold partsOf statements
  have hstatements := recast.statementsAfter_map [] body
  rw [List.map_nil] at hstatements
  rw [hstatements, List.filterMap_map, List.map_filterMap, List.map_filterMap]
  congr 1
  funext statement
  exact recast.part?_map statement

end Recast

/-! ## Headers -/

/-- The header some lines further down. -/
def Header.down (lines : Nat) (header : Header) : Header :=
  { header with position := header.position.down lines }

/-- Reading a header as `readHeader` does, but with all the words that are left:
    the opening brace of the body and what stands behind it. -/
def headerWords (header : Header) : List Occurrence → Header × List Occurrence
  | [] => (header, [])
  | place :: places =>
      let token := place.token
      if token.kind = .lBrace then
        (header, place :: places)
      else if header.name = none && (token.kind = .ident || token.kind = .string) then
        headerWords { header with name := some (Text.unquote token.text) } places
      else if token.isIdent "verb" then
        match places with
        | sign :: value :: rest =>
            if sign.token.kind = .eq then
              headerWords { header with verb := some (Text.unquote value.token.text).toUpper } rest
            else
              headerWords header (sign :: value :: rest)
        | rest => headerWords header rest
      else
        headerWords header places

/-- The reader of headers hands back the first word it has not read, and `headerWords` all
    of them. -/
theorem readHeader_eq (header : Header) (words : List Occurrence) :
    readHeader header words =
      ((headerWords header words).1, (headerWords header words).2.head?) := by
  fun_induction headerWords header words with
  | case1 => rfl
  | case2 header place places token hbrace =>
      rw [readHeader.eq_def]
      dsimp only
      rw [if_pos hbrace]
      rfl
  | case3 header place places token hbrace hname ih =>
      rw [readHeader.eq_def]
      dsimp only
      rw [if_neg hbrace, if_pos hname]
      exact ih
  | case4 header place token hbrace hname hverb sign value rest hsign ih =>
      rw [readHeader.eq_def]
      dsimp only
      rw [if_neg hbrace, if_neg hname, if_pos hverb, if_pos hsign]
      exact ih
  | case5 header place token hbrace hname hverb sign value rest hsign ih =>
      rw [readHeader.eq_def]
      dsimp only
      rw [if_neg hbrace, if_neg hname, if_pos hverb, if_neg hsign]
      exact ih
  -- The key stands at the end, with one more word at most behind it.
  | case6 header place token hbrace hname hverb rest hshort ih =>
      rw [readHeader.eq_def]
      dsimp only
      rw [if_neg hbrace, if_neg hname, if_pos hverb]
      split
      · next sign value rest => exact absurd rfl (hshort sign value rest)
      · exact ih
  | case7 header place places token hbrace hname hverb ih =>
      rw [readHeader.eq_def]
      dsimp only
      rw [if_neg hbrace, if_neg hname, if_neg hverb]
      exact ih

/-- What is left of a header is the end of it. -/
theorem headerWords_suffix (header : Header) (words : List Occurrence) :
    (headerWords header words).2 <:+ words := by
  fun_induction headerWords header words with
  | case1 => exact List.suffix_rfl
  | case2 => exact List.suffix_rfl
  | case3 _ _ _ _ _ _ ih => exact ih.trans (List.suffix_cons _ _)
  | case4 _ _ _ _ _ _ sign value rest _ ih =>
      exact ih.trans (List.suffix_append [_, sign, value] rest)
  | case5 _ _ _ _ _ _ _ _ _ _ ih => exact ih.trans (List.suffix_cons _ _)
  | case6 _ _ _ _ _ _ _ _ ih => exact ih.trans (List.suffix_cons _ _)
  | case7 _ _ _ _ _ _ _ ih => exact ih.trans (List.suffix_cons _ _)

namespace Recast

variable (recast : Recast)

/-- A header says the same in both scripts, at its own place. -/
theorem headerWords_map (header : Header) (words : List Occurrence) :
    headerWords (header.down recast.lines) (words.map recast.place) =
      ((headerWords header words).1.down recast.lines,
        (headerWords header words).2.map recast.place) := by
  fun_induction headerWords header words with
  | case1 => rfl
  | case2 header place places token hbrace =>
      rw [List.map_cons, headerWords.eq_def]
      simp only [token_place, kind_token]
      rw [if_pos hbrace]
  | case3 header place places token hbrace hname ih =>
      rw [List.map_cons, headerWords.eq_def]
      simp only [token_place, kind_token, text_token]
      rw [if_neg hbrace]
      exact (if_pos hname).trans ih
  -- The key has its sign and its value.
  | case4 header place token hbrace hname hverb sign value rest hsign ih =>
      rw [List.map_cons, headerWords.eq_def]
      simp only [token_place, kind_token, text_token, isIdent_token, List.map_cons]
      rw [if_neg hbrace]
      refine (if_neg hname).trans ?_
      rw [if_pos hverb, if_pos hsign]
      exact ih
  -- What stands behind the key is not of this form.
  | case5 header place token hbrace hname hverb sign value rest hsign ih =>
      rw [List.map_cons, headerWords.eq_def]
      simp only [token_place, kind_token, text_token, isIdent_token, List.map_cons]
      rw [if_neg hbrace]
      refine (if_neg hname).trans ?_
      rw [if_pos hverb, if_neg hsign]
      exact ih
  | case6 header place token hbrace hname hverb rest hshort ih =>
      rw [List.map_cons, headerWords.eq_def]
      simp only [token_place, kind_token, text_token, isIdent_token]
      rw [if_neg hbrace]
      refine (if_neg hname).trans ?_
      rw [if_pos hverb]
      split
      · next sign value rest' hmap =>
        -- Two words are left in the one script if they are in the other.
        rcases List.map_eq_cons_iff.mp hmap with ⟨a, behind, rfl, -, hbehind⟩
        rcases List.map_eq_cons_iff.mp hbehind with ⟨b, behind, rfl, -, -⟩
        exact absurd rfl (hshort a b behind)
      · exact ih
  | case7 header place places token hbrace hname hverb ih =>
      rw [List.map_cons, headerWords.eq_def]
      simp only [token_place, kind_token, text_token, isIdent_token]
      rw [if_neg hbrace]
      refine (if_neg hname).trans ?_
      rw [if_neg hverb]
      exact ih

end Recast

end StackScript
