import StackScript.Proofs.Script.Statement
import StackScript.Script.Outline

/-!
# The Blocks of the Sections

A section is read from its statement, the statement from the body, and the body
from the script. What the section says about its braces is what `untilClose`
finds in the statement. This file carries it back to the script: the block of a
section is a block of the script, and its closing brace is the one that the
count of the braces comes to.

## Main definitions

* `Part.HasBlock`: The section has the block that begins at an opening brace.
* `Part.IsAssignment`: The section is an assignment.
* `Part.IsMarked`: The section has its mark at a place of its statement.

## Theorems

* `partOf_marked`: The words that a section is read from begin with its mark.
* `exists_mark`: A section has its mark in its statement.
* `part?_hasBlock`: The block of a section begins in its statement.
* `exists_scope_outline`: The sections of a script are read from a scope.
* `hasBlock_outline`: The block of a section is a block of the script.
* `closeIndex_outline`: A section knows where its block ends in the script.
-/

namespace StackScript

/-- The section has the block that begins at an opening brace with the
    occurrences `behind` it. -/
structure Part.HasBlock (part : Part) (opening : Occurrence) (behind : List Occurrence) :
    Prop where
  /-- The block begins at an opening brace. -/
  brace : opening.token.kind = .lBrace
  /-- The section knows the opening brace. -/
  openIndex : part.heading.openIndex = some opening.index
  /-- The section knows the closing brace. -/
  closeIndex : part.heading.closeIndex = (untilClose 0 behind).close?.map Occurrence.index
  /-- The section knows whether there is a closing brace. -/
  terminated : part.heading.terminated = (untilClose 0 behind).close?.isSome
  /-- The section holds the inside of the block. -/
  body : part.body = some (untilClose 0 behind).body

/-- What follows the block makes no difference. -/
theorem Part.HasBlock.congr {part : Part} {opening : Occurrence} {r q : List Occurrence}
    (h : part.HasBlock opening r) (hsame : (untilClose 0 r).SameGroup (untilClose 0 q)) :
    part.HasBlock opening q where
  brace := h.brace
  openIndex := h.openIndex
  closeIndex := by rw [h.closeIndex, hsame.close]
  terminated := by rw [h.terminated, hsame.close]
  body := by rw [h.body, hsame.body]

/-- The section is an assignment. It has no braces and no body, and no block is left
    open. -/
structure Part.IsAssignment (part : Part) (sign : Occurrence) : Prop where
  /-- The sign of the assignment. -/
  kind_sign : sign.token.kind = .eq
  openIndex : part.heading.openIndex = none
  closeIndex : part.heading.closeIndex = none
  terminated : part.heading.terminated = true
  body : part.body = none

/-- What makes a statement a section. Behind a name, with at most a label between them,
    stands its mark: the opening brace of a block or the sign of an assignment. -/
structure Part.IsMarked (part : Part) (statement : Statement) (label : List Occurrence)
    (mark : Occurrence) (behind : List Occurrence) : Prop where
  /-- The statement begins with a name. -/
  kind_name : statement.first.token.kind = .ident
  /-- It is the name of the section. -/
  name : part.heading.name = statement.first.token.text
  /-- The section stands where its name does. -/
  position : part.heading.position = statement.first.token.position
  /-- The mark is in the statement. -/
  others : statement.others = label ++ mark :: behind
  /-- In front of the mark is no word but a label. -/
  label : significant label = [] ∨
    ∃ word, significant label = [word] ∧ word.token.kind = .string
  /-- The section has a block or is an assignment. -/
  marked : part.HasBlock mark behind ∨ part.IsAssignment mark

/-- Whatever section there is, the words that it is read from begin with its mark. -/
theorem partOf_marked {name : Token} {label : Option String} {words : List Occurrence}
    {part : Part} (h : partOf name label words = some part) :
    part.heading.name = name.text ∧ part.heading.position = name.position ∧
      ∃ mark behind, words = mark :: behind ∧
        (part.HasBlock mark behind ∨ part.IsAssignment mark) := by
  cases words with
  | nil => cases h
  | cons mark behind =>
      unfold partOf at h
      dsimp only at h
      split at h
      · next hbrace =>
        rw [← Option.some.inj h]
        exact ⟨rfl, rfl, mark, behind, rfl,
          .inl ⟨hbrace, rfl, rfl, Block.isSome_ending _, rfl⟩⟩
      · next hsign =>
        -- A value is assigned to a section without a label only.
        by_cases hlabel : label = none
        · rw [if_pos hlabel] at h
          rw [← Option.some.inj h]
          exact ⟨rfl, rfl, mark, behind, rfl, .inr ⟨hsign, rfl, rfl, rfl, rfl⟩⟩
        · rw [if_neg hlabel] at h
          cases h
      · cases h

/-- A section with braces has its block at its mark. -/
theorem Part.hasBlock_of_marked {part : Part} {mark : Occurrence} {behind : List Occurrence}
    (h : part.HasBlock mark behind ∨ part.IsAssignment mark) (hblock : part.heading.hasBlock) :
    part.HasBlock mark behind := by
  refine h.resolve_right fun hassigned => ?_
  rw [Section.hasBlock, hassigned.openIndex] at hblock
  cases hblock

-- A section by assignment has no block; another begins with its opening
-- brace.
theorem partOf_hasBlock {name : Token} {label : Option String} {words : List Occurrence}
    {part : Part} (h : partOf name label words = some part) (hblock : part.heading.hasBlock) :
    ∃ opening r, words = opening :: r ∧ part.HasBlock opening r := by
  rcases partOf_marked h with ⟨-, -, opening, r, hwords, hmarked⟩
  exact ⟨opening, r, hwords, Part.hasBlock_of_marked hmarked hblock⟩

-- What is skipped in front of a word holds no word.
theorem significant_takeWhile_comments (places : List Occurrence) :
    significant (places.takeWhile fun place => !place.isSignificant) = [] := by
  refine List.filter_eq_nil_iff.mpr fun place hplace => ?_
  simpa using List.all_eq_true.mp List.all_takeWhile place hplace

/-- A section has its mark in its statement. -/
theorem exists_mark {statement : Statement} {part : Part} (h : statement.part? = some part) :
    ∃ label mark behind, part.IsMarked statement label mark behind := by
  let isComment := fun place : Occurrence => !place.isSignificant
  have hsplit := @List.takeWhile_append_dropWhile _ isComment
  unfold Statement.part? at h
  split at h
  · next hident =>
    dsimp only at h
    split at h
    · -- Comments are passed over in front of the label and in front of the mark.
      next place places hwords =>
      split at h
      · next hlabel =>
        rcases partOf_marked h with ⟨hname, hposition, mark, behind, hmark, hmarked⟩
        refine ⟨statement.others.takeWhile isComment ++ place :: places.takeWhile isComment,
          mark, behind, hident, hname, hposition, ?_, .inr ⟨place, ?_, hlabel⟩, hmarked⟩
        · rw [List.append_assoc, List.cons_append, ← hmark, hsplit, ← hwords, hsplit]
        · -- The label is the only word among what is passed over.
          have hword : place.isSignificant := by
            simp [Occurrence.isSignificant, Token.isSignificant, hlabel, TokenKind.isTrivia]
          rw [significant, List.filter_append, List.filter_cons_of_pos hword, ← significant,
            ← significant, significant_takeWhile_comments, significant_takeWhile_comments,
            List.nil_append]
      · rcases partOf_marked h with ⟨hname, hposition, mark, behind, hmark, hmarked⟩
        refine ⟨statement.others.takeWhile isComment, mark, behind, hident, hname, hposition,
          ?_, .inl (significant_takeWhile_comments _), hmarked⟩
        rw [← hmark, ← hwords, hsplit]
    · cases h
  · cases h

/-- A label is no brace. -/
theorem Part.IsMarked.kind_ne_of_mem_label {part : Part} {statement : Statement}
    {label behind : List Occurrence} {mark : Occurrence}
    (h : part.IsMarked statement label mark behind) :
    ∀ place ∈ label, place.token.kind ≠ .lBrace := by
  intro place hplace hkind
  have hword : place ∈ significant label := by
    refine List.mem_filter.mpr ⟨hplace, ?_⟩
    rw [Occurrence.isSignificant, Token.isSignificant, hkind]
    rfl
  -- There is no word in front of the mark, or one string.
  rcases h.label with hnil | ⟨word, hsingle, hstring⟩
  · rw [hnil] at hword
    cases hword
  · rw [hsingle, List.mem_singleton] at hword
    rw [← hword, hkind] at hstring
    cases hstring

/-- The block of a section begins in its statement, behind a name, and no other
    block begins in front of it. -/
theorem part?_hasBlock {statement : Statement} {part : Part}
    (h : statement.part? = some part) (hblock : part.heading.hasBlock) :
    statement.first.token.kind = .ident ∧ ∃ m opening r, statement.others = m ++ opening :: r ∧
      (∀ place ∈ m, place.token.kind ≠ .lBrace) ∧ part.HasBlock opening r := by
  rcases exists_mark h with ⟨label, mark, behind, hmarked⟩
  exact ⟨hmarked.kind_name, label, mark, behind, hmarked.others,
    hmarked.kind_ne_of_mem_label, Part.hasBlock_of_marked hmarked.marked hblock⟩

/-- The sections of a script are read from a scope. -/
theorem exists_scope_outline (tokens : List Token) (keyword : Option Nat) :
    ∃ body, body.Sublist (occurrences tokens) ∧ IsScope tokens body ∧
      (outline tokens keyword).parts = partsOf body := by
  unfold outline
  dsimp only
  split
  · exact ⟨occurrences tokens, List.Sublist.refl _, isScope_occurrences tokens, rfl⟩
  · next place _ =>
    split
    · refine ⟨[], List.nil_sublist _, ?_, ?_⟩
      · intro l opening r hnil
        exact absurd hnil.symm (List.append_ne_nil_of_right_ne_nil l (List.cons_ne_nil _ _))
      · rw [partsOf, statements, statementsAfter]
        rfl
    · next opening _ =>
      -- The body is the inside of a block of the script.
      have hdrop : occurrences tokens = (occurrences tokens).take (opening.index + 1) ++
          (occurrences tokens).drop (opening.index + 1) := (List.take_append_drop _ _).symm
      exact ⟨_, (untilClose_body_front 0 _).sublist.trans (List.drop_sublist _ _),
        isScope_untilClose hdrop 0, rfl⟩

/-- The block of a section is a block of the script. -/
theorem hasBlock_outline {tokens : List Token} {keyword : Option Nat} {part : Part}
    (h : part ∈ (outline tokens keyword).parts) (hblock : part.heading.hasBlock) :
    ∃ l opening q, occurrences tokens = l ++ opening :: q ∧ part.HasBlock opening q := by
  rcases exists_scope_outline tokens keyword with ⟨body, -, hscope, hparts⟩
  rw [hparts] at h
  rcases List.mem_filterMap.mp h with ⟨statement, hmem, hpart⟩
  rcases statementsAfter_mem hmem with ⟨l, q, hbody, hothers⟩
  rcases part?_hasBlock hpart hblock with ⟨hident, m, opening, r, hsplit, hm, hhas⟩
  rw [hsplit] at hothers
  have hdepth : (Extent.ofFirst statement.first.token).depth = 0 :=
    Extent.take_depth_zero rfl (by rw [hident]; exact TokenKind.noConfusion)
  -- The statement has the block as a whole, and so does the body, and so does the script.
  rcases restOfStatement_opening hdepth hothers.symm hm hhas.brace with ⟨q, rfl, hsame⟩
  rcases hscope (l ++ statement.first :: m) opening q (by rw [hbody, List.append_assoc]; rfl)
    hhas.brace with ⟨l', q', hscript, hsame'⟩
  exact ⟨l', opening, q', hscript, hhas.congr (hsame.trans hsame')⟩

/-- A section has tokens inside its braces exactly if it has braces. -/
theorem body_outline {tokens : List Token} {keyword : Option Nat} {part : Part}
    (h : part ∈ (outline tokens keyword).parts) : part.heading.hasBlock = part.body.isSome := by
  rcases exists_scope_outline tokens keyword with ⟨body, -, -, hparts⟩
  rw [hparts] at h
  rcases List.mem_filterMap.mp h with ⟨statement, -, hpart⟩
  rcases exists_mark hpart with ⟨label, mark, behind, hmarked⟩
  rcases hmarked.marked with hhas | hassigned
  · rw [Section.hasBlock, hhas.openIndex, hhas.body]
    rfl
  · rw [Section.hasBlock, hassigned.openIndex, hassigned.body]
    rfl

/-- A section knows where its block ends in the script. -/
theorem closeIndex_outline {tokens : List Token} {keyword : Option Nat} {heading : Section}
    {start : Nat} (h : heading ∈ (outline tokens keyword).sections)
    (hopen : heading.openIndex = some start) :
    kindAt tokens start = some .lBrace ∧ heading.closeIndex = blockEnd tokens start ∧
      heading.terminated = (blockEnd tokens start).isSome := by
  rcases List.mem_map.mp h with ⟨part, hpart, rfl⟩
  have hblock : part.heading.hasBlock := by rw [Section.hasBlock, hopen]; rfl
  rcases hasBlock_outline hpart hblock with ⟨l, opening, q, hscript, hhas⟩
  have hstart : opening.index = start := Option.some.inj (hhas.openIndex ▸ hopen)
  rcases closeIndex_eq_blockEnd hscript hhas.brace with ⟨hkind, hclose⟩
  rw [hstart] at hkind hclose
  refine ⟨hkind, by rw [hhas.closeIndex, hclose], ?_⟩
  rw [hhas.terminated, ← hclose, Option.isSome_map]

end StackScript
