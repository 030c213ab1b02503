import StackScript.Proofs.Script.Outline

/-!
# Statements of a Body

What is known of the statements of a section because the section is a part of
the outline, and not just any list of tokens.

The body of a block has no closing brace on its own level, since the first one
would have ended it. This is `(untilClose 0 body).ending = none`, a property
that passing a whole statement does not lose, because a statement takes a block
as a whole or not at all. So no statement of a body begins with a closing
brace. That the block may be left open makes no difference.

The outline takes the bodies of the sections out of the statements of the
script, so that in all of them together no token comes twice.

## Main definitions

* `Part.places`: The tokens inside the braces of a section.
* `Section.inside`: The same by the indices of the section.

## Theorems

* `ending_untilClose_body`: A body has no closing brace on its level.
* `first_kind_of_ending`: None of its statements begins with one.
* `places_sublist_outline`: The bodies of a script, one after the other.
* `firsts_sublist`: The first tokens of statements.
* `places_eq_inside`: A section knows its body by its indices.
-/

namespace StackScript

/-! ## Closing braces -/

/-- The inside of a block has no closing brace on its own level. -/
theorem ending_untilClose_body (depth : Nat) (places : List Occurrence) :
    (untilClose depth (untilClose depth places).body).ending = none := by
  induction places generalizing depth with
  | nil => rfl
  | cons place places ih =>
      by_cases hl : place.token.kind = .lBrace
      · rw [untilClose_lBrace _ _ hl, Block.cons, untilClose_lBrace _ _ hl]
        exact ih _
      by_cases hr : place.token.kind = .rBrace
      · cases depth with
        -- The body ends in front of this brace.
        | zero =>
            rw [untilClose_rBrace_zero _ hr]
            rfl
        | succ depth =>
            rw [untilClose_rBrace _ _ hr, Block.cons, untilClose_rBrace _ _ hr]
            exact ih _
      · rw [untilClose_of_ne _ _ hl hr, Block.cons, untilClose_of_ne _ _ hl hr]
        exact ih _

/-- A statement that passes a token has as many blocks open as a reader of blocks. -/
theorem ending_take {extent : Extent} {place : Occurrence} {places : List Occurrence}
    (h : (untilClose extent.depth (place :: places)).ending = none) :
    (untilClose (extent.take place.token).depth places).ending = none := by
  by_cases hl : place.token.kind = .lBrace
  · rw [untilClose_lBrace _ _ hl] at h
    rwa [Extent.take_lBrace _ hl]
  -- The level of the block is the depth of the statement, which a token changes alike.
  cases hdepth : extent.depth with
  | zero =>
      by_cases hr : place.token.kind = .rBrace
      · rw [hdepth, untilClose_rBrace_zero _ hr] at h
        cases h
      · rw [hdepth, untilClose_of_ne _ _ hl hr] at h
        rwa [Extent.take_depth_zero hdepth hl]
  | succ depth =>
      by_cases hr : place.token.kind = .rBrace
      · rw [hdepth, untilClose_rBrace _ _ hr] at h
        rwa [Extent.take_rBrace hdepth hr]
      · rw [untilClose_of_ne _ _ hl hr] at h
        rwa [Extent.take_deep hdepth hl hr]

/-- What a statement leaves has no closing brace on its level if what it was offered has
    none. -/
theorem ending_restOfStatement {extent : Extent} {places : List Occurrence}
    (h : (untilClose extent.depth places).ending = none) :
    (untilClose 0 (restOfStatement extent places).2).ending = none := by
  fun_induction restOfStatement extent places with
  | case1 => rfl
  | case2 extent place places hbefore =>
      -- A statement ends on its own level only, whatever it is that ends it.
      have hdepth : extent.depth = 0 := by
        simp only [Extent.endsBefore, Extent.isLevel, Bool.or_eq_true, Bool.and_eq_true,
          decide_eq_true_iff] at hbefore
        rcases hbefore with hline | hbrace
        · exact hline.1.1
        · exact hbrace.1
      rwa [hdepth] at h
  | case3 extent place places hbefore hwith =>
      simp only [Extent.endsWith, Extent.isLevel, Bool.and_eq_true,
        decide_eq_true_iff] at hwith
      have hl : place.token.kind ≠ .lBrace := by
        rw [hwith.2]
        exact TokenKind.noConfusion
      have hr : place.token.kind ≠ .rBrace := by
        rw [hwith.2]
        exact TokenKind.noConfusion
      rw [hwith.1.1, untilClose_of_ne _ _ hl hr] at h
      exact h
  | case4 extent place places hbefore hwith others ih =>
      exact ih (ending_take h)

/-- Where no closing brace stands on the level of the statements, none of them
    begins with one. -/
theorem first_kind_of_ending {comments places : List Occurrence}
    (h : (untilClose 0 places).ending = none) :
    ∀ statement ∈ statementsAfter comments places, statement.first.token.kind ≠ .rBrace := by
  fun_induction statementsAfter comments places with
  | case1 => exact fun statement hmem => by cases hmem
  | case2 comments place rest hcomment ih =>
      have hkind := kind_eq_comment (by simpa using hcomment)
      rw [untilClose_of_ne _ _ (by rw [hkind]; exact TokenKind.noConfusion)
        (by rw [hkind]; exact TokenKind.noConfusion)] at h
      exact ih h
  | case3 comments place rest hcomment hsemicolon ih =>
      rw [untilClose_of_ne _ _ (by rw [hsemicolon]; exact TokenKind.noConfusion)
        (by rw [hsemicolon]; exact TokenKind.noConfusion)] at h
      exact ih h
  | case4 comments place rest hcomment hsemicolon others ih =>
      -- A closing brace on this level would end the block, and there is none.
      have hfirst : place.token.kind ≠ .rBrace := by
        intro hr
        rw [untilClose_rBrace_zero _ hr] at h
        cases h
      have htaken : (untilClose (Extent.ofFirst place.token).depth rest).ending = none :=
        @ending_take ⟨place.token.position.line, 0, 0⟩ _ _ h
      intro statement hmem
      rcases List.mem_cons.mp hmem with rfl | hmem
      · exact hfirst
      · exact ih (ending_restOfStatement htaken) statement hmem

/-! ## The order of the script -/

/-- The tokens inside the braces of a section; a section by assignment has
    none. -/
def Part.places (part : Part) : List Occurrence :=
  part.body.getD []

/-- Statements share no tokens and keep the order of the list. -/
theorem statementsAfter_places_sublist (comments places : List Occurrence) :
    ((statementsAfter comments places).flatMap Statement.places).Sublist places := by
  fun_induction statementsAfter comments places with
  | case1 => exact List.Sublist.refl _
  | case2 comments place rest hcomment ih => exact ih.cons _
  | case3 comments place rest hcomment hsemicolon ih => exact ih.cons _
  | case4 comments place rest hcomment hsemicolon others ih =>
      rw [List.flatMap_cons, Statement.places, List.cons_append,
        ← restOfStatement_append (Extent.ofFirst place.token) rest]
      exact ((List.Sublist.refl _).append ih).cons_cons place

/-- Each statement begins with a place of its own. -/
theorem firsts_sublist (places : List Occurrence) :
    ((statements places).map Statement.first).Sublist places := by
  refine List.Sublist.trans ?_ (statementsAfter_places_sublist [] places)
  rw [← statements]
  induction statements places with
  | nil => exact List.Sublist.refl _
  | cons statement among ih =>
      rw [List.map_cons, List.flatMap_cons, Statement.places, List.cons_append]
      exact (ih.trans (List.sublist_append_right _ _)).cons_cons _

/-- The body of a section is taken out of the words behind its mark. -/
theorem places_sublist_of_marked {part : Part} {mark : Occurrence} {behind : List Occurrence}
    (h : part.HasBlock mark behind ∨ part.IsAssignment mark) : part.places.Sublist behind := by
  rcases h with hhas | hassigned
  · rw [Part.places, hhas.body]
    exact (untilClose_body_front 0 behind).sublist
  · rw [Part.places, hassigned.body]
    exact List.nil_sublist _

/-- A section begins with its name, and its body is taken out of its
    statement. -/
theorem part?_source {statement : Statement} {part : Part} (h : statement.part? = some part) :
    part.heading.position = statement.first.token.position ∧
      part.places.Sublist statement.places := by
  rcases exists_mark h with ⟨label, mark, behind, hmarked⟩
  refine ⟨hmarked.position, (places_sublist_of_marked hmarked.marked).trans ?_⟩
  rw [Statement.places, hmarked.others]
  exact ((List.sublist_cons_self mark behind).trans
    (List.sublist_append_right label _)).cons statement.first

/-- The inside of a section is a part of its statement, and statements lie apart. -/
theorem partsOf_places_sublist (body : List Occurrence) :
    ((partsOf body).flatMap Part.places).Sublist body := by
  refine List.Sublist.trans ?_ (statementsAfter_places_sublist [] body)
  rw [partsOf, ← statements]
  induction statements body with
  | nil => exact List.Sublist.refl _
  | cons statement among ih =>
      rw [List.filterMap_cons, List.flatMap_cons]
      cases hpart : statement.part? with
      | none => exact ih.trans (List.sublist_append_right _ _)
      | some part =>
          rw [List.flatMap_cons]
          exact (part?_source hpart).2.append ih

/-- The bodies of the sections, one after the other, are taken out of the
    script. -/
theorem places_sublist_outline (tokens : List Token) (keyword : Option Nat) :
    ((outline tokens keyword).parts.flatMap Part.places).Sublist (occurrences tokens) := by
  rcases exists_scope_outline tokens keyword with ⟨body, hsub, -, hparts⟩
  rw [hparts]
  exact (partsOf_places_sublist body).trans hsub

/-- A section stands at a token of the script. -/
theorem exists_place_of_heading {tokens : List Token} {keyword : Option Nat} {part : Part}
    (h : part ∈ (outline tokens keyword).parts) :
    ∃ place ∈ occurrences tokens, part.heading.position = place.token.position := by
  rcases exists_scope_outline tokens keyword with ⟨body, hsub, -, hparts⟩
  rw [hparts] at h
  rcases List.mem_filterMap.mp h with ⟨statement, hmem, hpart⟩
  have hfirst : statement.first ∈ (statements body).map Statement.first :=
    List.mem_map_of_mem hmem
  exact ⟨statement.first, hsub.subset ((firsts_sublist body).subset hfirst),
    (part?_source hpart).1⟩

/-! ## Bodies by index -/

/-- The tokens inside the braces of a section of the script. -/
def Section.inside (heading : Section) (tokens : List Token) : List Occurrence :=
  match heading.bodyRange tokens.length with
  | none => []
  | some (start, stop) => ((occurrences tokens).take stop).drop start

/-- A block and its end make up all that there is. -/
theorem untilClose_append (depth : Nat) (places : List Occurrence) :
    places = (untilClose depth places).body ++
      match (untilClose depth places).ending with
      | none => []
      | some (close, rest) => close :: rest := by
  induction places generalizing depth with
  | nil => rfl
  | cons place places ih =>
      by_cases hl : place.token.kind = .lBrace
      · rw [untilClose_lBrace _ _ hl]
        exact congrArg (place :: ·) (ih _)
      by_cases hr : place.token.kind = .rBrace
      · cases depth with
        | zero => rw [untilClose_rBrace_zero _ hr]; rfl
        | succ depth =>
            rw [untilClose_rBrace _ _ hr]
            exact congrArg (place :: ·) (ih _)
      · rw [untilClose_of_ne _ _ hl hr]
        exact congrArg (place :: ·) (ih _)

theorem length_occurrences (tokens : List Token) :
    (occurrences tokens).length = tokens.length := by
  rw [← List.length_map (f := Occurrence.token), occurrences, occurrencesAfter_map_token]

/-- The body of a section is what lies between the indices that the section
    gives. -/
theorem places_eq_inside {tokens : List Token} {keyword : Option Nat} {part : Part}
    (h : part ∈ (outline tokens keyword).parts) : part.places = part.heading.inside tokens := by
  by_cases hblock : part.heading.hasBlock
  · rcases hasBlock_outline h hblock with ⟨l, opening, q, hscript, hhas⟩
    have hopening := index_occurrencesAfter hscript
    have hall := untilClose_append 0 q
    have hlength := length_occurrences tokens
    rw [List.length_nil, Nat.zero_add] at hopening
    unfold Part.places Section.inside Section.bodyRange
    rw [hhas.body, hhas.openIndex, hhas.closeIndex]
    simp only [Option.getD_some, Option.map_some, hopening]
    cases hending : (untilClose 0 q).ending with
    -- Without an end the block reaches to the end of the script.
    | none =>
        rw [hending, List.append_nil] at hall
        rw [Block.close?, hending, Option.map_none, Option.map_none, Option.getD_none, ← hlength,
          List.take_length, hscript, ← hall, ← List.drop_drop, List.drop_left,
          List.drop_succ_cons, List.drop_zero]
    | some ending =>
        rcases ending with ⟨close, rest⟩
        rw [hending] at hall
        dsimp only at hall
        -- The closing brace parts the inside from the rest.
        have hsplit : occurrences tokens =
            (l ++ opening :: (untilClose 0 q).body) ++ close :: rest := by
          rw [hscript, List.append_assoc, List.cons_append, ← hall]
        have hclose := index_occurrencesAfter hsplit
        rw [List.length_nil, Nat.zero_add] at hclose
        rw [Block.close?, hending, Option.map_some, Option.map_some, Option.getD_some, hclose,
          hsplit, List.take_left, ← List.drop_drop, List.drop_left, List.drop_succ_cons,
          List.drop_zero]
  · -- A section without a block has nothing inside.
    have hnone : part.body = none := by
      rw [body_outline h] at hblock
      simpa using hblock
    have hopen : part.heading.openIndex = none := by simpa [Section.hasBlock] using hblock
    unfold Part.places Section.inside Section.bodyRange
    rw [hnone, hopen]
    rfl

end StackScript
