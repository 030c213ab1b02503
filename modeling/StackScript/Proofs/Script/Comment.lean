import StackScript.Proofs.Script.Outline
import StackScript.Proofs.Script.Recast
import StackScript.Proofs.Token.Comment

/-!
# Scripts without Their Comments

Comments are occurrences like all others, so every reader has to step over them
on its own. This file goes through the readers and shows that each finds in the
significant occurrences what it finds among all of them.

Only one reader could be misled. A statement ends with its line, and a comment
in it sets the line that the statement has reached. What saves it is that a
comment is the last on its line: whatever follows is further down, with the
comment and without it. `Extent.Agrees` is the invariant of the two readings,
one with and one without comments; `LineOrdered` is what it needs to know of
the script.

The outline is then put in terms of the words alone, `outlineOfWords`. Two
scripts with the same words have the same outline, up to indices.

## Main definitions

* `LineOrdered`: The occurrences may stand behind one another in this order.
* `Block.plain`, `Statement.plain`, `Part.plain`: What is left without comments.
* `Extent.Agrees`: Two extents that end before the same words.
* `outlineOfWords`: The header and the sections of a script by its words.

## Theorems

* `restOfStatement_significant`: A statement takes the same words.
* `partsOf_significant`: A body has the same sections.
* `outline_words`: The outline of a script is the outline of its words.
-/

namespace StackScript

open TokenShift

/-- The occurrences may stand behind one another in this order. -/
def LineOrdered (places : List Occurrence) : Prop :=
  places.Pairwise fun a b => a.token.CanPrecede b.token

/-- The places of a text are in the order of its tokens. -/
theorem lineOrdered_occurrences (text : String) : LineOrdered (occurrences (tokenize text)) := by
  have hlines := tokenizeAt_lines Place.start text.toList
  have htokens : (occurrences (tokenize text)).map Occurrence.token = tokenize text :=
    occurrencesAfter_map_token _ _
  change (tokenize text).Pairwise Token.CanPrecede at hlines
  rw [← htokens] at hlines
  exact List.pairwise_map.mp hlines

theorem LineOrdered.sublist {places part : List Occurrence} (h : LineOrdered places)
    (hpart : part.Sublist places) : LineOrdered part :=
  List.Pairwise.sublist hpart h

/-! ## Words -/

theorem significant_cons_of_pos {place : Occurrence} (h : place.isSignificant)
    (places : List Occurrence) : significant (place :: places) = place :: significant places :=
  List.filter_cons_of_pos h

theorem significant_cons_of_neg {place : Occurrence} (h : ¬ place.isSignificant)
    (places : List Occurrence) : significant (place :: places) = significant places :=
  List.filter_cons_of_neg h

/-- The words of some occurrences are those of their tokens. -/
theorem map_token_significant (places : List Occurrence) :
    (significant places).map Occurrence.token =
      (places.map Occurrence.token).filter Token.isSignificant := by
  rw [List.filter_map]
  rfl

/-- The words of a script are those of its tokens. -/
theorem map_token_words (tokens : List Token) :
    (significant (occurrences tokens)).map Occurrence.token =
      tokens.filter Token.isSignificant := by
  rw [map_token_significant, occurrences, occurrencesAfter_map_token]

theorem significant_significant (places : List Occurrence) :
    significant (significant places) = significant places := by
  rw [significant, significant, List.filter_filter]
  simp only [Bool.and_self]

/-- Behind the comments at the front stands the first word. -/
theorem skipComments_cases (places : List Occurrence) :
    (places.dropWhile (fun place => !place.isSignificant) = [] ∧ significant places = []) ∨
      ∃ word rest, places.dropWhile (fun place => !place.isSignificant) = word :: rest ∧
        word.isSignificant ∧ significant places = word :: significant rest := by
  induction places with
  | nil => exact Or.inl ⟨rfl, rfl⟩
  | cons place places ih =>
      by_cases h : place.isSignificant
      · refine Or.inr ⟨place, places, ?_, h, significant_cons_of_pos h places⟩
        rw [List.dropWhile_cons_of_neg (by simp [h])]
      · rw [List.dropWhile_cons_of_pos (by simp [h]), significant_cons_of_neg h]
        exact ih

/-- There are no comments to be skipped. -/
theorem skipComments_significant (places : List Occurrence) :
    (significant places).dropWhile (fun place => !place.isSignificant) = significant places := by
  rcases skipComments_cases places with ⟨-, hwords⟩ | ⟨word, rest, -, hword, hwords⟩
  · rw [hwords]
    rfl
  · rw [hwords, List.dropWhile_cons_of_neg (by simp [hword])]

/-! ## Blocks -/

/-- The block without its comments. -/
def Block.plain (block : Block) : Block :=
  ⟨significant block.body, block.ending.map fun ending => (ending.1, significant ending.2)⟩

/-- Comments do not open or close anything, so a block of words is the block without its
    comments. -/
theorem untilClose_significant (depth : Nat) (places : List Occurrence) :
    untilClose depth (significant places) = (untilClose depth places).plain := by
  induction places generalizing depth with
  | nil => rfl
  | cons place places ih =>
      by_cases h : place.isSignificant
      · have hcons : ∀ block : Block, (block.cons place).plain = block.plain.cons place := by
          intro block
          simp only [Block.plain, Block.cons, significant_cons_of_pos h]
        rw [significant_cons_of_pos h]
        by_cases hl : place.token.kind = .lBrace
        · rw [untilClose_lBrace _ _ hl, untilClose_lBrace _ _ hl, ih, hcons]
        by_cases hr : place.token.kind = .rBrace
        · cases depth with
          | zero =>
              rw [untilClose_rBrace_zero _ hr, untilClose_rBrace_zero _ hr]
              rfl
          | succ depth => rw [untilClose_rBrace _ _ hr, untilClose_rBrace _ _ hr, ih, hcons]
        · rw [untilClose_of_ne _ _ hl hr, untilClose_of_ne _ _ hl hr, ih, hcons]
      · -- A comment is a part of the block and is left out of it.
        have hkind := kind_eq_comment h
        have hl : place.token.kind ≠ .lBrace := by rw [hkind]; exact TokenKind.noConfusion
        have hr : place.token.kind ≠ .rBrace := by rw [hkind]; exact TokenKind.noConfusion
        rw [significant_cons_of_neg h, untilClose_of_ne _ _ hl hr, ih]
        simp only [Block.plain, Block.cons, significant_cons_of_neg h]

/-! ## Statements -/

namespace Extent

/-- A statement on the level of its block has reached the line of the token that it has
    taken last. -/
theorem take_line {extent : Extent} {token : Token} (h : (extent.take token).isLevel) :
    (extent.take token).line = token.position.line := by
  rcases extent with ⟨line, nesting, _ | depth⟩
  · unfold take
    dsimp only
    split <;> first | rfl | contradiction
  · by_cases hr : token.kind = .rBrace
    · unfold take
      rw [hr]
    · -- A block that is open stays open, and the statement is not on its level.
      have hdeep : (take ⟨line, nesting, depth + 1⟩ token).depth ≠ 0 := by
        by_cases hl : token.kind = .lBrace
        · rw [take_lBrace _ hl]
          exact Nat.succ_ne_zero _
        · rw [take_deep rfl hl hr]
          exact Nat.succ_ne_zero _
      rw [isLevel, decide_eq_false hdeep] at h
      cases h

/-- How deep a statement is depends on how deep it was, and not on lines. -/
theorem take_congr {extent other : Extent} (token : Token) (hdepth : extent.depth = other.depth)
    (hnesting : extent.nesting = other.nesting) :
    (extent.take token).depth = (other.take token).depth ∧
      (extent.take token).nesting = (other.take token).nesting := by
  unfold take
  rw [hdepth, hnesting]
  dsimp only
  split <;> simp_all

/-- The two extents end before the same tokens among the places. -/
structure Agrees (extent other : Extent) (places : List Occurrence) : Prop where
  depth : extent.depth = other.depth
  nesting : extent.nesting = other.nesting
  line : extent.isLevel → ∀ place ∈ places, extent.line ≤ place.token.position.line ∧
    (extent.line < place.token.position.line ↔ other.line < place.token.position.line)

namespace Agrees

variable {extent other : Extent} {place : Occurrence} {places : List Occurrence}

theorem isLevel (h : Agrees extent other places) : extent.isLevel = other.isLevel := by
  rw [Extent.isLevel, Extent.isLevel, h.depth, h.nesting]

/-- At a place that is left to be read both have ended or neither has. -/
theorem endsBefore (h : Agrees extent other places) (hmem : place ∈ places) :
    extent.endsBefore place.token = other.endsBefore place.token := by
  have hlevel := h.isLevel
  unfold Extent.endsBefore
  rw [← hlevel, h.depth]
  cases hl : extent.isLevel with
  | false => rfl
  | true => rw [decide_eq_decide.mpr (h.line hl place hmem).2]

theorem endsWith (h : Agrees extent other places) (token : Token) :
    extent.endsWith token = other.endsWith token := by
  rw [Extent.endsWith, Extent.endsWith, h.isLevel]

/-- A statement agrees with itself. -/
theorem ofFirst (hordered : LineOrdered (place :: places)) :
    Agrees (Extent.ofFirst place.token) (Extent.ofFirst place.token) places where
  depth := rfl
  nesting := rfl
  line hlevel other hmem := by
    refine ⟨?_, Iff.rfl⟩
    rw [Extent.ofFirst, take_line hlevel]
    exact (List.rel_of_pairwise_cons hordered hmem).1

/-- Both statements take a word. -/
theorem take (h : Agrees extent other (place :: places))
    (hordered : LineOrdered (place :: places)) :
    Agrees (extent.take place.token) (other.take place.token) places := by
  rcases take_congr place.token h.depth h.nesting with ⟨hdepth, hnesting⟩
  refine ⟨hdepth, hnesting, fun hlevel behind hmem => ?_⟩
  have hlevel' : (other.take place.token).isLevel := by
    rwa [Extent.isLevel, ← hdepth, ← hnesting]
  rw [take_line hlevel, take_line hlevel']
  exact ⟨(List.rel_of_pairwise_cons hordered hmem).1, Iff.rfl⟩

/-- One statement takes a comment and the other does not see it. Whatever follows the
    comment is on another line for both. -/
theorem skip (h : Agrees extent other (place :: places))
    (hordered : LineOrdered (place :: places)) (hcomment : place.token.kind = .comment) :
    Agrees (extent.take place.token) other places := by
  -- A comment changes no more than the line of the statement.
  have hsame : (extent.take place.token).depth = extent.depth ∧
      (extent.take place.token).nesting = extent.nesting := by
    rcases extent with ⟨line, nesting, _ | depth⟩
    · unfold Extent.take
      rw [hcomment]
      exact ⟨rfl, rfl⟩
    · unfold Extent.take
      rw [hcomment]
      exact ⟨rfl, rfl⟩
  refine ⟨hsame.1.trans h.depth, hsame.2.trans h.nesting, fun hlevel behind hmem => ?_⟩
  have hlevel' : extent.isLevel := by
    rwa [Extent.isLevel, ← hsame.1, ← hsame.2]
  -- What follows the comment is below it, so it is below the line of the statement with and
  -- without the comment.
  have hbelow := (List.rel_of_pairwise_cons hordered hmem).2 hcomment
  have hreached := (h.line hlevel' place List.mem_cons_self).1
  have hends := (h.line hlevel' behind (List.mem_cons_of_mem _ hmem)).2
  rw [take_line hlevel]
  omega

/-- A statement that ends in front of a comment ends in front of the next word as well: what is
    behind the comment is further down than the statement reaches. -/
theorem endsBefore_behind {places : List Occurrence} {place next : Occurrence}
    (h : extent.Agrees other (place :: places)) (hordered : LineOrdered (place :: places))
    (hcomment : place.token.kind = .comment) (hends : extent.endsBefore place.token)
    (hmem : next ∈ places) : other.endsBefore next.token := by
  have hlevel : extent.isLevel ∧ extent.line < place.token.position.line := by
    simpa [Extent.endsBefore, hcomment] using hends
  have hline := (List.rel_of_pairwise_cons hordered hmem).1
  have hbelow := (h.line hlevel.1 next (List.mem_cons_of_mem _ hmem)).2
  rw [Extent.endsBefore, ← h.isLevel, hlevel.1, decide_eq_true (hbelow.mp (by omega))]
  rfl

end Agrees

end Extent

/-- A statement takes the same words, whether it sees the comments or not. -/
theorem restOfStatement_significant {extent other : Extent} {places : List Occurrence}
    (hordered : LineOrdered places) (h : extent.Agrees other places) :
    restOfStatement other (significant places) =
      (significant (restOfStatement extent places).1,
        significant (restOfStatement extent places).2) := by
  induction places generalizing extent other with
  | nil => rfl
  | cons place places ih =>
      have hbehind : LineOrdered places := List.Pairwise.of_cons hordered
      -- Both readers take a word or end at it.
      by_cases hword : place.isSignificant
      · rw [significant_cons_of_pos hword, restOfStatement, restOfStatement,
          h.endsBefore List.mem_cons_self, h.endsWith, ih hbehind (h.take hordered)]
        split
        · rw [← significant_cons_of_pos hword]
          rfl
        · split
          · rw [significant_cons_of_pos hword]
            rfl
          · dsimp only
            rw [significant_cons_of_pos hword]
      -- A comment is seen by one of them only, and may be what ends the statement there.
      · have hcomment := kind_eq_comment hword
        have hwith : extent.endsWith place.token = false :=
          extent.endsWith_of_ne (by rw [hcomment]; exact TokenKind.noConfusion)
        rw [significant_cons_of_neg hword, restOfStatement, hwith]
        by_cases hbefore : extent.endsBefore place.token
        · rw [if_pos hbefore]
          change _ = ([], significant (place :: places))
          rw [significant_cons_of_neg hword]
          cases hwords : significant places with
          | nil => rfl
          | cons next rest =>
              have hnext : next ∈ significant places := hwords ▸ List.mem_cons_self
              have hmem := (List.mem_filter.mp hnext).1
              rw [restOfStatement, if_pos (h.endsBefore_behind hordered hcomment hbefore hmem)]
        · rw [if_neg hbefore, if_neg Bool.false_ne_true, ih hbehind (h.skip hordered hcomment)]
          dsimp only
          rw [significant_cons_of_neg hword]

/-- The statement without its comments. -/
def Statement.plain (statement : Statement) : Statement :=
  ⟨[], statement.first, StackScript.significant statement.others⟩

/-- The statements of the words are those of the script, without their comments. -/
theorem statementsAfter_significant {places : List Occurrence} (hordered : LineOrdered places)
    (comments : List Occurrence) :
    statementsAfter [] (significant places) =
      (statementsAfter comments places).map Statement.plain := by
  fun_induction statementsAfter comments places with
  | case1 => rw [significant, List.filter_nil, statementsAfter, List.map_nil]
  | case2 comments place rest hcomment ih =>
      have hword : ¬ place.isSignificant := by simpa using hcomment
      rw [significant_cons_of_neg hword]
      exact ih (List.Pairwise.of_cons hordered)
  | case3 comments place rest hcomment hsemicolon ih =>
      have hword : place.isSignificant := by simpa using hcomment
      rw [significant_cons_of_pos hword, statementsAfter, if_neg hcomment, if_pos hsemicolon]
      exact ih (List.Pairwise.of_cons hordered)
  | case4 comments place rest hcomment hsemicolon others ih =>
      have hword : place.isSignificant := by simpa using hcomment
      have hbehind : LineOrdered rest := List.Pairwise.of_cons hordered
      -- What a statement leaves is in order still.
      have hleft : LineOrdered others.2 := by
        refine hbehind.sublist ?_
        rw [← restOfStatement_append (Extent.ofFirst place.token) rest]
        exact List.sublist_append_right _ _
      rw [significant_cons_of_pos hword, statementsAfter, if_neg hcomment, if_neg hsemicolon,
        restOfStatement_significant hbehind (Extent.Agrees.ofFirst hordered), List.map_cons,
        ← ih hleft]
      rfl

/-! ## Sections -/

/-- The section without the comments in its block. -/
def Part.plain (part : Part) : Part :=
  { part with body := part.body.map significant }

/-- Whether words make a section does not depend on the comments between them. -/
theorem partOf_significant (name : Token) (label : Option String) (words : List Occurrence) :
    partOf name label (significant words) =
      (partOf name label (words.dropWhile fun place => !place.isSignificant)).map Part.plain := by
  rcases skipComments_cases words with ⟨hdrop, hwords⟩ | ⟨word, rest, hdrop, -, hwords⟩
  · rw [hdrop, hwords]
    rfl
  · rw [hdrop, hwords]
    unfold partOf
    simp only [untilClose_significant]
    split
    · simp only [Block.plain, Block.close?, Option.map_map, Option.isSome_map]
      rfl
    · split <;> rfl
    · rfl

theorem part?_plain (statement : Statement) :
    statement.plain.part? = statement.part?.map Part.plain := by
  unfold Statement.part? Statement.plain
  dsimp only
  rw [skipComments_significant]
  split
  · have hrest := partOf_significant statement.first.token none statement.others
    rcases skipComments_cases statement.others with
      ⟨hdrop, hwords⟩ | ⟨word, rest, hdrop, -, hwords⟩
    · rw [hdrop, hwords]
      rfl
    · rw [hdrop, hwords] at hrest ⊢
      dsimp only
      rw [skipComments_significant]
      split
      · exact partOf_significant _ _ rest
      · exact hrest
  · rfl

/-- The sections of the words are those of the script, with the words of their bodies. -/
theorem partsOf_significant {body : List Occurrence} (h : LineOrdered body) :
    partsOf (significant body) = (partsOf body).map Part.plain := by
  unfold partsOf statements
  rw [statementsAfter_significant h [], List.filterMap_map, List.map_filterMap]
  congr 1
  funext statement
  exact part?_plain statement

/-! ## Outlines -/

/-- The header and the sections of a script by its words, which are no
    comments. -/
def outlineOfWords (words : List Occurrence) : Option Header × List Part :=
  match words with
  | [] => (none, [])
  | first :: rest =>
      if first.token.declares?.isSome then
        let declared : Header := ⟨first.token.text, none, none, first.token.position⟩
        let read := headerWords declared rest
        (some read.1,
          match read.2 with
          | [] => []
          | _ :: behind => partsOf (untilClose 0 behind).body)
      else
        (none, partsOf (first :: rest))

/-- Where a token stands in a script, the script can be cut by its index. -/
theorem drop_index {tokens : List Token} {l r : List Occurrence} {place : Occurrence}
    (h : occurrences tokens = l ++ place :: r) :
    (occurrences tokens).drop place.index = place :: r ∧
      (occurrences tokens).drop (place.index + 1) = r := by
  have hindex := index_occurrencesAfter h
  rw [List.length_nil, Nat.zero_add] at hindex
  rw [h, hindex]
  refine ⟨List.drop_left, ?_⟩
  rw [← List.drop_drop, List.drop_left, List.drop_succ_cons, List.drop_zero]

/-- Among comments there is no word. -/
theorem findIdx?_eq_none {places : List Occurrence} (h : significant places = []) :
    (places.map Occurrence.token).findIdx? Token.isSignificant = none := by
  rw [List.findIdx?_eq_none_iff]
  intro token hmem
  rcases List.mem_map.mp hmem with ⟨place, hplace, rfl⟩
  exact Bool.eq_false_iff.mpr (List.filter_eq_nil_iff.mp h place hplace)

/-- A script without words declares nothing. -/
theorem detectKeyword_none {tokens : List Token} (h : significant (occurrences tokens) = []) :
    detectKeyword tokens = none := by
  have hfind := findIdx?_eq_none h
  rw [occurrences, occurrencesAfter_map_token] at hfind
  rw [detectKeyword, hfind]

/-- Only the first word can declare a scheme. -/
theorem detectKeyword_some {tokens : List Token} {l r : List Occurrence} {first : Occurrence}
    (h : occurrences tokens = l ++ first :: r) (hl : significant l = [])
    (hfirst : first.isSignificant) :
    detectKeyword tokens = first.token.declares?.map fun scheme => (scheme, first.index) := by
  have hindex := index_occurrencesAfter h
  rw [List.length_nil, Nat.zero_add] at hindex
  have htokens := occurrencesAfter_map_token [] tokens
  rw [← occurrences, h, List.map_append, List.map_cons] at htokens
  have hword : first.token.isSignificant := hfirst
  -- All tokens in front are comments, so this is the first word.
  have hfind : tokens.findIdx? Token.isSignificant = some l.length := by
    rw [← htokens, List.findIdx?_append, findIdx?_eq_none hl, List.findIdx?_cons, if_pos hword]
    simp
  have hget : tokens[l.length]? = some first.token := by
    rw [← htokens, List.getElem?_append_right (by simp)]
    simp
  rw [detectKeyword, hfind, hindex]
  dsimp only
  rw [hget]
  rfl

theorem exists_first_word {places words : List Occurrence} {first : Occurrence}
    (h : significant places = first :: words) :
    ∃ l r, places = l ++ first :: r ∧ significant l = [] ∧ first.isSignificant ∧
      significant r = words := by
  rcases List.filter_eq_cons_iff.mp h with ⟨l, r, hplaces, hl, hfirst, hr⟩
  exact ⟨l, r, hplaces, List.filter_eq_nil_iff.mpr hl, hfirst, hr⟩

/-- Where a word of a script stands. -/
theorem exists_word {places l words : List Occurrence} {word : Occurrence}
    (h : significant places = l ++ word :: words) :
    ∃ l' r, places = l' ++ word :: r ∧ significant r = words := by
  rcases List.filter_eq_append_iff.mp h with ⟨front, behind, rfl, -, hbehind⟩
  rcases exists_first_word hbehind with ⟨l', r, rfl, -, -, hr⟩
  exact ⟨front ++ l', r, (List.append_assoc _ _ _).symm, hr⟩

/-- The keyword is looked up by its index, and is the first word. -/
theorem keyword_place {tokens : List Token} {l r : List Occurrence} {first : Occurrence}
    (h : occurrences tokens = l ++ first :: r) (hl : significant l = [])
    (hfirst : first.isSignificant) :
    ((detectKeyword tokens).map (·.2)).bind
        (fun index => ((occurrences tokens).drop index).head?) =
      first.token.declares?.map fun _ => first := by
  rw [detectKeyword_some h hl hfirst]
  cases first.token.declares? with
  | none => rfl
  | some scheme =>
      rw [Option.map_some, Option.map_some, Option.bind_some, (drop_index h).1]
      rfl

/-- The body behind a header has the sections of its words. -/
theorem partsOf_behindHeader {tokens : List Token} (h : LineOrdered (occurrences tokens))
    {l r : List Occurrence} {first : Occurrence} (hscript : occurrences tokens = l ++ first :: r)
    {declared header : Header} {opening : Occurrence} {behind : List Occurrence}
    (hread : headerWords declared (significant r) = (header, opening :: behind)) :
    (partsOf (untilClose 0 ((occurrences tokens).drop (opening.index + 1))).body).map Part.plain =
      partsOf (untilClose 0 behind).body := by
  -- What the header leaves begins with the opening brace of the body.
  have hsuffix := headerWords_suffix declared (significant r)
  rw [hread] at hsuffix
  rcases hsuffix with ⟨front, hfront⟩
  rcases exists_word hfront.symm with ⟨l', q, rfl, rfl⟩
  have hopening : occurrences tokens = (l ++ first :: l') ++ opening :: q := by
    rw [hscript, List.append_assoc, List.cons_append]
  -- The body is a part of the script and in its order.
  have hbody : LineOrdered (untilClose 0 q).body := by
    refine h.sublist ((untilClose_body_front 0 q).sublist.trans ?_)
    rw [hopening]
    exact (List.sublist_cons_self _ _).trans (List.sublist_append_right _ _)
  rw [(drop_index hopening).2, untilClose_significant]
  exact (partsOf_significant hbody).symm

/-- The outline of a script is the outline of its words. -/
theorem outline_words {tokens : List Token} (h : LineOrdered (occurrences tokens)) :
    (outline tokens ((detectKeyword tokens).map (·.2))).header =
        (outlineOfWords (significant (occurrences tokens))).1 ∧
      (outline tokens ((detectKeyword tokens).map (·.2))).parts.map Part.plain =
        (outlineOfWords (significant (occurrences tokens))).2 := by
  have hparts := partsOf_significant h
  cases hwords : significant (occurrences tokens) with
  | nil =>
      rw [hwords] at hparts
      rw [detectKeyword_none hwords]
      refine ⟨rfl, hparts.symm.trans ?_⟩
      rw [partsOf, statements, statementsAfter]
      rfl
  | cons first words =>
      rcases exists_first_word hwords with ⟨l, r, hscript, hl, hfirst, rfl⟩
      unfold outline outlineOfWords
      dsimp only
      rw [keyword_place hscript hl hfirst]
      cases hdeclares : first.token.declares? with
      | none =>
          rw [hwords] at hparts
          exact ⟨rfl, hparts.symm⟩
      | some scheme =>
          dsimp only [Option.map_some, Option.isSome_some]
          rw [if_pos rfl, (drop_index hscript).2, readHeader_eq]
          rcases hread : headerWords ⟨first.token.text, none, none, first.token.position⟩
            (significant r) with ⟨header, _ | ⟨opening, behind⟩⟩
          · exact ⟨rfl, rfl⟩
          · exact ⟨rfl, partsOf_behindHeader h hscript hread⟩

namespace Recast

variable (recast : Recast)

/-- The outline of the words in another script. -/
theorem outlineOfWords_map (words : List Occurrence) :
    (outlineOfWords (words.map recast.place)).1 =
        (outlineOfWords words).1.map (Header.down recast.lines) ∧
      (outlineOfWords (words.map recast.place)).2.map Part.unindexed =
        (outlineOfWords words).2.map recast.part := by
  cases words with
  | nil => exact ⟨rfl, rfl⟩
  | cons first rest =>
      unfold outlineOfWords
      simp only [List.map_cons, token_place, declares?_token]
      split
      · have hheader := recast.headerWords_map
          ⟨first.token.text, none, none, first.token.position⟩ rest
        -- The header begins with the position of the keyword, which has moved with it.
        have hdeclared : (⟨(recast.token first.token).text, none, none,
            (recast.token first.token).position⟩ : Header) =
              Header.down recast.lines ⟨first.token.text, none, none, first.token.position⟩ := by
          rw [text_token, position_token]
          rfl
        rw [hdeclared, hheader]
        refine ⟨rfl, ?_⟩
        cases (headerWords ⟨first.token.text, none, none, first.token.position⟩ rest).2 with
        | nil => rfl
        | cons opening behind =>
            simp only [List.map_cons, untilClose_map]
            exact recast.partsOf_map _
      · exact ⟨rfl, recast.partsOf_map (first :: rest)⟩

end Recast

end StackScript
