import StackScript.Proofs.Indexed.Partition

/-!
# Statements Keep Blocks and Lines

A statement that has the opening brace of a block has the block to its end, and
words that stand side by side on a line are in one statement. The second law needs
braces in order: a statement ends in front of a closing brace that closes nothing
of its own, whatever line that is on.

Both laws are about the end of a statement. Inside of a block a statement takes
every token, so it cannot end before the block does, `close_mem_restOfStatement`.
On its own level it ends for one of three reasons only, `restOfStatement_ends`, and
between two neighbours two of them are out of the question. The third is a closing
brace, and then the first law, for the partner of that brace, puts both neighbours
into the statement that has the block.

## Main definitions

* `PairedWithin`: Every brace of a range has its partner in the range.
* `AreNeighbours`: Two words side by side on a line.

## Theorems

* `restOfStatement_ends`: Why a statement ends.
* `untilClose_front_restOfStatement`, `close_mem_restOfStatement`: A statement ends behind
  the blocks that it is in.
* `has_blockEnd`: A statement has the partner of an opening brace in it.
* `index_final`, `exists_left`: The last token of a statement, and what it leaves.
* `AreNeighbours.together`: Neighbours are in one statement.
* `statements_keepTogether`: Statements cut no block and no line.
-/

namespace StackScript

/-! ## Where a statement ends -/

/-- A statement that is on its own level has come to the line of its last token. -/
theorem Extent.line_take (extent : Extent) {token : Token} (h : (extent.take token).depth = 0) :
    (extent.take token).line = token.position.line := by
  -- Only a closing brace leads back to that level, and it sets the line like any other token.
  rcases hdepth : extent.depth with _ | depth
  · unfold take
    rw [hdepth]
    dsimp only
    split <;> first | rfl | contradiction
  by_cases hl : token.kind = .lBrace
  · rw [take_lBrace _ hl] at h
    cases h
  by_cases hr : token.kind = .rBrace
  · rw [line_take_rBrace hdepth hr]
  · rw [take_deep hdepth hl hr, hdepth] at h
    cases h

/-- A statement ends for one of three reasons: its last token is a semicolon, a
    closing brace follows, or what follows is on a later line. -/
theorem restOfStatement_ends {extent : Extent} {last next : Occurrence}
    {places behind : List Occurrence}
    (hline : extent.depth = 0 → extent.line = last.token.position.line)
    (h : (restOfStatement extent places).2 = next :: behind) :
    ∃ front final, last :: (restOfStatement extent places).1 = front ++ [final] ∧
      (final.token.kind = .semicolon ∨ next.token.kind = .rBrace ∨
        final.token.position.line < next.token.position.line) := by
  induction places generalizing extent last with
  | nil => cases h
  | cons place places ih =>
      rw [restOfStatement] at h ⊢
      -- The statement ends in front of the next token, because that is a closing brace or
      -- on another line.
      by_cases hbefore : extent.endsBefore place.token
      · rw [if_pos hbefore] at h ⊢
        rw [List.cons.injEq] at h
        refine ⟨[], last, rfl, ?_⟩
        rw [← h.1, ← hline (Extent.depth_of_endsBefore hbefore)]
        simp only [Extent.endsBefore, Bool.or_eq_true, Bool.and_eq_true,
          decide_eq_true_eq] at hbefore
        exact .inr (hbefore.symm.imp And.right And.right)
      -- Or it ends with a semicolon, or goes on.
      by_cases hwith : extent.endsWith place.token
      · rw [if_neg hbefore, if_pos hwith]
        exact ⟨[last], place, rfl, .inl (Extent.depth_of_endsWith hwith).2⟩
      · rw [if_neg hbefore, if_neg hwith] at h ⊢
        have hline := @Extent.line_take extent place.token
        rcases ih hline h with ⟨front, final, hlast, hreason⟩
        exact ⟨last :: front, final, congrArg (last :: ·) hlast, hreason⟩

/-- A statement takes a block that it is in up to its end, with the closing brace if
    there is one. -/
theorem untilClose_front_restOfStatement {extent : Extent} {depth : Nat}
    (hdepth : depth < extent.depth) (places : List Occurrence) :
    (untilClose depth places).body ++ (untilClose depth places).close?.toList <+:
      (restOfStatement extent places).1 := by
  induction places generalizing extent depth with
  | nil => exact List.prefix_rfl
  | cons place places ih =>
      rcases Nat.exists_eq_succ_of_ne_zero (Nat.ne_zero_of_lt hdepth) with ⟨outer, houter⟩
      -- Inside of a block the statement takes every token.
      rw [restOfStatement_deep houter]
      by_cases hl : place.token.kind = .lBrace
      · rw [untilClose_lBrace _ _ hl]
        refine List.cons_prefix_cons.mpr ⟨rfl, ih ?_⟩
        rw [Extent.take_lBrace _ hl]
        exact Nat.succ_lt_succ hdepth
      by_cases hr : place.token.kind = .rBrace
      · cases depth with
        -- Here the block ends, and the statement has its brace as well.
        | zero =>
            rw [untilClose_rBrace_zero _ hr]
            exact List.cons_prefix_cons.mpr ⟨rfl, List.nil_prefix⟩
        | succ depth =>
            rw [untilClose_rBrace _ _ hr]
            refine List.cons_prefix_cons.mpr ⟨rfl, ih ?_⟩
            rw [Extent.take_rBrace houter hr]
            omega
      · rw [untilClose_of_ne _ _ hl hr]
        refine List.cons_prefix_cons.mpr ⟨rfl, ih ?_⟩
        rwa [Extent.take_deep houter hl hr]

/-- A block that is closed is closed in the statement that it is in. -/
theorem close_mem_restOfStatement {extent : Extent} {depth : Nat} (hdepth : depth < extent.depth)
    {places rest : List Occurrence} {close : Occurrence}
    (h : (untilClose depth places).ending = some (close, rest)) :
    close ∈ (restOfStatement extent places).1 := by
  refine (untilClose_front_restOfStatement hdepth places).subset (List.mem_append_right _ ?_)
  rw [Block.close?, h]
  exact List.mem_cons_self

/-- What a statement has taken behind one of its tokens. -/
theorem restOfStatement_split {extent : Extent} {places m r : List Occurrence}
    {place : Occurrence} (h : (restOfStatement extent places).1 = m ++ place :: r)
    (hkind : place.token.kind ≠ .semicolon) :
    ∃ reached q, places = m ++ place :: q ∧
      r = (restOfStatement (Extent.take reached place.token) q).1 := by
  induction m generalizing extent places with
  | nil =>
      rcases restOfStatement_taken h with ⟨q, rfl, ⟨-, hsemicolon⟩ | hr⟩
      · exact absurd hsemicolon hkind
      · exact ⟨extent, q, rfl, hr⟩
  | cons head m ih =>
      rcases restOfStatement_taken h with ⟨places, rfl, ⟨hnone, -⟩ | hrest⟩
      · exact absurd hnone (List.append_ne_nil_of_right_ne_nil m (List.cons_ne_nil _ _))
      · rcases ih hrest.symm with ⟨reached, q, rfl, hr⟩
        exact ⟨reached, q, rfl, hr⟩

/-! ## The statements of a range -/

section Range

variable {tokens : List Token} {start stop i : Nat} {statement : Statement}

/-- What follows an opening brace in its statement, and in the range. -/
theorem exists_opening (h : statement ∈ statements (span tokens start stop))
    {opening : Occurrence} (hmem : opening ∈ statement.places)
    (hopen : opening.token.kind = .lBrace) :
    ∃ extent, 0 < Extent.depth extent ∧
      (restOfStatement extent (span tokens (opening.index + 1) stop)).1 ⊆ statement.places := by
  rcases statementsAfter_mem h with ⟨l, q, hspan, hothers⟩
  rcases List.mem_cons.mp hmem with rfl | hmem
  · -- The brace is the first token, so the statement is inside of the block from then on.
    rcases span_split hspan with ⟨-, -, -, rfl⟩
    refine ⟨Extent.ofFirst statement.first.token, ?_, ?_⟩
    · rw [Extent.ofFirst, Extent.take_lBrace _ hopen]
      exact Nat.succ_pos _
    · rw [← hothers]
      exact List.subset_cons_self _ _
  · -- Or the brace is one of those that the statement takes.
    rcases List.append_of_mem hmem with ⟨m, r, hsplit⟩
    rcases restOfStatement_split (hothers.symm.trans hsplit)
      (by rw [hopen]; exact TokenKind.noConfusion) with ⟨reached, q', rfl, hr⟩
    have hspan' : span tokens start stop =
        (l ++ statement.first :: m) ++ opening :: q' := by
      rw [hspan, List.append_assoc, List.cons_append]
    rcases span_split hspan' with ⟨-, -, -, rfl⟩
    refine ⟨reached.take opening.token, ?_, ?_⟩
    · rw [Extent.take_lBrace _ hopen]
      exact Nat.succ_pos _
    · rw [← hr, Statement.places, hsplit]
      exact fun place hplace =>
        List.mem_cons_of_mem _ (List.mem_append_right _ (List.mem_cons_of_mem _ hplace))

/-- A statement with an opening brace has the partner of the brace, if the partner is
    in the range. -/
theorem has_blockEnd (h : statement ∈ statements (span tokens start stop))
    (hhas : statement.bounds.Has i) (hopen : kindAt tokens i = some .lBrace) {close : Nat}
    (hclose : blockEnd tokens i = some close) (hlt : close < stop) :
    statement.bounds.Has close := by
  rcases (has_bounds h).mp hhas with ⟨opening, hmem, rfl⟩
  have hspan := pieces_subset h (List.mem_append_right _ hmem)
  rw [kindAt_index hspan, Option.some.injEq] at hopen
  rcases exists_opening h hmem hopen with ⟨extent, hdepth, hsub⟩
  rcases untilClose_span_of_lt (span_subset _ _ _ hspan) hopen hclose hlt with
    ⟨brace, rfl, -, hblock⟩
  have hending := congrArg Block.ending hblock
  exact (has_bounds h).mpr ⟨brace, hsub (close_mem_restOfStatement hdepth hending), rfl⟩

/-- The last token of a statement stands in front of its end, behind the others. -/
theorem index_final (h : statement ∈ statements (span tokens start stop))
    {front : List Occurrence} {final : Occurrence} (hplaces : statement.places = front ++ [final]) :
    final ∈ occurrences tokens ∧ final.index = statement.stop - 1 ∧
      front = span tokens statement.start final.index := by
  have hsplit := (places_eq_span h).1.symm.trans hplaces
  rcases span_split hsplit with ⟨hindex, -, hfront, -⟩
  have hmem : final ∈ span tokens statement.start statement.stop := by
    rw [hsplit]
    exact List.mem_append_right _ (.head _)
  refine ⟨span_subset _ _ _ hmem, ?_, hfront⟩
  have hcount := congrArg List.length hplaces
  rw [List.length_append, List.length_singleton] at hcount
  rw [hindex, Statement.stop, hcount]
  omega

/-- The next token of the range of a statement is the first one that the statement
    leaves. -/
theorem exists_left (h : statement ∈ statements (span tokens start stop))
    (hlt : statement.stop < stop) {next : Token} (hnext : tokens[statement.stop]? = some next) :
    ∃ places place behind, place.token = next ∧
      restOfStatement (Extent.ofFirst statement.first.token) places =
        (statement.others, place :: behind) := by
  rcases statementsAfter_mem h with ⟨l, q, hspan, hothers⟩
  rcases span_split hspan with ⟨-, hfirst, -, rfl⟩
  have hstop : statement.first.index + 1 + statement.others.length = statement.stop := by
    rw [Statement.stop, Statement.places, List.length_cons, Statement.start]
    omega
  -- What the statement leaves begins with the token behind it.
  have hleft := (restOfStatement_span (i := statement.first.index + 1) _ tokens hfirst
    (congrArg List.length hothers)).2.2
  have hlength := (List.getElem?_eq_some_iff.mp hnext).1
  rcases exists_place (Nat.lt_min.mpr ⟨hlt, hlength⟩) (Nat.min_le_right _ _) with
    ⟨place, hindex, hmem, hplace⟩
  rw [span_min, span_min] at hplace
  rw [hstop, hplace] at hleft
  rw [← hindex, (standing_of_mem hmem).1, Option.some.injEq] at hnext
  exact ⟨_, place, _, hnext, Prod.ext hothers.symm hleft⟩

/-- Why a statement ends in front of the next token of its range. -/
theorem ends_before (h : statement ∈ statements (span tokens start stop))
    (hlt : statement.stop < stop) {next : Token} (hnext : tokens[statement.stop]? = some next) :
    ∃ final, tokens[statement.stop - 1]? = some final ∧
      (final.kind = .semicolon ∨ next.kind = .rBrace ∨
        final.position.line < next.position.line) := by
  rcases exists_left h hlt hnext with ⟨places, place, behind, rfl, hrest⟩
  have hline : (Extent.ofFirst statement.first.token).depth = 0 →
      (Extent.ofFirst statement.first.token).line = statement.first.token.position.line :=
    Extent.line_take _
  -- The statement has ended for one of the three reasons.
  rcases restOfStatement_ends hline (congrArg Prod.snd hrest) with
    ⟨front, final, hplaces, hreason⟩
  rw [hrest] at hplaces
  rcases index_final h hplaces with ⟨hmem, hindex, -⟩
  exact ⟨final.token, hindex ▸ (standing_of_mem hmem).1, hreason⟩

end Range

/-! ## Blocks and lines -/

/-- Every brace between two indices has its partner there. -/
structure PairedWithin (tokens : List Token) (start stop : Nat) : Prop where
  /-- An opening brace is closed there. -/
  opened : ∀ i, start ≤ i → i < stop → kindAt tokens i = some .lBrace →
    ∃ j, blockEnd tokens i = some j ∧ j < stop
  /-- A closing brace closes one that is there. -/
  closed : ∀ j, start ≤ j → j < stop → kindAt tokens j = some .rBrace →
    ∃ i, start ≤ i ∧ IsGroup tokens i j

/-- Two words on one line with nothing but comments between them, and neither of
    them a semicolon. -/
structure AreNeighbours (tokens : List Token) (i j : Nat) (a b : Token) : Prop where
  /-- The first stands at the first index. -/
  first : tokens[i]? = some a
  /-- The second stands at the second one. -/
  second : tokens[j]? = some b
  /-- The second comes behind the first. -/
  lt : i < j
  /-- Between them are comments only. -/
  between : ∀ k, i < k → k < j → kindAt tokens k = some .comment
  /-- They are words. -/
  words : a.kind ≠ .comment ∧ b.kind ≠ .comment
  /-- Neither is a semicolon. -/
  plain : a.kind ≠ .semicolon ∧ b.kind ≠ .semicolon
  /-- They are on one line. -/
  line : a.position.line = b.position.line

theorem kindAt_of_getElem? {tokens : List Token} {i : Nat} {token : Token}
    (h : tokens[i]? = some token) : kindAt tokens i = some token.kind := by
  rw [kindAt, h]
  rfl

/-- Lines rise along the script. -/
theorem line_le_of_le {text : String} {i j : Nat} {a b : Token} (h : i ≤ j)
    (ha : (tokenize text)[i]? = some a) (hb : (tokenize text)[j]? = some b) :
    a.position.line ≤ b.position.line := by
  rcases List.getElem?_eq_some_iff.mp ha with ⟨hi, rfl⟩
  rcases List.getElem?_eq_some_iff.mp hb with ⟨hj, rfl⟩
  rcases Nat.lt_or_eq_of_le h with hlt | rfl
  · exact Position.line_le_of_lt
      (List.pairwise_iff_getElem.mp (tokenizeAt_pairwise Place.start text.toList) i j hi hj hlt).2
  · exact Nat.le_refl _

section Neighbours

variable {text : String} {start stop i j : Nat} {a b : Token}

/-- A statement that ends between two neighbours ends in front of the second one,
    which is a closing brace. -/
theorem AreNeighbours.ends (h : AreNeighbours (tokenize text) i j a b) (hstop : j < stop)
    {statement : Statement}
    (hstatement : statement ∈ statements (span (tokenize text) start stop))
    (hhas : statement.bounds.Has i) (hend : statement.stop ≤ j) :
    kindAt (tokenize text) j = some .rBrace := by
  have hlength := (List.getElem?_eq_some_iff.mp h.second).1
  have hnext := List.getElem?_eq_getElem (Nat.lt_of_le_of_lt hend hlength)
  rcases ends_before hstatement (Nat.lt_of_le_of_lt hend hstop) hnext with
    ⟨final, hfinal, hreason⟩
  have hbehind : i ≤ statement.stop - 1 := Nat.le_sub_one_of_lt hhas.2
  have hbefore : statement.stop - 1 < j :=
    Nat.lt_of_lt_of_le (Nat.sub_one_lt_of_lt hhas.2) hend
  rcases hreason with hsemicolon | hbrace | hline
  · -- The last token of the statement is the first neighbour or a comment.
    have hkind := hsemicolon ▸ kindAt_of_getElem? hfinal
    rcases Nat.lt_or_eq_of_le hbehind with hlt | heq
    · rw [h.between _ hlt hbefore] at hkind
      cases hkind
    · rw [← heq, kindAt_of_getElem? h.first, Option.some.injEq] at hkind
      exact absurd hkind h.plain.1
  · -- The token behind the statement is the second neighbour, since no brace is between the
    -- two.
    have hkind := hbrace ▸ kindAt_of_getElem? hnext
    rcases Nat.lt_or_eq_of_le hend with hlt | heq
    · rw [h.between statement.stop hhas.2 hlt] at hkind
      cases hkind
    · rwa [← heq]
  · -- Both are on one line, so no line ends between them.
    have hle := line_le_of_le hbehind h.first hfinal
    have hle' := line_le_of_le hend hnext h.second
    have hsame := h.line
    omega

/-- Neighbours are in one statement. -/
theorem AreNeighbours.together (h : AreNeighbours (tokenize text) i j a b)
    (hpaired : PairedWithin (tokenize text) start stop) (hstart : start ≤ i) (hstop : j < stop) :
    ∃ statement ∈ statements (span (tokenize text) start stop),
      statement.bounds.Has i ∧ statement.bounds.Has j := by
  rcases exists_statement_of_word hstart (Nat.lt_trans h.lt hstop) (kindAt_of_getElem? h.first)
    h.words.1 h.plain.1 with ⟨statement, hstatement, hhas⟩
  refine ⟨statement, hstatement, hhas, Nat.le_trans hhas.1 (Nat.le_of_lt h.lt), ?_⟩
  by_contra hend
  have hclose := h.ends hstop hstatement hhas (Nat.le_of_not_lt hend)
  rcases hpaired.closed j (Nat.le_trans hstart (Nat.le_of_lt h.lt)) hstop hclose with
    ⟨k, hk, hgroup⟩
  -- The partner of the brace is not between the neighbours, so the first of them is in
  -- the block too, and its statement is the one with the block.
  have hfront : k ≤ i := by
    by_contra hbetween
    have hcomment := h.between k (Nat.lt_of_not_le hbetween) hgroup.lt
    rw [hgroup.1] at hcomment
    cases hcomment
  rcases exists_statement_of_word hk (Nat.lt_trans hgroup.lt hstop) hgroup.1
    TokenKind.noConfusion TokenKind.noConfusion with ⟨other, hother, hhas'⟩
  have hblock := has_blockEnd hother hhas' hgroup.1 hgroup.2 hstop
  have hsame := statement_unique hstatement hother hhas
    ⟨Nat.le_trans hhas'.1 hfront, Nat.lt_trans h.lt hblock.2⟩
  exact hend (hsame ▸ hblock.2)

end Neighbours

namespace Indexed

/-- Statements cut no block and no line. A statement with the opening brace of a block
    has the whole block, if the block ends in the range; and where every brace has its
    partner in the range, neighbours are in one statement. -/
theorem statements_keepTogether :
    (∀ (tokens : List Token) (start stop : Nat),
      ∃ found, statements tokens start stop = some found ∧
        ∀ i close, start ≤ i → kindAt tokens i = some .lBrace → blockEnd tokens i = some close →
          close < stop →
            (∃ bounds ∈ found, bounds.Has i) ∧
              ∀ bounds ∈ found, bounds.Has i → ∀ k, i ≤ k → k ≤ close → bounds.Has k) ∧
    ∀ (text : String) (start stop : Nat), PairedWithin (tokenize text) start stop →
      ∃ found, statements (tokenize text) start stop = some found ∧
        ∀ i j a b, start ≤ i → j < stop → AreNeighbours (tokenize text) i j a b →
          ∃ bounds ∈ found, bounds.Has i ∧ bounds.Has j := by
  constructor
  · intro tokens start stop
    refine ⟨boundsIn tokens start stop, statements_eq tokens start stop, ?_⟩
    intro i close hstart hopen hclose hlt
    have hinside : i < stop := Nat.lt_trans (IsGroup.lt ⟨hopen, hclose⟩) hlt
    constructor
    · rcases exists_statement_of_word hstart hinside hopen TokenKind.noConfusion
        TokenKind.noConfusion with ⟨statement, hstatement, hhas⟩
      exact ⟨statement.bounds, List.mem_map_of_mem hstatement, hhas⟩
    · refine List.forall_mem_map.mpr fun statement hstatement hhas k hk hle => ?_
      -- A statement with the opening brace has everything up to the closing one.
      have hblock := has_blockEnd hstatement hhas hopen hclose hlt
      exact ⟨Nat.le_trans hhas.1 hk, Nat.lt_of_le_of_lt hle hblock.2⟩
  · intro text start stop hpaired
    refine ⟨boundsIn (tokenize text) start stop, statements_eq (tokenize text) start stop, ?_⟩
    intro i j a b hstart hstop hneighbours
    rcases hneighbours.together hpaired hstart hstop with ⟨statement, hstatement, hhas⟩
    exact ⟨statement.bounds, List.mem_map_of_mem hstatement, hhas⟩

/-- Behind a block with a line break in parentheses stand a word and a comment on the line
    of its closing brace. -/
theorem statements_keepTogether_attached :
    ∃ found, statements (tokenize "a \x7b\nb (\n) \x7d as // d\ne; f") 0 11 = some found ∧
      ∃ bounds ∈ found, bounds.Has 5 ∧ bounds.Has 6 := by
  -- The script has one block, and it is closed inside of the range.
  have hopened : ∀ i < 11, kindAt (tokenize "a \x7b\nb (\n) \x7d as // d\ne; f") i =
      some .lBrace → i = 1 := by decide +kernel
  have hclosed : ∀ j < 11, kindAt (tokenize "a \x7b\nb (\n) \x7d as // d\ne; f") j =
      some .rBrace → j = 5 := by decide +kernel
  rcases statements_keepTogether.2 "a \x7b\nb (\n) \x7d as // d\ne; f" 0 11
    ⟨fun i _ hi hkind => hopened i hi hkind ▸ ⟨5, by decide +kernel, by decide⟩,
      fun j _ hj hkind => hclosed j hj hkind ▸
        ⟨1, by decide, by decide +kernel, by decide +kernel⟩⟩ with ⟨found, hfound, htogether⟩
  refine ⟨found, hfound, htogether 5 6 ⟨.rBrace, "\x7d", ⟨3, 3⟩, 10⟩
    ⟨.ident, "as", ⟨3, 5⟩, 12⟩ (by decide) (by decide) ?_⟩
  exact ⟨by decide +kernel, by decide +kernel, by decide, fun k _ _ => by omega, by decide,
    by decide, rfl⟩

end Indexed

end StackScript
